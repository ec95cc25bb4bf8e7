import Mathlib.Algebra.Ring.Nat
import Mathlib.Logic.Function.Basic

/-! The hash map that the monitor keeps its addresses in: an open addressed table
in Robin Hood order. `none` stands for what C leaves undefined, an index past
the allocated buckets or an `int` that overflows, and for a loop that has gone
through all buckets without an end. -/

namespace OnlineScheduler.HashMap

structure Bucket (α : Type) where
  hash : BitVec 48
  dib : BitVec 16
  item : α

/-- Where an argument of `compare` lies. -/
inductive Place where
  | key
  | edata
  | bucket (index : Nat)
deriving DecidableEq

/-- What `hashmap_new` is given. `elfree` says whether a function that frees
items is. -/
structure Functions (α : Type) where
  hash : α → BitVec 64 → BitVec 64 → BitVec 64
  compare : Place → α → Place → α → Int
  elfree : Bool

/-- `allocated` is the length of the block that `buckets` points to. -/
structure Hashmap (α : Type) where
  oom : Bool
  cap : Nat
  seed0 : BitVec 64
  seed1 : BitVec 64
  nbuckets : Nat
  count : Nat
  mask : Nat
  growat : Nat
  shrinkat : Nat
  allocated : Nat
  buckets : Nat → Bucket α

section
variable {α : Type} (functions : Functions α)

namespace Hashmap

def bucketAt (map : Hashmap α) (index : Nat) : Option (Bucket α) :=
  if index < map.allocated then some (map.buckets index) else none

def store (map : Hashmap α) (index : Nat) (bucket : Bucket α) : Hashmap α :=
  { map with buckets := Function.update map.buckets index bucket }

def start (map : Hashmap α) (hash : BitVec 48) : Nat := hash.toNat &&& map.mask

def next (map : Hashmap α) (index : Nat) : Nat := (index + 1) &&& map.mask

end Hashmap

/-- The hash as a bucket keeps it. -/
def getHash (seed0 seed1 : BitVec 64) (key : α) : BitVec 48 :=
  (functions.hash key seed0 seed1 <<< 16 >>> 16).setWidth 48

/-- The doubling of `ncap`, an `int`. -/
def roundUp (cap : Nat) : Option Nat :=
  if cap < 16 then some 16 else ((List.range 27).map (16 * 2 ^ ·)).find? (cap ≤ ·)

variable [Inhabited α]

def emptyBucket : Bucket α := ⟨0, 0, default⟩

/-- `memory` says whether both allocations succeed; without them the answer is
`NULL`. -/
def hashmapNew (cap : Nat) (seed0 seed1 : BitVec 64) (memory : Bool) : Option (Option (Hashmap α)) :=
  (roundUp cap).map fun cap =>
    if memory then
      some {
        oom := false, cap, seed0, seed1, nbuckets := cap, count := 0, mask := cap - 1
        growat := cap * 3 / 4, shrinkat := cap / 10, allocated := cap, buckets := fun _ => emptyBucket }
    else none

/-- The items that `elfree` is called with. -/
def freeElements (map : Hashmap α) : Option (List α) :=
  if functions.elfree then do
    let buckets ← (List.range map.nbuckets).mapM map.bucketAt
    return (buckets.filter fun bucket => bucket.dib ≠ 0).map Bucket.item
  else some []

/-- The branches of `hashmap_clear`. `memory` says whether new buckets are
allocated. -/
def recap (updateCap memory : Bool) (map : Hashmap α) : Hashmap α :=
  if updateCap then { map with cap := map.nbuckets }
  else if map.nbuckets ≠ map.cap then
    if memory then { map with allocated := map.cap, nbuckets := map.cap } else { map with nbuckets := map.cap }
  else map

/-- With the items that are freed. -/
def hashmapClear (updateCap memory : Bool) (map : Hashmap α) : Option (Hashmap α × List α) := do
  let map := { map with count := 0 }
  let freed ← freeElements functions map
  let map := recap updateCap memory map
  if map.nbuckets ≤ map.allocated then
    return ({ map with
      buckets := fun i => if i < map.nbuckets then emptyBucket else map.buckets i
      mask := map.nbuckets - 1
      growat := map.nbuckets * 3 / 4
      shrinkat := map.nbuckets / 10 }, freed)
  else none

/-- The inner loop of `resize`, over the buckets of `map2`. -/
def rehash : Nat → Hashmap α → Nat → Bucket α → Option (Hashmap α)
  | 0, _, _, _ => none
  | rounds + 1, map, i, entry => do
    let bucket ← map.bucketAt i
    if bucket.dib = 0 then return map.store i entry
    if bucket.dib < entry.dib then
      rehash rounds (map.store i entry) (map.next i) { bucket with dib := bucket.dib + 1 }
    else rehash rounds map (map.next i) { entry with dib := entry.dib + 1 }

/-- A pass of the outer loop of `resize`. -/
def rehashBucket (map map2 : Hashmap α) (i : Nat) : Option (Hashmap α) := do
  let entry ← map.bucketAt i
  if entry.dib = 0 then return map2
  rehash map2.nbuckets map2 (map2.start entry.hash) { entry with dib := 1 }

/-- `resize`, with a second `none` for its answer `false`. -/
def resize (newCap : Nat) (memory : Bool) (map : Hashmap α) : Option (Option (Hashmap α)) := do
  match ← hashmapNew newCap map.seed1 map.seed1 memory with
  | none => return none
  | some map2 =>
    let map2 ← (List.range map.nbuckets).foldlM (rehashBucket map) map2
    return some { map with
      buckets := map2.buckets
      allocated := map2.allocated
      nbuckets := map2.nbuckets
      mask := map2.mask
      growat := map2.growat
      shrinkat := map2.shrinkat }

/-- The loop of `hashmap_set`, with the item it replaces. -/
def setLoop : Nat → Hashmap α → Nat → Bucket α → Option (Hashmap α × Option α)
  | 0, _, _, _ => none
  | rounds + 1, map, i, entry => do
    let bucket ← map.bucketAt i
    if bucket.dib = 0 then return ({ map.store i entry with count := map.count + 1 }, none)
    if entry.hash = bucket.hash ∧ functions.compare .edata entry.item (.bucket i) bucket.item = 0 then
      return (map.store i { bucket with item := entry.item }, some bucket.item)
    if bucket.dib < entry.dib then
      setLoop rounds (map.store i entry) (map.next i) { bucket with dib := bucket.dib + 1 }
    else setLoop rounds map (map.next i) { entry with dib := entry.dib + 1 }

/-- `memory` is for its call to `resize`. -/
def hashmapSet (item : α) (memory : Bool) (map : Hashmap α) : Option (Hashmap α × Option α) := do
  let map := { map with oom := false }
  let grown ← if map.count = map.growat then resize (map.nbuckets * 2) memory map else some (some map)
  match grown with
  | none => return ({ map with oom := true }, none)
  | some map =>
    let hash := getHash functions map.seed0 map.seed1 item
    setLoop functions map.nbuckets map (map.start hash) ⟨hash, 1, item⟩

/-- The loop of `hashmap_get` and `hashmap_delete`: the bucket they end at, or a
second `none` when they come to a free one. -/
def search (map : Hashmap α) (hash : BitVec 48) (key : α) : Nat → Nat → Option (Option Nat)
  | 0, _ => none
  | rounds + 1, i => do
    let bucket ← map.bucketAt i
    if bucket.dib = 0 then return none
    if bucket.hash = hash ∧ functions.compare .key key (.bucket i) bucket.item = 0 then return some i
    search map hash key rounds (map.next i)

def hashmapGet (key : α) (map : Hashmap α) : Option (Option α) := do
  let hash := getHash functions map.seed0 map.seed1 key
  let found ← search functions map hash key map.nbuckets (map.start hash)
  return found.map fun i => (map.buckets i).item

/-- The inner loop of `hashmap_delete`, from the bucket that was emptied. -/
def shiftBack : Nat → Hashmap α → Nat → Option (Hashmap α)
  | 0, _, _ => none
  | rounds + 1, map, prev => do
    let i := map.next prev
    let bucket ← map.bucketAt i
    if bucket.dib ≤ 1 then return map.store prev { map.buckets prev with dib := 0 }
    shiftBack rounds (map.store prev { bucket with dib := bucket.dib - 1 }) i

/-- A shrink that lacks memory changes nothing. -/
def hashmapDelete (key : α) (memory : Bool) (map : Hashmap α) : Option (Hashmap α × Option α) := do
  let map := { map with oom := false }
  let hash := getHash functions map.seed0 map.seed1 key
  match ← search functions map hash key map.nbuckets (map.start hash) with
  | none => return (map, none)
  | some i =>
    let bucket ← map.bucketAt i
    let map ← shiftBack map.nbuckets (map.store i { bucket with dib := 0 }) i
    let map := { map with count := map.count - 1 }
    if map.nbuckets > map.cap ∧ map.count ≤ map.shrinkat then
      let shrunk ← resize (map.nbuckets / 2) memory map
      return (shrunk.getD map, some bucket.item)
    else return (map, some bucket.item)

/-- The items that `iter` is called with, in turn, and the answer. -/
def hashmapScan (iter : α → Bool) (map : Hashmap α) : Option (List α × Bool) :=
  scanFrom (List.range map.nbuckets)
where
  scanFrom : List Nat → Option (List α × Bool)
    | [] => some ([], true)
    | i :: rest => do
      let bucket ← map.bucketAt i
      if bucket.dib = 0 then scanFrom rest
      else if iter bucket.item then
        let (items, completed) ← scanFrom rest
        return (bucket.item :: items, completed)
      else return ([bucket.item], false)

def iterFrom (map : Hashmap α) : Nat → Nat → Option (Nat × Option α)
  | 0, _ => none
  | rounds + 1, i =>
    if map.nbuckets ≤ i then some (i, none)
    else do
      let bucket ← map.bucketAt i
      if bucket.dib = 0 then iterFrom map rounds (i + 1) else return (i + 1, some bucket.item)

/-- The cursor after a call, and the item that is yielded. -/
def hashmapIter (map : Hashmap α) (i : Nat) : Option (Nat × Option α) := iterFrom map (map.nbuckets + 1) i

/-- `while (hashmap_iter (map, &i, &item))`, with the items in turn. -/
def iterLoop (map : Hashmap α) : Nat → Nat → Option (List α)
  | 0, _ => none
  | rounds + 1, i => do
    match ← hashmapIter map i with
    | (_, none) => return []
    | (i, some item) =>
      let rest ← iterLoop map rounds i
      return item :: rest

/-- The items that are freed before the map itself. -/
def hashmapFree (map : Hashmap α) : Option (List α) := freeElements functions map

def hashmapCount (map : Hashmap α) : Nat := map.count

def hashmapOom (map : Hashmap α) : Bool := map.oom

inductive Operation (α : Type) where
  | set (item : α) (memory : Bool)
  | get (key : α)
  | delete (key : α) (memory : Bool)
  | clear (updateCap memory : Bool)

def Operation.isSet : Operation α → Bool
  | .set _ _ => true
  | _ => false

/-- What an operation returns, the items it calls `elfree` with and what
`hashmap_oom` then says. -/
structure Answer (α : Type) where
  item : Option α
  freed : List α
  oom : Bool
deriving DecidableEq

def step (map : Hashmap α) : Operation α → Option (Hashmap α × Answer α)
  | .set item memory => do
    let (map, old) ← hashmapSet functions item memory map
    return (map, ⟨old, [], hashmapOom map⟩)
  | .get key => do
    let found ← hashmapGet functions key map
    return (map, ⟨found, [], hashmapOom map⟩)
  | .delete key memory => do
    let (map, old) ← hashmapDelete functions key memory map
    return (map, ⟨old, [], hashmapOom map⟩)
  | .clear updateCap memory => do
    let (map, freed) ← hashmapClear functions updateCap memory map
    return (map, ⟨none, freed, hashmapOom map⟩)

def run (map : Hashmap α) : List (Operation α) → Option (Hashmap α × List (Answer α))
  | [] => some (map, [])
  | operation :: rest => do
    let (map, answer) ← step functions map operation
    let (map, answers) ← run map rest
    return (map, answer :: answers)

end
end OnlineScheduler.HashMap
