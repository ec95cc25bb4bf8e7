import OnlineScheduler.Recorder
import Mathlib.Algebra.Order.Field.Rat
import Mathlib.Data.List.Perm.Basic

/-! The actuator: ranking the objects by hotness, moving them between the
memory tiers and undoing refused moves. The globals it shares with no other
thread are one record; everything else it changes is in the object table. -/

namespace OnlineScheduler

/-- An entry of the ranked list. Keys are slots by construction: the list is
filled from a scan of the table over zero-initialized storage. -/
structure KeyValue where
  key : Fin maxObjects
  value : ℚ
  llcm : ℚ
  stores : ℚ
  tlbm : ℚ
deriving DecidableEq

namespace Actuator

def bindOrder : BitVec 64 → BitVec 64 → Nat → Int → BindType → Table → Table := writeOrder (1 <<< 1)

def comp (first second : KeyValue) : Int :=
  if first.value < second.value then 1
  else if first.value > second.value then -1
  else 0

/-- A `qsort` that meets its standard: some permutation in the order of
`comp`. Nothing is promised about entries that compare equal. -/
structure Qsort where
  sort : List KeyValue → List KeyValue
  perm : ∀ entries, (sort entries).Perm entries
  ordered : ∀ entries, (sort entries).Pairwise (fun first second => comp first second ≤ 0)

structure KeyValueList where
  entries : List KeyValue
  full : entries.length = maxObjects

def KeyValueList.static : KeyValueList where
  entries := List.replicate maxObjects ⟨0, 0, 0, 0, 0⟩
  full := List.length_replicate

def KeyValueList.set (list : KeyValueList) (position : Nat) (entry : KeyValue) : KeyValueList where
  entries := list.entries.set position entry
  full := by rw [List.length_set, list.full]

def KeyValueList.qsort (list : KeyValueList) (q : Qsort) : KeyValueList where
  entries := q.sort list.entries
  full := (q.perm list.entries).length_eq.trans list.full

/-- The globals of `actuator.c`. The counters of `g_status_memory_pages` come
from `malloc`, so nothing is known about them at the start. -/
structure Globals where
  keyValueList : KeyValueList
  activeObj : Nat
  promotionFlag : Int
  hasDemotion : Int
  currMaxLlcm : ℚ
  currMaxTlbm : ℚ
  currMaxStores : ℚ
  statusMemoryPages : Nat → ℚ

def Globals.start (statusMemoryPages : Nat → ℚ) : Globals :=
  ⟨.static, 0, 0, 0, 1, 1, 1, statusMemoryPages⟩

def Globals.ranked (globals : Globals) : List KeyValue :=
  globals.keyValueList.entries.take globals.activeObj

structure Listing where
  list : KeyValueList
  count : Nat
  currMaxLlcm : ℚ
  currMaxTlbm : ℚ
  currMaxStores : ℚ

def Globals.listing (globals : Globals) : Listing :=
  ⟨globals.keyValueList, 0, globals.currMaxLlcm, globals.currMaxTlbm, globals.currMaxStores⟩

def Listing.written (listing : Listing) : List KeyValue := listing.list.entries.take listing.count

/-- An `int` used as an index into an array of `MAX_OBJECTS` entries. -/
def slotAt (i : Int) : Except Fault (Fin maxObjects) :=
  if inside : 0 ≤ i ∧ i.toNat < maxObjects then .ok ⟨i.toNat, inside.2⟩ else .error (.outOfBounds i)

/-- The maxima move before the value is divided by them. -/
def listObject (t : Table) (i : Fin maxObjects) (listing : Listing) : Listing :=
  let metrics := (t.objVector i).metrics
  let llcm := metrics.loadsCount 4
  let tlbm := metrics.tlbMiss 4
  let stores := metrics.storesCount
  let currMaxLlcm := if llcm > listing.currMaxLlcm then llcm else listing.currMaxLlcm
  let currMaxTlbm := if tlbm > listing.currMaxTlbm then tlbm else listing.currMaxTlbm
  let currMaxStores := if stores > listing.currMaxStores then stores else listing.currMaxStores
  let value := llcm / currMaxLlcm + tlbm / currMaxTlbm + stores / currMaxStores
  { list := listing.list.set listing.count ⟨i, value, llcm, stores, tlbm⟩
    count := listing.count + 1
    currMaxLlcm, currMaxTlbm, currMaxStores }

/-- The building loop. The filter looks at `obj_alloc[obj_index]`, not at the
slot being visited, and the loop never assigns `obj_index`. -/
def buildList (t : Table) (objIndex : Int) (listing : Listing) : Except Fault Listing :=
  (scan t.totalObj).foldlM (fun listing i => do
    let tested ← slotAt objIndex
    return if t.objAlloc tested = 1 then listObject t i listing else listing) listing

/-- `sort_objects`. `objIndex` is what the local of that name holds on entry,
which the source does not set. -/
def sortObjects (p : Platform) (objIndex : Int) (q : Qsort) (t : Table) (globals : Globals) :
    Except Fault Globals := do
  let built ← buildList t objIndex globals.listing
  let list := built.list.qsort q
  let hot := (list.entries.take built.count).any (fun entry => entry.value > p.hotnessThreshold)
  return { globals with
    keyValueList := list
    activeObj := built.count
    promotionFlag := if hot then 1 else 0
    currMaxLlcm := built.currMaxLlcm
    currMaxTlbm := built.currMaxTlbm
    currMaxStores := built.currMaxStores }

def sizeOn (object : Object) (node : Fin 4) : ℚ :=
  object.size.toNat / gb * object.pageStatus node

/-- The innermost branch of `policy_promotion`: order the move, remember the
target and start the object's age anew. -/
def promote (p : Platform) (slot : Fin maxObjects) (t : Table) : Table :=
  let object := t.objVector slot
  let t := bindOrder object.startAddr object.size node0Dram slot.val .promotion t
  let (birthDate, t) := getMyTimestamp p t
  { t with
    objVector := Function.update t.objVector slot { object with lastDecision := node0Dram, birthDate } }

/-- The loop of `policy_promotion` from one entry on, with `maxMigrationGb`
left of the budget. -/
def promoteFrom (p : Platform) (currentFreeDram : ℚ) : List KeyValue → ℚ → Table → Table
  | [], _, t => t
  | entry :: rest, maxMigrationGb, t =>
    let object := t.objVector entry.key
    let currAllocSizeGb := sizeOn object 2
    if currAllocSizeGb > 0 ∧ currAllocSizeGb < currentFreeDram ∧ object.lastDecision ≠ node0Dram then
      if entry.value > p.hotnessThreshold ∧ t.objAlloc entry.key = 1 then
        if maxMigrationGb - currAllocSizeGb < 0 then promote p entry.key t
        else promoteFrom p currentFreeDram rest (maxMigrationGb - currAllocSizeGb) (promote p entry.key t)
      else promoteFrom p currentFreeDram rest maxMigrationGb t
    else promoteFrom p currentFreeDram rest maxMigrationGb t

/-- `policy_promotion`, with the answer of `get_free_dram_space`. -/
def policyPromotion (p : Platform) (currentFreeDram : ℚ) (ranked : List KeyValue) (t : Table) : Table :=
  promoteFrom p currentFreeDram ranked (chunkSize.toNat / gb) t

def minLifetimeSec : ℚ := 5
def minSizeGb : ℚ := 1 / 10

/-- The innermost branch of `policy_demotion`. -/
def demote (slot : Fin maxObjects) (t : Table) : Table :=
  let object := t.objVector slot
  let t := bindOrder object.startAddr object.size node0Pmem slot.val .demotion t
  { t with objVector := Function.update t.objVector slot { object with lastDecision := node0Pmem } }

/-- The loop of `policy_demotion` from one entry on, coldest first, with the
table and `g_has_demotion`. The age is read for large objects only. -/
def demoteFrom (p : Platform) : List KeyValue → ℚ → Table × Int → Table × Int
  | [], _, s => s
  | entry :: rest, maxMigrationGb, (t, hasDemotion) =>
    let object := t.objVector entry.key
    let currAllocSizeGb := sizeOn object 0
    if currAllocSizeGb > minSizeGb then
      let (now, t) := getMyTimestamp p t
      if now - object.birthDate > minLifetimeSec ∧ entry.value < p.hotnessThreshold ∧
          object.lastDecision ≠ node0Pmem then
        if t.objAlloc entry.key = 1 then
          if maxMigrationGb - currAllocSizeGb < 0 then (demote entry.key t, 1)
          else demoteFrom p rest (maxMigrationGb - currAllocSizeGb) (demote entry.key t, 1)
        else demoteFrom p rest maxMigrationGb (t, hasDemotion)
      else demoteFrom p rest maxMigrationGb (t, hasDemotion)
    else demoteFrom p rest maxMigrationGb (t, hasDemotion)

def policyDemotion (p : Platform) (ranked : List KeyValue) (t : Table) : Table × Int :=
  demoteFrom p ranked.reverse (chunkSize.toNat / gb) (t, 0)

/-- `query_status_memory_pages` on the shared counters. `pages` is the status
`numa_move_pages` reports for the page at an address. -/
def queryStatusMemoryPages (p : Platform) (pages : BitVec 64 → Int) (addr size : BitVec 64)
    (counters : Nat → ℚ) : Nat → ℚ :=
  if size % p.pageSize ≠ 0 then
    fun i => if i < p.numNodes + 1 then -1 else counters i
  else
    let pageCount := (size / p.pageSize).toNat
    let status := (List.range pageCount).map (fun i => pages (addr + BitVec.ofNat 64 i * p.pageSize))
    let counted := status.foldl (fun counters (node : Int) =>
      let place := if 0 ≤ node ∧ node < p.numNodes then node.toNat else p.numNodes
      Function.update counters place (counters place + 1)) counters
    fun i => if i < p.numNodes + 1 then counted i / pageCount else counted i

/-- `page_status` has four entries whatever the number of nodes. -/
def copyStatus (p : Platform) (counters : Nat → ℚ) (object : Object) : Except Fault Object :=
  (List.range (p.numNodes + 1)).foldlM (fun object j =>
    if inside : j < 4 then
      .ok { object with pageStatus := Function.update object.pageStatus ⟨j, inside⟩ (counters j) }
    else .error (.outOfBounds j)) object

def readAllocationStatus (p : Platform) (pages : BitVec 64 → Int) (t : Table) (counters : Nat → ℚ) :
    Except Fault (Table × (Nat → ℚ)) :=
  (scan t.totalObj).foldlM (fun (t, counters) i =>
    if t.objAlloc i = 1 then do
      let object := t.objVector i
      let counters := queryStatusMemoryPages p pages object.startAddr object.size counters
      let object ← copyStatus p counters object
      return ({ t with objVector := Function.update t.objVector i object }, counters)
    else return (t, counters)) (t, counters)

/-- The branch of `check_migration_error` that forgets a refused decision. -/
def undo (slot : Fin maxObjects) (t : Table) : Table :=
  { t with
    objVector := Function.update t.objVector slot { t.objVector slot with lastDecision := -1 }
    trace := t.trace ++ [.undone slot.val] }

def undoDecision (t : Table) (record : DataBind) : Except Fault Table := do
  let slot ← slotAt record.objIndex
  return if t.objAlloc slot = 1 ∧ record.type ≠ .initialDataplacement then undo slot t else t

/-- `check_migration_error`, with the records its reads deliver before the
pipe is empty. -/
def checkMigrationError (records : List DataBind) (t : Table) : Except Fault Table :=
  records.foldlM undoDecision t

end Actuator
end OnlineScheduler
