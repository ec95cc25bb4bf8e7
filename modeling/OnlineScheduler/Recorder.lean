import Mathlib.Algebra.GroupWithZero.Nat
import Mathlib.Data.Fintype.Pi
import Mathlib.Data.Rat.Defs
import Mathlib.Logic.Function.Basic

/-! The object table shared by the scheduler's threads and the recorder that
fills it. Addresses and sizes are the 64-bit words of the source; times and
metrics are exact rationals. An access outside an array has no meaning in C,
so it ends the run with a fault that names the index. -/

namespace OnlineScheduler

def maxObjects : Nat := 2000
def chunkSize : BitVec 64 := 1000001536
abbrev memLevels : Nat := 5
def gb : ℚ := 1000000000

def node0Dram : Nat := 0
def node0Pmem : Nat := 2

instance : NeZero maxObjects := ⟨by decide⟩
instance : NeZero memLevels := ⟨by decide⟩
instance neZeroPageStatus : NeZero 4 := ⟨by decide⟩

/-- What the threads read from the machine and its configuration. `clock n` is
the answer of the n-th `get_my_timestamp` of the run. -/
structure Platform where
  clock : Nat → ℚ
  pageSize : BitVec 64
  numNodes : Nat
  hotnessThreshold : ℚ

/-- Why a run ends: the recorder's own `exit(-1)`, or an access the C standard
gives no meaning to. -/
inductive Fault where
  | exit
  | outOfBounds (index : Int)
  | uninitialized
deriving DecidableEq, Repr

inductive BindType where
  | initialDataplacement
  | promotion
  | demotion
deriving DecidableEq, Repr

structure DataBind where
  startAddr : BitVec 64
  size : BitVec 64
  nodemaskTargetNode : BitVec 64
  objIndex : Int
  type : BindType
  flag : Int
deriving DecidableEq

structure Metrics where
  sumLatencyCost : Fin memLevels → ℚ
  loadsCount : Fin memLevels → ℚ
  storesCount : ℚ
  tlbHit : Fin memLevels → ℚ
  tlbMiss : Fin memLevels → ℚ
deriving DecidableEq

def Metrics.zero : Metrics := ⟨fun _ => 0, fun _ => 0, 0, fun _ => 0, fun _ => 0⟩

structure Object where
  startAddr : BitVec 64
  endAddr : BitVec 64
  size : BitVec 64
  pages : BitVec 64
  birthDate : ℚ
  pageStatus : Fin 4 → ℚ
  sliced : Int
  objIndex : Int
  pid : BitVec 32
  lastDecision : Int
  metrics : Metrics
deriving DecidableEq

/-- What the threads emit: a record written to `migration.pipe`, or the
`undone object` line of `check_migration_error`. -/
inductive Event where
  | order (data : DataBind)
  | undone (objIndex : Int)
deriving DecidableEq

/-- `g_tier_manager` with the static cursor of `_insert_object`, the number of
clock readings made so far and everything emitted so far. -/
structure Table where
  objVector : Fin maxObjects → Object
  objAlloc : Fin maxObjects → Int
  totalObj : Nat
  index : Nat
  reads : Nat
  trace : List Event

/-- The slots visited by `for (i = 0; i < bound; i++)`. The table keeps
`total_obj` within `MAX_OBJECTS`, so the array bound cuts no scan short. -/
def scan (bound : Nat) : List (Fin maxObjects) :=
  (List.range bound).filterMap (fun i => if inside : i < maxObjects then some ⟨i, inside⟩ else none)

/-- Its `popen` is taken to succeed; the source exits where it does not. The stream
is never closed, so `reads` descriptors are in use afterwards. -/
def getMyTimestamp (p : Platform) (t : Table) : ℚ × Table :=
  (p.clock t.reads, { t with reads := t.reads + 1 })

/-- The two copies of `bind_order` differ in `flag` only. -/
def writeOrder (flag : Int) (startAddr size : BitVec 64) (targetNode : Nat) (objIndex : Int)
    (type : BindType) (t : Table) : Table :=
  let data := { objIndex, startAddr, size, nodemaskTargetNode := 1 <<< targetNode, type, flag }
  { t with trace := t.trace ++ [.order data] }

namespace Recorder

def bindOrder : BitVec 64 → BitVec 64 → Nat → Int → BindType → Table → Table := writeOrder (1 <<< 0)

def static : Table where
  objVector := fun _ => ⟨0, 0, 0, 0, 0, fun _ => 0, 0, 0, 0, 0, .zero⟩
  objAlloc := fun _ => 0
  totalObj := 0
  index := 0
  reads := 0
  trace := []

def initializeRecorder (t : Table) : Table :=
  { t with
    objAlloc := fun _ => 0
    totalObj := 0
    objVector := fun i =>
      { t.objVector i with startAddr := -1, sliced := 0, lastDecision := -1, metrics := .zero } }

/-- The search loop of `_insert_object`, with `left` slots from `index` to the
end of the array. The bound is tested only after `index` has moved, so a loop
entered at the end reads past it. -/
def searchSlot (objAlloc : Fin maxObjects → Int) : Nat → Nat → Except Fault (Fin maxObjects)
  | 0, index => .error (.outOfBounds index)
  | left + 1, index =>
    if inside : index < maxObjects then
      if objAlloc ⟨index, inside⟩ = 1 then
        if index + 1 = maxObjects then .error .exit else searchSlot objAlloc left (index + 1)
      else .ok ⟨index, inside⟩
    else .error (.outOfBounds index)

/-- The body of `_insert_object` once the slot is found. `last_decision`, the
metrics and the page status keep what the slot held. -/
def storeObject (p : Platform) (pid : BitVec 32) (startAddr size : BitVec 64) (sliced : Int)
    (slot : Fin maxObjects) (t : Table) : Table :=
  let (birthDate, t) := getMyTimestamp p t
  let object := { t.objVector slot with
    startAddr, endAddr := startAddr + size, size, pages := size / p.pageSize, pid,
    objIndex := slot.val, sliced, birthDate }
  let t := { t with
    objVector := Function.update t.objVector slot object
    objAlloc := Function.update t.objAlloc slot 1
    totalObj := t.totalObj + 1 }
  let t := bindOrder startAddr size node0Dram slot.val .initialDataplacement t
  { t with index := slot.val + 1 }

def insertObjectSlot (p : Platform) (pid : BitVec 32) (startAddr size : BitVec 64) (sliced : Int)
    (t : Table) : Except Fault Table := do
  let slot ← searchSlot t.objAlloc (maxObjects - t.index) t.index
  return storeObject p pid startAddr size sliced slot t

/-- `_deallocate_object`: the first slot below `total_obj` that is live with
this very address and size is freed. -/
def deallocateObjectSlot (startAddr size : BitVec 64) (t : Table) : Table :=
  match (scan t.totalObj).find? (fun i =>
      (t.objVector i).startAddr = startAddr ∧ (t.objVector i).size = size ∧ t.objAlloc i = 1) with
  | some i => { t with objAlloc := Function.update t.objAlloc i 0 }
  | none => t

/-- `total_chunks` is an `int`: the quotient is truncated to 32 bits. -/
def totalChunks (size : BitVec 64) : BitVec 32 := (size / chunkSize).setWidth 32

/-- `remnant_size`. The product is taken in 64 bits, with the sign of
`total_chunks` extended. -/
def remnantSize (size : BitVec 64) : BitVec 64 := size - (totalChunks size).signExtend 64 * chunkSize

/-- The splitting that `insert_object` and `deallocate_object` both contain. -/
def splitObject {m : Type → Type} [Monad m] {σ : Type} (call : BitVec 64 → BitVec 64 → Int → σ → m σ)
    (startAddr size : BitVec 64) (s : σ) : m σ :=
  if chunkSize < size then do
    let count := (totalChunks size).toInt.toNat
    let s ← (List.range count).foldlM
      (fun s i => call (startAddr + BitVec.ofNat 64 i * chunkSize) chunkSize 1 s) s
    if 0 < remnantSize size then
      call (startAddr + BitVec.ofNat 64 count * chunkSize) (remnantSize size) 1 s
    else
      call (startAddr + BitVec.ofNat 64 count * chunkSize) chunkSize 1 s
  else
    call startAddr size 0 s

def insertObject (p : Platform) (pid : BitVec 32) (startAddr size : BitVec 64) (t : Table) :
    Except Fault Table :=
  splitObject (insertObjectSlot p pid) startAddr size t

def deallocateObject (_pid : BitVec 32) (startAddr size : BitVec 64) (t : Table) : Table :=
  Id.run (splitObject (fun startAddr size _ t => pure (deallocateObjectSlot startAddr size t)) startAddr size t)

end Recorder

/-- The table when `main` starts the threads. -/
def Table.start : Table := Recorder.initializeRecorder Recorder.static

end OnlineScheduler
