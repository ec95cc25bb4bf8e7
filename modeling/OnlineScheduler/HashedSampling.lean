import OnlineScheduler.HashMap
import OnlineScheduler.Sampling

/-! The monitor's windows once more, with the addresses in the buckets of the
hash map and its memory not always at hand. -/

namespace OnlineScheduler.Monitor

def pointer : HashMap.Place → Pointer
  | .key => .sampleAddr
  | .edata => .entry
  | .bucket index => .bucket index

/-- What `thread_monitor` passes to `hashmap_new`. -/
def addressFunctions (addressHash : BitVec 64 → BitVec 64 → BitVec 64 → BitVec 64) : HashMap.Functions (BitVec 64) where
  hash := addressHash
  compare a _ b _ := addressCompare (pointer a) (pointer b)
  elfree := false

structure HashedWindow where
  copy : Fin maxObjects → Metrics
  hashmap : HashMap.Hashmap (BitVec 64)

structure HashedSampler where
  table : Table
  window : HashedWindow

/-- `memory` goes with each sample, for the set that it may lead to. -/
inductive HashedAction where
  | insertObject (pid : BitVec 32) (startAddr size : BitVec 64)
  | deallocateObject (pid : BitVec 32) (startAddr size : BitVec 64)
  | window (samples : List (Reading × Bool))

namespace HashedSampler

def start : Option HashedSampler := do
  let made ← HashMap.hashmapNew 0 0 0 true
  made.map fun hashmap => ⟨.start, fun _ => .zero, hashmap⟩

section
variable (addressHash : BitVec 64 → BitVec 64 → BitVec 64 → BitVec 64)

def countStore (sample : Reading) (memory : Bool) (i : Fin maxObjects) (window : HashedWindow) :
    Option HashedWindow := do
  let result ← HashMap.hashmapGet (addressFunctions addressHash) sample.sampleAddr window.hashmap
  match result with
  | none =>
    let metrics := { window.copy i with storesCount := (window.copy i).storesCount + 1 }
    let (hashmap, _) ← HashMap.hashmapSet (addressFunctions addressHash) sample.sampleAddr memory window.hashmap
    return { copy := Function.update window.copy i metrics, hashmap }
  | some _ => return window

def countSample (t : Table) (window : HashedWindow) (sample : Reading × Bool) : Option HashedWindow :=
  match getVectorIndex sample.1.sampleAddr t with
  | none => some window
  | some i =>
    if sample.1.opcode = 1 then
      match memLevel sample.1.dataSrc with
      | some level =>
        some { window with copy := Function.update window.copy i (countLoad sample.1 level (window.copy i)) }
      | none => some window
    else if sample.1.opcode = 2 then countStore addressHash sample.1 sample.2 i window
    else some window

def step (p : Platform) (s : HashedSampler) : HashedAction → Option HashedSampler
  | .insertObject pid startAddr size => do
    let table ← (Recorder.insertObject p pid startAddr size s.table).toOption
    return { s with table }
  | .deallocateObject pid startAddr size =>
    return { s with table := Recorder.deallocateObject pid startAddr size s.table }
  | .window samples => do
    let cleared := { s.window with copy := fun _ => .zero }
    let window ← samples.foldlM (countSample addressHash s.table) cleared
    return { table := updateMetrics window.copy s.table, window }

def run (p : Platform) (s : HashedSampler) (actions : List HashedAction) : Option HashedSampler :=
  actions.foldlM (step addressHash p) s

end
end HashedSampler
end OnlineScheduler.Monitor
