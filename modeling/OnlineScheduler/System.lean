import OnlineScheduler.Monitor
import OnlineScheduler.Actuator

/-! Runs of the scheduler. The threads share the table without locks; a run
interleaves their operations with each operation atomic. -/

namespace OnlineScheduler

structure State where
  table : Table
  globals : Actuator.Globals

/-- One operation of one thread, with what the machine answers in it. The
policies take any ranked list; the actuator passes `Actuator.Globals.ranked`. -/
inductive Action where
  | insertObject (pid : BitVec 32) (startAddr size : BitVec 64)
  | deallocateObject (pid : BitVec 32) (startAddr size : BitVec 64)
  | updateMetrics (copy : Fin maxObjects → Metrics)
  | sortObjects (objIndex : Int) (q : Actuator.Qsort)
  | readAllocationStatus (pages : BitVec 64 → Int)
  | policyPromotion (currentFreeDram : ℚ) (ranked : List KeyValue)
  | policyDemotion (ranked : List KeyValue)
  | checkMigrationError (records : List DataBind)

/-- A concrete machine for the runs below: pages of 4 KiB, three nodes, a clock
that advances by a second at each reading, and the threshold of `run.sh`. -/
def machine : Platform := ⟨fun n => n, 4096, 3, 3 / 2⟩

namespace State

def start (statusMemoryPages : Nat → ℚ) : State := ⟨.start, .start statusMemoryPages⟩

def step (p : Platform) (s : State) : Action → Except Fault State
  | .insertObject pid startAddr size => do
    let table ← Recorder.insertObject p pid startAddr size s.table
    return { s with table }
  | .deallocateObject pid startAddr size =>
    return { s with table := Recorder.deallocateObject pid startAddr size s.table }
  | .updateMetrics copy =>
    return { s with table := Monitor.updateMetrics copy s.table }
  | .sortObjects objIndex q => do
    let globals ← Actuator.sortObjects p objIndex q s.table s.globals
    return { s with globals }
  | .readAllocationStatus pages => do
    let (table, statusMemoryPages) ←
      Actuator.readAllocationStatus p pages s.table s.globals.statusMemoryPages
    return { s with table, globals := { s.globals with statusMemoryPages } }
  | .policyPromotion currentFreeDram ranked =>
    return { s with table := Actuator.policyPromotion p currentFreeDram ranked s.table }
  | .policyDemotion ranked =>
    let (table, hasDemotion) := Actuator.policyDemotion p ranked s.table
    return { s with table, globals := { s.globals with hasDemotion } }
  | .checkMigrationError records => do
    let table ← Actuator.checkMigrationError records s.table
    return { s with table }

def run (p : Platform) (s : State) (actions : List Action) : Except Fault State :=
  actions.foldlM (step p) s

end State
end OnlineScheduler
