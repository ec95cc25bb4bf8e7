import OnlineScheduler.Actuator
import OnlineScheduler.General.Fifo

/-! The library preloaded into the application: it reads the orders from
`migration.pipe` and binds the memory of its own process. -/

namespace OnlineScheduler.Preload

/-- `query_status_memory_pages`: the body of the actuator's copy, on counters
that the caller passes. -/
def queryStatusMemoryPages (p : Platform) (pages : BitVec 64 → Int) (addr size : BitVec 64)
    (statusMemoryPages : Nat → ℚ) : Nat → ℚ :=
  Actuator.queryStatusMemoryPages p pages addr size statusMemoryPages

/-- The loop of `thread_manager_mbind` in front of each query. -/
def clearStatus (p : Platform) (statusMemoryPages : Nat → ℚ) : Nat → ℚ :=
  fun i => if i < p.numNodes + 1 then 0 else statusMemoryPages i

def guard (ret : Int) : Int := if ret = -1 then -1 else ret

def sizeOfDataBind : Int := 40

/-- How `read` ends. When it stores nothing, `buf` holds whatever it held. -/
inductive ReadOutcome where
  | record
  | endOfFile (buf : DataBind)
  | error (buf : DataBind)
deriving DecidableEq

/-- The two pipes and the mbind thread. `executed` lists the records passed to
`execute_mbind`; `refused` is the record it has still to write to
`migration_error.pipe`. -/
structure State where
  migration : Fifo DataBind
  executed : List DataBind
  refused : Option DataBind
  migrationError : Fifo DataBind

inductive Blocked where
  | blocked

/-- `write` is a whole record written by the recorder or the actuator, `iterate`
a pass of the thread's loop up to the answer of `mbind`, and `report` the write
that follows a refusal. -/
inductive Action where
  | write (data : DataBind)
  | iterate (outcome : ReadOutcome) (bound : Bool)
  | report

namespace State

def start : State := ⟨.empty, [], none, .empty⟩

def read (s : State) : ReadOutcome → Except Blocked (Int × DataBind × State)
  | .record =>
    match s.migration.take with
    | some (data, migration) => .ok (sizeOfDataBind, data, { s with migration })
    | none => .error .blocked
  | .endOfFile buf => if s.migration.queued = [] then .ok (0, buf, s) else .error .blocked
  | .error buf => .ok (-1, buf, s)

/-- `execute_mbind` up to its write to `migration_error.pipe`. -/
def executeMbind (data : DataBind) (bound : Bool) (s : State) : State :=
  { s with
    executed := s.executed ++ [data]
    refused := if bound then none else some data }

/-- A write to `migration_error.pipe` waits until there is room for its record. -/
def step (capacity : Nat) (s : State) : Action → Except Blocked State
  | .write data => .ok { s with migration := s.migration.put data }
  | .iterate outcome bound =>
    if s.refused.isSome then .error .blocked
    else do
      let (ret, buf, s) ← s.read outcome
      let numRead := guard ret
      return if numRead = 0 then s else s.executeMbind buf bound
  | .report =>
    match s.refused with
    | some data =>
      if s.migrationError.queued.length < capacity then
        .ok { s with refused := none, migrationError := s.migrationError.put data }
      else .error .blocked
    | none => .error .blocked

def run (capacity : Nat) (s : State) (actions : List Action) : Except Blocked State :=
  actions.foldlM (step capacity) s

end State

/-- A line of `preload_migration_cost.txt`, without the times. -/
structure Cost where
  record : DataBind
  before : List ℚ
  after : List ℚ

/-- The two vectors that `thread_manager_mbind` allocates, with the lines of the
file. -/
structure Costs where
  statusMemoryPagesBefore : Nat → ℚ
  statusMemoryPagesAfter : Nat → ℚ
  lines : List Cost

/-- A record that the thread handles, with what `numa_move_pages` reports before
and after it is bound. -/
structure Handled where
  record : DataBind
  pagesBefore : BitVec 64 → Int
  pagesAfter : BitVec 64 → Int

/-- What the thread does around `execute_mbind` when `DEBUG` is defined. -/
def Costs.measure (p : Platform) (costs : Costs) (handled : Handled) : Costs :=
  let { record, pagesBefore, pagesAfter } := handled
  let before := queryStatusMemoryPages p pagesBefore record.startAddr record.size
    (clearStatus p costs.statusMemoryPagesBefore)
  let after := queryStatusMemoryPages p pagesAfter record.startAddr record.size
    (clearStatus p costs.statusMemoryPagesAfter)
  let printed (statusMemoryPages : Nat → ℚ) := (List.range (p.numNodes + 1)).map statusMemoryPages
  ⟨before, after, costs.lines ++ [⟨record, printed before, printed after⟩]⟩

end OnlineScheduler.Preload
