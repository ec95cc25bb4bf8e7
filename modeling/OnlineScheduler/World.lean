import OnlineScheduler.Loop
import OnlineScheduler.Preload

/-! The scheduler and the preloaded library together. Orders reach the mbind
thread through `migration.pipe`; its refusals go to `migration_error.pipe`,
which the scheduler opens for reading. -/

namespace OnlineScheduler

def Event.order? : Event → Option DataBind
  | .order data => some data
  | .undone _ => none

/-- `begun` is the number of refusals written when the current pass of the loop
began, and `reported` how much the scheduler had emitted at each of them. -/
structure World where
  loop : Loop
  preload : Preload.State
  begun : Nat
  reported : List Nat

inductive Stop where
  | fault (fault : Fault)
  | blocked

/-- A step of the scheduler's threads, a pass of the mbind thread up to the
answer of `mbind`, or its write of a refusal. -/
inductive WorldAction where
  | scheduler (action : LoopAction)
  | iterate (outcome : Preload.ReadOutcome) (bound : Bool)
  | report

namespace World

def start (statusMemoryPages : Nat → ℚ) : World := ⟨.start statusMemoryPages, .start, 0, []⟩

/-- The orders emitted between two tables are written to `migration.pipe`. -/
def deliver (before after : Table) (preload : Preload.State) : Preload.State :=
  { preload with
    migration := ((after.trace.drop before.trace.length).filterMap Event.order?).foldl Fifo.put preload.migration }

def ofPreload (w : World) : Except Preload.Blocked Preload.State → Except Stop World
  | .ok preload => .ok { w with preload }
  | .error _ => .error .blocked

def step (p : Platform) (capacity : Nat) (w : World) : WorldAction → Except Stop World
  | .scheduler action =>
    match w.loop.step p action with
    | .ok loop =>
      let begins := loop.pc = .sortObjects ∧ w.loop.pc ≠ .sortObjects
      .ok { w with
        loop
        preload := deliver w.loop.system.table loop.system.table w.preload
        begun := if begins then w.preload.migrationError.written.length else w.begun }
    | .error fault => .error (.fault fault)
  | .iterate outcome bound => w.ofPreload (w.preload.step capacity (.iterate outcome bound))
  | .report =>
    let reported := w.reported ++ [w.loop.system.table.trace.length]
    ofPreload { w with reported } (w.preload.step capacity .report)

def run (p : Platform) (capacity : Nat) (w : World) (actions : List WorldAction) : Except Stop World :=
  actions.foldlM (step p capacity) w

end World
end OnlineScheduler
