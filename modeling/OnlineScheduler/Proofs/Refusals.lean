import OnlineScheduler.World
import OnlineScheduler.Proofs.Orders
import OnlineScheduler.Proofs.Decisions
import OnlineScheduler.Proofs.Listing

/-! What becomes of the refusals that the mbind thread reports. The loop of the
actuator does not call `check_migration_error`, so none is ever read. -/

namespace OnlineScheduler

variable {p : Platform} {capacity : Nat} {w w' : World} {action : WorldAction} {actions : List WorldAction}

/-- What the scheduler owes the refusals written before the current pass, by its
end: each is read, and its decision forgotten where the object still lives
and nothing newer was ordered. -/
structure World.Settled (w : World) : Prop where
  consumed : w.begun ≤ w.preload.migrationError.taken.length
  undone : ∀ (k : Nat) (data : DataBind) (emitted : Nat), k < w.begun →
    w.preload.migrationError.written[k]? = some data → w.reported[k]? = some emitted →
    ∀ slot : Fin maxObjects, data.objIndex = slot.val → w.loop.system.table.objAlloc slot = 1 →
      data.type.decision ≠ some (w.loop.system.table.objVector slot).lastDecision ∨
        ∃ later, .order later ∈ w.loop.system.table.trace.drop emitted ∧ later.objIndex = data.objIndex

structure World.Unread (capacity : Nat) (w : World) : Prop where
  taken : w.preload.migrationError.taken = []
  fits : w.preload.migrationError.queued.length ≤ capacity

namespace Preload

variable {s s' : State}

theorem step_iterate {outcome : ReadOutcome} {bound : Bool} (ok : s.step capacity (.iterate outcome bound) = .ok s') :
    s.refused = none ∧ s'.migrationError = s.migrationError := by
  rw [State.step] at ok
  split at ok
  next => cases ok
  next idle =>
    refine ⟨Option.not_isSome_iff_eq_none.mp idle, ?_⟩
    obtain ⟨⟨ret, buf, middle⟩, answered, done⟩ := Runs.bind_ok.mp ok
    have same : middle.migrationError = s.migrationError := by
      cases outcome with
      | record =>
        simp only [State.read] at answered
        split at answered
        next => cases answered; rfl
        next => cases answered
      | endOfFile =>
        simp only [State.read] at answered
        split at answered
        next => cases answered; rfl
        next => cases answered
      | error => cases answered; rfl
    cases done
    split
    next => exact same
    next => exact same

theorem step_report (ok : s.step capacity .report = .ok s') :
    s.migrationError.queued.length < capacity ∧ ∃ data, s.refused = some data ∧
      s'.migrationError = s.migrationError.put data := by
  simp only [State.step] at ok
  split at ok
  next data waiting =>
    split at ok
    next room =>
      cases ok
      exact ⟨room, data, waiting, rfl⟩
    next => cases ok
  next => cases ok

end Preload

namespace World

theorem ofPreload_ok {computed : Except Preload.Blocked Preload.State} (ok : w.ofPreload computed = .ok w') :
    ∃ preload, computed = .ok preload ∧ w' = { w with preload } := by
  cases computed with
  | error => cases ok
  | ok preload => cases ok; exact ⟨preload, rfl, rfl⟩

theorem step_unread (ok : w.step p capacity action = .ok w') (unread : w.Unread capacity) : w'.Unread capacity := by
  cases action with
  | scheduler action =>
    simp only [World.step] at ok
    split at ok
    next => cases ok; exact ⟨unread.taken, unread.fits⟩
    next => cases ok
  | iterate outcome bound =>
    obtain ⟨preload, stepped, rfl⟩ := ofPreload_ok ok
    have same := (Preload.step_iterate stepped).2
    exact ⟨same ▸ unread.taken, same ▸ unread.fits⟩
  | report =>
    obtain ⟨preload, stepped, rfl⟩ := ofPreload_ok ok
    obtain ⟨room, data, _, put⟩ := Preload.step_report stepped
    refine ⟨put ▸ unread.taken, ?_⟩
    rw [put, Fifo.put, List.length_append]
    exact room

theorem run_unread {statusMemoryPages : Nat → ℚ} (ok : (start statusMemoryPages).run p capacity actions = .ok w) :
    w.Unread capacity :=
  Runs.invariant (fun w => w.Unread capacity) (fun _ _ _ _ => step_unread) ok ⟨rfl, Nat.zero_le _⟩

/-- The refusals written before a pass are settled exactly when there were
none, at the end of the pass and at every other time. -/
theorem refusals_settled {statusMemoryPages : Nat → ℚ}
    (ok : (start statusMemoryPages).run p capacity actions = .ok w) : w.Settled ↔ w.begun = 0 := by
  have unread := run_unread ok
  constructor
  · intro settled
    have consumed := settled.consumed
    rw [unread.taken] at consumed
    exact Nat.le_zero.mp consumed
  · intro none
    constructor
    case consumed => rw [none]; exact Nat.zero_le _
    case undone =>
      intro k data emitted before
      rw [none] at before
      exact absurd before (Nat.not_lt_zero k)

/-- A page on PMEM is counted hot and ordered into DRAM in the first pass. -/
def promotedPage : List WorldAction :=
  [.scheduler (.other (.insertObject 7 4096 4096)), .iterate .record true,
    .scheduler (.other (.updateMetrics fun _ => ⟨fun _ => 1000, fun _ => 10, 10, fun _ => 0, fun _ => 10⟩)),
    .scheduler (.advance (.source machine 0 .plain fun _ => 2) 1)] ++
    List.replicate 5 (.scheduler (.advance (.source machine 0 .plain fun _ => 2) 5))

theorem refusals_settled_promoted : ∃ w,
    (start fun _ => 0).run machine 1638 promotedPage = .ok w ∧ w.loop.pc = .sleeping ∧ w.Settled := by
  have passed : Runs.ends (fun w => w.loop.pc = .sleeping ∧ w.begun = 0)
      ((start fun _ => 0).run machine 1638 promotedPage) = true := by decide +kernel
  obtain ⟨w, executed, ended⟩ := Runs.ends_ok passed
  obtain ⟨sleeping, none⟩ := of_decide_eq_true ended
  exact ⟨w, executed, sleeping, (refusals_settled executed).mpr none⟩

/-- The order is refused. A whole pass later the record is unread, and the page
is still taken for one in DRAM. -/
def refusedPage : List WorldAction :=
  promotedPage ++ [.iterate .record false, .report] ++
    List.replicate 6 (.scheduler (.advance (.source machine 0 .plain fun _ => 2) 5))

def refusedRecord : DataBind := ⟨4096, 4096, 1, 0, .promotion, 2⟩

theorem refusals_settled_refused : ∃ w,
    (start fun _ => 0).run machine 1638 refusedPage = .ok w ∧ w.loop.pc = .sleeping ∧
    w.preload.migrationError.written = [refusedRecord] ∧ w.preload.migrationError.taken = [] ∧ w.begun = 1 ∧
    (w.loop.system.table.objVector 0).lastDecision = 0 ∧ ¬ w.Settled := by
  have passed : Runs.ends (fun w => w.loop.pc = .sleeping ∧
      w.preload.migrationError.written = [refusedRecord] ∧ w.preload.migrationError.taken = [] ∧ w.begun = 1 ∧
      (w.loop.system.table.objVector 0).lastDecision = 0 ∧ w.reported = [2] ∧
      w.loop.system.table.objAlloc 0 = 1 ∧ w.loop.system.table.trace.drop 2 = [])
      ((start fun _ => 0).run machine 1638 refusedPage) = true := by decide +kernel
  obtain ⟨w, executed, ended⟩ := Runs.ends_ok passed
  obtain ⟨sleeping, written, taken, begun, decision, reported, live, quiet⟩ := of_decide_eq_true ended
  refine ⟨w, executed, sleeping, written, taken, begun, decision, fun settled => ?_⟩
  have undone := settled.undone 0 refusedRecord 2 (by rw [begun]; decide) (by rw [written]; rfl)
    (by rw [reported]; rfl) 0 rfl live
  rw [decision, quiet] at undone
  rcases undone with forgotten | ⟨later, member, _⟩
  · exact forgotten rfl
  · cases member

structure Stuck (capacity : Nat) (w : World) : Prop where
  refused : w.preload.refused.isSome
  full : capacity ≤ w.preload.migrationError.queued.length

theorem step_stuck (ok : w.step p capacity action = .ok w') (stuck : w.Stuck capacity) :
    w'.Stuck capacity ∧ w'.preload.executed = w.preload.executed := by
  cases action with
  | scheduler action =>
    simp only [World.step] at ok
    split at ok
    next => cases ok; exact ⟨⟨stuck.refused, stuck.full⟩, rfl⟩
    next => cases ok
  | iterate outcome bound =>
    obtain ⟨preload, stepped, rfl⟩ := ofPreload_ok ok
    have idle := (Preload.step_iterate stepped).1
    exact absurd stuck.refused (Option.not_isSome_iff_eq_none.mpr idle)
  | report =>
    obtain ⟨preload, stepped, rfl⟩ := ofPreload_ok ok
    obtain ⟨room, _⟩ := Preload.step_report stepped
    exact absurd room (Nat.not_lt.mpr stuck.full)

/-- Behind a full pipe the mbind thread binds nothing for the rest of the run. -/
theorem run_stuck (ok : w.run p capacity actions = .ok w') (stuck : w.Stuck capacity) :
    w'.preload.executed = w.preload.executed := by
  refine (Runs.related (fun w w' => w.Stuck capacity → w'.Stuck capacity ∧ w'.preload.executed = w.preload.executed)
    (fun _ stuck => ⟨stuck, rfl⟩) ?_ (fun _ _ _ _ => step_stuck) ok stuck).2
  intro first middle last before after stuck
  obtain ⟨still, same⟩ := before stuck
  obtain ⟨end', same'⟩ := after still
  exact ⟨end', same'.trans same⟩

end World
end OnlineScheduler
