import OnlineScheduler.Proofs.StatusBounds
import OnlineScheduler.Proofs.Listing

/-! How a run of the scheduler can end before its time: at a call of
`_insert_object` when all slots have been used, at an index of the actuator that
is no slot, or at a fifth page status. -/

namespace OnlineScheduler

open Recorder

variable {p : Platform} {t : Table}

namespace Actuator

instance (t : Table) (objIndex : Int) : Decidable (Readable t objIndex) :=
  inferInstanceAs (Decidable (_ ∨ _))

def OutsideTable (record : DataBind) : Prop := ¬ (0 ≤ record.objIndex ∧ record.objIndex < maxObjects)

instance : DecidablePred OutsideTable := fun _ => inferInstanceAs (Decidable (¬ _))

theorem slotAt_failure (i : Int) :
    Runs.failure (slotAt i) = if 0 ≤ i ∧ i < maxObjects then none else some (.outOfBounds i) := by
  unfold slotAt
  split
  next inside => rw [if_pos (by omega)]; rfl
  next outside => rw [if_neg (by omega)]; rfl

end Actuator

/-- The fault that an operation ends with on a table, if it does. -/
def Action.failure (p : Platform) (t : Table) : Action → Option Fault
  | .insertObject _ startAddr size =>
    if t.totalObj + (chunks startAddr size).length ≤ maxObjects then none else some (.outOfBounds maxObjects)
  | .sortObjects objIndex _ => if Actuator.Readable t objIndex then none else some (.outOfBounds objIndex)
  | .readAllocationStatus _ => if p.numNodes ≤ 3 ∨ ∀ i, t.objAlloc i ≠ 1 then none else some (.outOfBounds 4)
  | .checkMigrationError records => (records.find? (Actuator.OutsideTable ·)).map (.outOfBounds ·.objIndex)
  | _ => none

theorem Recorder.insertObjectSlot_failure {pid : BitVec 32} {startAddr size : BitVec 64} {sliced : Int} (valid : t.Valid)
    {fault : Fault} (failed : insertObjectSlot p pid startAddr size sliced t = .error fault) :
    fault = .outOfBounds maxObjects ∧ t.totalObj = maxObjects := by
  rcases Nat.lt_or_ge t.totalObj maxObjects with room | full
  · have stored : insertObjectSlot p pid startAddr size sliced t = .ok _ :=
      insertObjectSlot_ok.mpr ⟨_, (valid.search room).2, rfl⟩
    cases stored.symm.trans failed
  · have past : maxObjects ≤ t.index := by rw [valid.cursor]; exact full
    have ended := Nat.le_antisymm valid.bounded full
    rw [insertObjectSlot, searchSlot_past _ past, valid.cursor, ended] at failed
    cases failed
    exact ⟨rfl, ended⟩

theorem Recorder.insertObject_failure (pid : BitVec 32) (startAddr size : BitVec 64) (valid : t.Valid) :
    Runs.failure (insertObject p pid startAddr size t) =
      if t.totalObj + (chunks startAddr size).length ≤ maxObjects then none else some (.outOfBounds maxObjects) := by
  split
  next room => exact Runs.failure_none.mpr (insertObject_room p pid valid room)
  next full =>
    rw [Runs.failure_some]
    cases inserted : insertObject p pid startAddr size t with
    | ok t' =>
      have done := insertObject_inserted valid inserted
      have bound := done.valid.bounded
      rw [done.total] at bound
      exact absurd bound full
    | error fault =>
      rw [insertObject, splitObject_eq] at inserted
      obtain ⟨first, piece, _, middle, _, stored, failed⟩ := Runs.error_split.mp inserted
      have middleValid : middle.Valid := by
        refine Runs.invariant Table.Valid ?_ stored valid
        intro piece _ before after put holds
        exact ((insertObjectSlot_store put).valid holds).1
      rw [(insertObjectSlot_failure middleValid failed).1]

namespace Actuator

theorem sortObjects_failure (objIndex : Int) (q : Qsort) (t : Table) (globals : Globals) :
    Runs.failure (sortObjects p objIndex q t globals) =
      if Readable t objIndex then none else some (.outOfBounds objIndex) := by
  split
  next readable =>
    obtain ⟨built, ok⟩ := buildList_defined readable globals.listing
    obtain ⟨sorted, done, _⟩ := sortObjects_defined (p := p) q ok
    exact Runs.failure_none.mpr ⟨sorted, done⟩
  next unreadable =>
    rw [Runs.failure_some, sortObjects]
    cases built : buildList t objIndex globals.listing with
    | ok listing => exact absurd (buildList_readable built) unreadable
    | error fault =>
      obtain ⟨_, i, _, listing, _, _, failed⟩ := Runs.error_split.mp built
      cases read : slotAt objIndex with
      | ok slot => rw [read] at failed; cases failed
      | error other =>
        rw [read] at failed
        cases failed
        have outside := slotAt_failure objIndex
        rw [read, Runs.failure] at outside
        split at outside
        next => cases outside
        next => rw [Option.some.inj outside]; rfl

theorem readAllocationStatus_failure (pages : BitVec 64 → Int) (counters : Nat → ℚ) (valid : t.Valid) :
    Runs.failure (readAllocationStatus p pages t counters) =
      if p.numNodes ≤ 3 ∨ ∀ i, t.objAlloc i ≠ 1 then none else some (.outOfBounds 4) := by
  split
  next inside =>
    rw [Runs.failure_none]
    rcases inside with fits | free
    · exact ⟨_, readAllocationStatus_fits t counters fits⟩
    · rw [readAllocationStatus_visits]
      exact ⟨_, unread fun i _ => free i⟩
  next outside =>
    rw [not_or] at outside
    obtain ⟨exceeds, live⟩ := outside
    push Not at exceeds live
    obtain ⟨i, live⟩ := live
    rw [Runs.failure_some, readAllocationStatus_visits]
    cases visited : (scan t.totalObj).foldlM (visitObject p pages) (t, counters) with
    | ok result =>
      have member : i ∈ scan t.totalObj := mem_scan.mpr (valid.live_below live)
      obtain ⟨s, s', same, stepped⟩ := Runs.visited (fun s => s.1.objAlloc = t.objAlloc)
        (fun _ _ _ stepped before => (visitObject_alloc stepped).trans before) visited rfl member
      exact absurd (same ▸ live) (visitObject_free exceeds stepped)
    | error fault =>
      obtain ⟨_, slot, _, s, _, _, failed⟩ := Runs.error_split.mp visited
      unfold visitObject at failed
      split at failed
      next =>
        dsimp only at failed
        rw [copyStatus_exceeds _ _ exceeds] at failed
        cases failed
        rfl
      next => cases failed

theorem checkMigrationError_failure (records : List DataBind) (t : Table) :
    Runs.failure (checkMigrationError records t) = (records.find? (OutsideTable ·)).map (.outOfBounds ·.objIndex) := by
  rw [checkMigrationError]
  induction records generalizing t with
  | nil => rfl
  | cons record rest ih =>
    have read := slotAt_failure record.objIndex
    rw [List.foldlM_cons, undoDecision]
    cases found : slotAt record.objIndex with
    | ok slot =>
      rw [found, Runs.failure] at read
      split at read
      next inside =>
        rw [List.find?_cons_of_neg (by simpa [OutsideTable] using inside)]
        exact ih _
      next => cases read
    | error fault =>
      rw [found, Runs.failure] at read
      split at read
      next => cases read
      next outside =>
        have first : decide (OutsideTable record) = true := decide_eq_true outside
        simp only [List.find?_cons, first]
        exact read

end Actuator

namespace State

theorem step_failure {s : State} (valid : s.table.Valid) (action : Action) :
    Runs.failure (s.step p action) = action.failure p s.table := by
  cases action with
  | insertObject pid startAddr size => exact (Runs.failure_map _ _).trans (insertObject_failure pid startAddr size valid)
  | sortObjects objIndex q => exact (Runs.failure_map _ _).trans (Actuator.sortObjects_failure objIndex q s.table s.globals)
  | readAllocationStatus pages =>
    exact (Runs.failure_map _ _).trans (Actuator.readAllocationStatus_failure pages s.globals.statusMemoryPages valid)
  | checkMigrationError records => exact (Runs.failure_map _ _).trans (Actuator.checkMigrationError_failure records s.table)
  | _ => rfl

private theorem failure_outOfBounds {action : Action} {fault : Fault} (failed : action.failure p t = some fault) :
    ∃ index, fault = .outOfBounds index := by
  cases action with
  | insertObject =>
    simp only [Action.failure] at failed
    split at failed
    next => cases failed
    next => cases failed; exact ⟨_, rfl⟩
  | sortObjects =>
    simp only [Action.failure] at failed
    split at failed
    next => cases failed
    next => cases failed; exact ⟨_, rfl⟩
  | readAllocationStatus =>
    simp only [Action.failure] at failed
    split at failed
    next => cases failed
    next => cases failed; exact ⟨_, rfl⟩
  | checkMigrationError =>
    obtain ⟨record, _, rfl⟩ := Option.map_eq_some_iff.mp failed
    exact ⟨_, rfl⟩
  | _ => cases failed

/-- A run in which no `popen` and no `malloc` fails ends with a fault exactly at
the first of its operations that has one, and every fault is an access outside
an array: the `exit` of `_insert_object` is never reached. -/
theorem run_faults {statusMemoryPages : Nat → ℚ} {actions : List Action} {fault : Fault} :
    ((start statusMemoryPages).run p actions = .error fault ↔ ∃ first action rest s,
      actions = first ++ action :: rest ∧ (start statusMemoryPages).run p first = .ok s ∧
      action.failure p s.table = some fault) ∧
    ((start statusMemoryPages).run p actions = .error fault → ∃ index, fault = .outOfBounds index) := by
  have ends : (start statusMemoryPages).run p actions = .error fault ↔ ∃ first action rest s,
      actions = first ++ action :: rest ∧ (start statusMemoryPages).run p first = .ok s ∧
      action.failure p s.table = some fault := by
    rw [run, Runs.error_split]
    constructor
    · rintro ⟨first, action, rest, s, split, executed, failed⟩
      refine ⟨first, action, rest, s, split, executed, ?_⟩
      rw [← step_failure (run_valid executed).1 action]
      exact Runs.failure_some.mpr failed
    · rintro ⟨first, action, rest, s, split, executed, failed⟩
      refine ⟨first, action, rest, s, split, executed, ?_⟩
      rw [← step_failure (run_valid executed).1 action] at failed
      exact Runs.failure_some.mp failed
  refine ⟨ends, fun stopped => ?_⟩
  obtain ⟨_, action, _, s, _, _, failed⟩ := ends.mp stopped
  exact failure_outOfBounds failed

end State
end OnlineScheduler
