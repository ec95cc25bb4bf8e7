import OnlineScheduler.Preload
import OnlineScheduler.General.Runs

/-! Which records the mbind thread executes. Its loop tells a full record from
the end of the file, but takes a failed read for a record. -/

namespace OnlineScheduler.Preload

variable {capacity : Nat} {s s' : State} {action : Action} {actions : List Action}

def Action.FailedRead : Action → Prop
  | .iterate (.error _) _ => True
  | _ => False

instance : DecidablePred Action.FailedRead
  | .iterate (.error _) _ => .isTrue trivial
  | .iterate .record _ | .iterate (.endOfFile _) _ | .write _ | .report => .isFalse id

def Action.written : Action → List DataBind
  | .write data => [data]
  | _ => []

def written (actions : List Action) : List DataBind := (actions.map Action.written).flatten

/-- Everything a step can do to the records. -/
inductive Handles (s s' : State) : Action → Prop where
  | write (data : DataBind) (executed : s'.executed = s.executed) (put : s'.migration = s.migration.put data) :
      Handles s s' (.write data)
  | record (data : DataBind) (bound : Bool) (executed : s'.executed = s.executed ++ [data])
      (took : s.migration.take = some (data, s'.migration)) : Handles s s' (.iterate .record bound)
  | endOfFile (buf : DataBind) (bound : Bool) (executed : s'.executed = s.executed)
      (same : s'.migration = s.migration) : Handles s s' (.iterate (.endOfFile buf) bound)
  | error (buf : DataBind) (bound : Bool) (executed : s'.executed = s.executed ++ [buf])
      (same : s'.migration = s.migration) : Handles s s' (.iterate (.error buf) bound)
  | report (executed : s'.executed = s.executed) (same : s'.migration = s.migration) : Handles s s' .report

private theorem iterate_handles {outcome : ReadOutcome} {bound : Bool}
    (ok : s.step capacity (.iterate outcome bound) = .ok s') : Handles s s' (.iterate outcome bound) := by
  rw [State.step] at ok
  split at ok
  next => cases ok
  obtain ⟨⟨ret, buf, after⟩, answered, ok⟩ := Runs.bind_ok.mp ok
  cases outcome with
  | record =>
    simp only [State.read] at answered
    split at answered
    next data migration took =>
      cases answered
      cases ok
      exact .record _ bound rfl took
    next => cases answered
  | endOfFile =>
    simp only [State.read] at answered
    split at answered
    next => cases answered; cases ok; exact .endOfFile _ bound rfl rfl
    next => cases answered
  | error =>
    cases answered
    cases ok
    exact .error _ bound rfl rfl

theorem step_handles (ok : s.step capacity action = .ok s') : Handles s s' action := by
  cases action with
  | write data => cases ok; exact .write data rfl rfl
  | iterate outcome bound => exact iterate_handles ok
  | report =>
    simp only [State.step] at ok
    split at ok
    next data waiting =>
      split at ok
      next => cases ok; exact .report rfl rfl
      next => cases ok
    next => cases ok

theorem Handles.written (handles : Handles s s' action) :
    s'.migration.written = s.migration.written ++ action.written := by
  cases handles with
  | write data _ put => rw [put, Fifo.written_put]; rfl
  | record data bound _ took => rw [Fifo.take_written took]; exact (List.append_nil _).symm
  | endOfFile _ _ _ same => rw [same]; exact (List.append_nil _).symm
  | error _ _ _ same => rw [same]; exact (List.append_nil _).symm
  | report _ same => rw [same]; exact (List.append_nil _).symm

theorem Handles.delivered (handles : Handles s s' action) (sound : ¬ action.FailedRead)
    (same : s.executed = s.migration.taken) : s'.executed = s'.migration.taken := by
  cases handles with
  | write data executed put => rw [executed, put, same]; rfl
  | record data bound executed took => rw [executed, (Fifo.take_some took).1, same]
  | endOfFile _ _ executed kept => rw [executed, kept, same]
  | error => exact absurd trivial sound
  | report executed kept => rw [executed, kept, same]

/-- Each failed read adds one record that nobody wrote. -/
theorem Handles.surplus (handles : Handles s s' action) (covered : s.migration.taken.length ≤ s.executed.length) :
    s'.migration.taken.length ≤ s'.executed.length ∧
      s'.executed.length - s'.migration.taken.length =
        s.executed.length - s.migration.taken.length + if action.FailedRead then 1 else 0 := by
  cases handles with
  | write data executed put =>
    rw [executed, put]
    exact ⟨covered, rfl⟩
  | record data bound executed took =>
    rw [executed, (Fifo.take_some took).1, List.length_append, List.length_append, List.length_singleton,
      Nat.add_sub_add_right]
    exact ⟨Nat.succ_le_succ covered, rfl⟩
  | endOfFile _ _ executed kept =>
    rw [executed, kept]
    exact ⟨covered, rfl⟩
  | error _ _ executed kept =>
    rw [executed, kept, List.length_append, List.length_singleton, Nat.sub_add_comm covered]
    exact ⟨Nat.le_succ_of_le covered, rfl⟩
  | report executed kept =>
    rw [executed, kept]
    exact ⟨covered, rfl⟩

theorem run_written (ok : s.run capacity actions = .ok s') :
    s'.migration.written = s.migration.written ++ written actions := by
  induction actions generalizing s with
  | nil => cases ok; exact (List.append_nil _).symm
  | cons action rest ih =>
    obtain ⟨middle, first, remaining⟩ := Runs.cons_ok.mp ok
    rw [ih remaining, (step_handles first).written, List.append_assoc]
    rfl

/-- The records executed are those read, which are the first of those written,
exactly when no read failed. -/
theorem orders_executed (ok : State.start.run capacity actions = .ok s) :
    (s.executed = s.migration.taken ∧ s.executed <+: written actions ↔ ∀ action ∈ actions, ¬ action.FailedRead) ∧
      s.migration.taken <+: written actions := by
  have first : s.migration.taken <+: written actions := by
    have all := run_written ok
    rw [← List.nil_append (written actions)]
    exact all ▸ s.migration.taken_first
  obtain ⟨_, surplus⟩ := Runs.counted (fun s => s.migration.taken.length ≤ s.executed.length)
    (fun s => s.executed.length - s.migration.taken.length) (fun action => if action.FailedRead then 1 else 0)
    (fun _ _ _ stepped => (step_handles stepped).surplus) ok (Nat.le_refl _)
  refine ⟨⟨?_, fun sound => ?_⟩, first⟩
  · rintro ⟨same, _⟩ action member failed
    rw [same, Nat.sub_self] at surplus
    have none : ((actions.map fun action => if action.FailedRead then 1 else 0) : List Nat).sum = 0 := by
      simpa [State.start] using surplus.symm
    have counted := List.sum_eq_zero_iff_forall_eq_nat.mp none _ (List.mem_map_of_mem member)
    simp [failed] at counted
  · have same := Runs.invariant (fun s => s.executed = s.migration.taken)
      (fun action member _ _ stepped => (step_handles stepped).delivered (sound action member)) ok rfl
    exact ⟨same, same ▸ first⟩

/-- The order for one page, and a read that fails afterwards with the record
still in `buf`. -/
def page : DataBind := ⟨4096, 4096, 1, 0, .initialDataplacement, 1⟩

theorem orders_executed_twice : ∃ s,
    State.start.run 1638 [.write page, .iterate .record true, .iterate (.error page) true] = .ok s ∧
    s.migration.taken = [page] ∧ s.executed = [page, page] ∧ ¬ s.executed = s.migration.taken :=
  ⟨_, rfl, rfl, rfl, by decide⟩

theorem orders_executed_page : ∃ s,
    State.start.run 1638 [.write page, .iterate .record false, .report, .iterate (.endOfFile page) true] = .ok s ∧
    s.executed = s.migration.taken ∧ s.executed <+: [page] := by
  have executed : State.start.run 1638
    [.write page, .iterate .record false, .report, .iterate (.endOfFile page) true] = .ok _ := rfl
  exact ⟨_, executed, (orders_executed executed).1.mpr (by decide)⟩

end OnlineScheduler.Preload
