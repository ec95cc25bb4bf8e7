import OnlineScheduler.General.Runs
import Mathlib.Data.List.Induction

/-! Registers kept in a log. Events decide the values of keys and the last
decision stands. A guarded event is appended only where it changes the value,
so two like it have a different decision between them. -/

namespace Register

variable {ε κ ν : Type*} (decides : κ → ε → Option ν) (start : ν) (guarded : ε → Prop)

def value (log : List ε) (key : κ) : ν := log.foldl (fun current event => (decides key event).getD current) start

inductive Fresh : List ε → Prop where
  | nil : Fresh []
  | snoc {log : List ε} (event : ε) (fresh : Fresh log)
      (changes : guarded event → ∀ key new, decides key event = some new → value decides start log key ≠ new) :
      Fresh (log ++ [event])

variable {decides start guarded}

@[simp] theorem value_snoc (log : List ε) (event : ε) (key : κ) :
    value decides start (log ++ [event]) key = (decides key event).getD (value decides start log key) := by
  simp only [value, List.foldl_append, List.foldl_cons, List.foldl_nil]

theorem value_changed {log between : List ε} {key : κ}
    (changed : value decides start (log ++ between) key ≠ value decides start log key) :
    ∃ event ∈ between, ∃ new, decides key event = some new ∧ new ≠ value decides start log key := by
  induction between using List.reverseRecOn with
  | nil => exact absurd (congrArg (value decides start · key) (List.append_nil log)) changed
  | append_singleton between event ih =>
    rw [← List.append_assoc, value_snoc] at changed
    cases decided : decides key event with
    | none =>
      rw [decided] at changed
      obtain ⟨earlier, member, found⟩ := ih changed
      exact ⟨earlier, List.mem_append_left _ member, found⟩
    | some new =>
      rw [decided] at changed
      exact ⟨event, List.mem_append_right _ List.mem_cons_self, new, decided, changed⟩

theorem Fresh.changes {log : List ε} (fresh : Fresh decides start guarded log) {first rest : List ε} {event : ε}
    (split : log = first ++ event :: rest) (guard : guarded event) {key : κ} {new : ν}
    (decided : decides key event = some new) : value decides start first key ≠ new := by
  induction fresh generalizing rest with
  | nil => simp at split
  | snoc last _ changes ih =>
    rcases Runs.snoc_split.mp split with ⟨_, rfl, rfl⟩ | ⟨earlier, _, before⟩
    · exact changes guard key new decided
    · exact ih before

theorem Fresh.between {log : List ε} (fresh : Fresh decides start guarded log) {first between rest : List ε}
    {event event' : ε} (split : log = first ++ event :: between ++ event' :: rest) (guard : guarded event')
    {key : κ} {new : ν} (decided : decides key event = some new) (again : decides key event' = some new) :
    ∃ other ∈ between, ∃ different, decides key other = some different ∧ different ≠ new := by
  have before := fresh.changes split guard again
  have after : value decides start (first ++ [event]) key = new := by rw [value_snoc, decided, Option.getD_some]
  rw [List.append_cons, ← after] at before
  obtain ⟨other, member, different, found, apart⟩ := value_changed before
  exact ⟨other, member, different, found, by rwa [after] at apart⟩

end Register
