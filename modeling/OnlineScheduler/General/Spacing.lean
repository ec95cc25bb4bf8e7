import Mathlib.Algebra.Order.BigOperators.Group.List
import Mathlib.Data.List.Pairwise

/-! Logs in which marked entries keep their distance. A log grows at its end; a
marked entry may be added when the last entries are not marked. -/

namespace Spacing

variable {α : Type*} {marked : α → Prop} {gap : Nat} {log : List α} {entry : α}

/-- Marked entries are at least `gap` positions apart. -/
def Spaced (marked : α → Prop) (gap : Nat) (log : List α) : Prop :=
  ∀ i j (first : i < log.length) (last : j < log.length), i < j → marked log[i] → marked log[j] → i + gap ≤ j

def Quiet (marked : α → Prop) (count : Nat) (log : List α) : Prop :=
  ∀ i (inside : i < log.length), marked log[i] → i + count < log.length

theorem quiet_zero (marked : α → Prop) (log : List α) : Quiet marked 0 log := fun _ inside _ => inside

theorem Quiet.mono {count less : Nat} (quiet : Quiet marked count log) (fewer : less ≤ count) :
    Quiet marked less log := by
  intro i inside mark
  have bound := quiet i inside mark
  omega

private theorem snoc_cases {i : Nat} (inside : i < (log ++ [entry]).length) :
    (∃ earlier : i < log.length, (log ++ [entry])[i] = log[i]) ∨ i = log.length ∧ (log ++ [entry])[i] = entry := by
  rw [List.length_append, List.length_singleton] at inside
  by_cases earlier : i < log.length
  · exact Or.inl ⟨earlier, List.getElem_append_left earlier⟩
  · have last : i = log.length := by omega
    subst last
    exact Or.inr ⟨rfl, List.getElem_concat_length rfl _⟩

theorem Quiet.snoc {count : Nat} (quiet : Quiet marked count log) (idle : ¬ marked entry) :
    Quiet marked (count + 1) (log ++ [entry]) := by
  intro i inside mark
  rw [List.length_append, List.length_singleton]
  rcases snoc_cases inside with ⟨earlier, same⟩ | ⟨_, same⟩
  · have bound := quiet i earlier (same ▸ mark)
    omega
  · exact absurd (same ▸ mark) idle

theorem Spaced.snoc (spaced : Spaced marked gap log) (quiet : marked entry → Quiet marked (gap - 1) log) :
    Spaced marked gap (log ++ [entry]) := by
  intro i j first last before markI markJ
  rcases snoc_cases last with ⟨inside, sameJ⟩ | ⟨final, sameJ⟩
  · rcases snoc_cases first with ⟨earlier, sameI⟩ | ⟨impossible, _⟩
    · exact spaced i j earlier inside before (sameI ▸ markI) (sameJ ▸ markJ)
    · omega
  · rcases snoc_cases first with ⟨earlier, sameI⟩ | ⟨impossible, _⟩
    · have bound := quiet (sameJ ▸ markJ) i earlier (sameI ▸ markI)
      omega
    · omega

theorem Spaced.window (spaced : Spaced marked gap log) (start : Nat) :
    ((log.drop start).take gap).Pairwise (fun first last => ¬ (marked first ∧ marked last)) := by
  rw [List.pairwise_iff_getElem]
  intro i j first last before ⟨markI, markJ⟩
  rw [List.length_take, List.length_drop] at first last
  rw [List.getElem_take, List.getElem_drop] at markI markJ
  have apart := spaced _ _ _ _ (Nat.add_lt_add_left before start) markI markJ
  omega

variable {K : Type*} [AddCommMonoid K] [PartialOrder K]

theorem total_le {cost : α → K} {most : K} (proper : 0 ≤ most) {entries : List α}
    (apart : entries.Pairwise (fun first last => ¬ (marked first ∧ marked last)))
    (bounded : ∀ entry ∈ entries, cost entry ≤ most) (free : ∀ entry, ¬ marked entry → cost entry = 0) :
    (entries.map cost).sum ≤ most := by
  classical
  induction entries with
  | nil => exact proper
  | cons entry rest ih =>
    obtain ⟨others, apart⟩ := List.pairwise_cons.mp apart
    have later := ih apart fun other member => bounded other (List.mem_cons_of_mem _ member)
    rw [List.map_cons, List.sum_cons]
    by_cases mark : marked entry
    · have nothing : (rest.map cost).sum = 0 := by
        apply List.sum_eq_zero
        intro value member
        obtain ⟨other, present, rfl⟩ := List.mem_map.mp member
        exact free other fun also => others other present ⟨mark, also⟩
      rw [nothing, add_zero]
      exact bounded entry List.mem_cons_self
    · rw [free entry mark, zero_add]
      exact later

end Spacing
