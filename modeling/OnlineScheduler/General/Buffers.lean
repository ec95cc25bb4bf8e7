import Mathlib.Data.List.Perm.Basic

/-! Items recorded in numbered buffers, each of which keeps its own in order,
and read back one buffer after the other. -/

namespace Buffers

variable {α β : Type} {count : Nat} {recorded : List (Nat × α)}

def held (recorded : List (Nat × α)) (buffer : Nat) : List α :=
  (recorded.filter (fun item => item.1 = buffer)).map Prod.snd

def drain (count : Nat) (recorded : List (Nat × α)) : List α := (List.range count).flatMap (held recorded)

def Within (count : Nat) (recorded : List (Nat × α)) : Prop := ∀ item ∈ recorded, item.1 < count

instance : Decidable (Within count recorded) := inferInstanceAs (Decidable (∀ item ∈ recorded, item.1 < count))

theorem Within.mono {bound : Nat} (within : Within count recorded) (le : count ≤ bound) : Within bound recorded :=
  fun item member => Nat.lt_of_lt_of_le (within item member) le

theorem drain_succ (count : Nat) (recorded : List (Nat × α)) :
    drain (count + 1) recorded = drain count recorded ++ held recorded count := by
  rw [drain, List.range_succ, List.flatMap_append, List.flatMap_singleton, ← drain]

theorem drain_perm (within : Within count recorded) : (drain count recorded).Perm (recorded.map Prod.snd) := by
  have below (bound : Nat) :
      (drain bound recorded).Perm ((recorded.filter (fun item => item.1 < bound)).map Prod.snd) := by
    induction bound with
    | zero => simp [drain]
    | succ bound ih =>
      have parts := List.filter_append_perm (fun item => item.1 < bound)
        (recorded.filter (fun item => item.1 < bound + 1))
      rw [List.filter_filter, List.filter_filter] at parts
      have lower : (fun item : Nat × α => decide (item.1 < bound) && decide (item.1 < bound + 1)) =
          fun item => decide (item.1 < bound) := by
        funext item
        rw [← Bool.decide_and, decide_eq_decide]
        omega
      have here : (fun item : Nat × α => !decide (item.1 < bound) && decide (item.1 < bound + 1)) =
          fun item => decide (item.1 = bound) := by
        funext item
        rw [← decide_not, ← Bool.decide_and, decide_eq_decide]
        omega
      rw [lower, here] at parts
      rw [drain_succ]
      refine (ih.append_right _).trans ?_
      rw [held, ← List.map_append]
      exact parts.map Prod.snd
  have all : recorded.filter (fun item => item.1 < count) = recorded :=
    List.filter_eq_self.mpr fun item member => decide_eq_true (within item member)
  have reordered := below count
  rwa [all] at reordered

theorem drain_one (single : count ≤ 1) (within : Within count recorded) :
    drain count recorded = recorded.map Prod.snd := by
  match count with
  | 0 =>
    have empty : recorded = [] := List.eq_nil_iff_forall_not_mem.mpr fun item member =>
      Nat.not_lt_zero item.1 (within item member)
    rw [empty]
    rfl
  | 1 =>
    have all : recorded.filter (fun item => item.1 = 0) = recorded :=
      List.filter_eq_self.mpr fun item member => decide_eq_true (Nat.lt_one_iff.mp (within item member))
    rw [drain_succ, held, all]
    rfl

theorem drain_two (many : 2 ≤ count) (within : Within 2 recorded) :
    drain count recorded = held recorded 0 ++ held recorded 1 := by
  obtain ⟨others, rfl⟩ := Nat.exists_eq_add_of_le many
  induction others with
  | zero => simp [drain, List.range_succ]
  | succ others ih =>
    have empty : held recorded (2 + others) = [] := by
      rw [held, List.map_eq_nil_iff, List.filter_eq_nil_iff]
      intro item member here
      have := within item member
      simp only [decide_eq_true_eq] at here
      omega
    rw [← Nat.add_assoc, drain_succ, empty, List.append_nil, ih (by omega)]

theorem held_map (items : List α) (side : α → Nat) (buffer : Nat) :
    held (items.map fun item => (side item, item)) buffer = items.filter (fun item => side item = buffer) := by
  simp [held, List.filter_map, Function.comp_def]

/-- Any two items can be recorded so that they are read back one after the
other, whichever came first. -/
theorem exists_adjacent (many : 2 ≤ count) {items : List α} {first second : α} (here : first ∈ items)
    (there : second ∈ items) (different : first ≠ second) :
    ∃ (recorded : List (Nat × α)) (before after : List α), Within 2 recorded ∧ recorded.map Prod.snd = items ∧
      drain count recorded = before ++ first :: second :: after := by
  obtain ⟨before, after, rfl⟩ := List.mem_iff_append.mp here
  rcases List.mem_append.mp there with earlier | later
  · obtain ⟨before, between, rfl⟩ := List.mem_iff_append.mp earlier
    let recorded := before.map (0, ·) ++ (1, second) :: between.map (1, ·) ++ (0, first) :: after.map (1, ·)
    have within : Within 2 recorded := by
      simp only [Within, recorded, List.mem_append, List.mem_cons, List.mem_map]
      grind
    refine ⟨recorded, before, between ++ after, within, by simp [recorded, Function.comp_def], ?_⟩
    rw [drain_two many within]
    simp [recorded, held, List.filter_map, Function.comp_def]
  · obtain ⟨between, after, rfl⟩ := List.mem_iff_append.mp ((List.mem_cons.mp later).resolve_left different.symm)
    let recorded := before.map (0, ·) ++ (0, first) :: between.map (1, ·) ++ (0, second) :: after.map (1, ·)
    have within : Within 2 recorded := by
      simp only [Within, recorded, List.mem_append, List.mem_cons, List.mem_map]
      grind
    refine ⟨recorded, before, between ++ after, within, by simp [recorded, Function.comp_def], ?_⟩
    rw [drain_two many within]
    simp [recorded, held, List.filter_map, Function.comp_def]

theorem drain_flatMap (count : Nat) (recorded : List (Nat × α)) (parts : α → List β) :
    drain count (recorded.flatMap fun item => (parts item.2).map (item.1, ·)) = (drain count recorded).flatMap parts := by
  have each (buffer : Nat) : held (recorded.flatMap fun item => (parts item.2).map (item.1, ·)) buffer =
      (held recorded buffer).flatMap parts := by
    induction recorded with
    | nil => rfl
    | cons item rest ih =>
      rw [held] at ih ⊢
      rw [List.flatMap_cons, List.filter_append, List.map_append, ih]
      by_cases here : item.1 = buffer
      · simp [held, here, List.filter_map, Function.comp_def]
      · simp [held, here, List.filter_map, Function.comp_def]
  rw [drain, drain, List.flatMap_assoc]
  exact List.flatMap_congr fun buffer _ => each buffer

end Buffers
