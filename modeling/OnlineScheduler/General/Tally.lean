import Mathlib.Algebra.BigOperators.Field
import Mathlib.Algebra.Order.Field.Basic
import Mathlib.Data.Nat.Cast.Order.Ring

/-! Counting a list into an array of counters, one per place, and the share of
the list that each place gets. -/

namespace Tally

variable {α ι K : Type*} [DecidableEq ι] [Field K] {place : α → ι}

/-- One pass that adds one to the counter of each item's place. -/
def tally (place : α → ι) (counters : ι → K) (items : List α) : ι → K :=
  items.foldl (fun counters item => Function.update counters (place item) (counters (place item) + 1)) counters

def count (place : α → ι) (items : List α) (i : ι) : Nat := items.countP (fun item => place item = i)

theorem count_cons (item : α) (items : List α) (i : ι) :
    count place (item :: items) i = count place items i + if place item = i then 1 else 0 := by
  simp [count, List.countP_cons]

theorem tally_apply (counters : ι → K) (items : List α) (i : ι) :
    tally place counters items i = counters i + count place items i := by
  induction items generalizing counters with
  | nil => simp [tally, count]
  | cons item rest ih =>
    have passed : tally place counters (item :: rest) =
      tally place (Function.update counters (place item) (counters (place item) + 1)) rest := rfl
    rw [passed, ih, count_cons]
    by_cases here : place item = i
    · subst here
      simp [add_assoc, add_comm]
    · simp [here, Function.update_of_ne (Ne.symm here)]

theorem count_le (items : List α) (i : ι) : count place items i ≤ items.length := List.countP_le_length

theorem count_sum {places : Finset ι} {items : List α} (covered : ∀ item ∈ items, place item ∈ places) :
    ∑ i ∈ places, count place items i = items.length := by
  induction items with
  | nil => simp [count]
  | cons item rest ih =>
    have here : place item ∈ places := covered item List.mem_cons_self
    simp only [count_cons, Finset.sum_add_distrib, ih (fun other member => covered other (List.mem_cons_of_mem _ member)),
      Finset.sum_ite_eq, here, if_true, List.length_cons]

omit [DecidableEq ι] in
/-- A counter to which every chosen item adds its weight. -/
theorem selected {σ : Type*} (read : σ → K) {visit : σ → α → σ} {chosen : α → Prop} [DecidablePred chosen]
    {weight : α → K} (adds : ∀ s item, read (visit s item) = read s + if chosen item then weight item else 0)
    (s : σ) (items : List α) : read (items.foldl visit s) = read s + ((items.filter chosen).map weight).sum := by
  induction items generalizing s with
  | nil => simp
  | cons item rest ih =>
    rw [List.foldl_cons, ih, adds, add_assoc, List.filter_cons]
    by_cases here : chosen item <;> simp [here]

omit [DecidableEq ι] in
/-- Choosing more of the items gives more of them, unless it adds none. -/
theorem wider_length {few more : α → Prop} [DecidablePred few] [DecidablePred more] {items : List α}
    (wider : ∀ item, few item → more item) (same : (items.filter more).length = (items.filter few).length) :
    ∀ item ∈ items, more item → few item := by
  have inside : (items.filter few).Sublist (items.filter more) :=
    List.monotone_filter_right items fun item chosen => decide_eq_true (wider item (of_decide_eq_true chosen))
  intro item member chosen
  have kept : item ∈ items.filter few := by
    rw [inside.eq_of_length same.symm]
    exact List.mem_filter.mpr ⟨member, decide_eq_true chosen⟩
  exact of_decide_eq_true (List.mem_filter.mp kept).2

def share (place : α → ι) (items : List α) (i : ι) : K := count place items i / items.length

variable [LinearOrder K] [IsStrictOrderedRing K]

theorem share_nonneg (items : List α) (i : ι) : 0 ≤ (share place items i : K) :=
  div_nonneg (Nat.cast_nonneg _) (Nat.cast_nonneg _)

theorem share_le_one (items : List α) (i : ι) : (share place items i : K) ≤ 1 :=
  div_le_one_of_le₀ (Nat.cast_le.mpr (count_le items i)) (Nat.cast_nonneg _)

theorem share_sum {places : Finset ι} {items : List α} (covered : ∀ item ∈ items, place item ∈ places)
    (present : items ≠ []) : ∑ i ∈ places, (share place items i : K) = 1 := by
  have nonzero : (items.length : K) ≠ 0 := Nat.cast_ne_zero.mpr (List.length_pos_of_ne_nil present).ne'
  simp only [share]
  rw [← Finset.sum_div, ← Nat.cast_sum, count_sum covered, div_self nonzero]

theorem tally_share {counters : ι → K} {items : List α} (present : items ≠ []) {i : ι} :
    tally place counters items i / items.length = share place items i ↔ counters i = 0 := by
  have nonzero : (items.length : K) ≠ 0 := Nat.cast_ne_zero.mpr (List.length_pos_of_ne_nil present).ne'
  rw [tally_apply, share, div_left_inj' nonzero, add_eq_right]

end Tally
