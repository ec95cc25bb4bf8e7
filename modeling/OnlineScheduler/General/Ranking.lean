import Mathlib.Data.List.Perm.Basic
import Mathlib.Data.List.Perm.Subperm
import Mathlib.Order.Lattice

/-! Ranking part of a list by sorting all of it. The fresh entries are a prefix
of the list, and whether they are the prefix of the sorted list as well depends
on the entries behind them. -/

namespace Ranking

variable {α β : Type*} [LinearOrder β] (value : α → β)

/-- A permutation of the entries in non-increasing order of value; nothing is
said about entries of one value. -/
structure Sorted (entries sorted : List α) : Prop where
  perm : sorted.Perm entries
  ordered : sorted.Pairwise (fun first second => value second ≤ value first)

variable {value}

def sort (value : α → β) (entries : List α) : List α :=
  if entries.IsChain (fun first second => value second ≤ value first) then entries
  else entries.mergeSort (fun first second => value second ≤ value first)

theorem sort_sorted (value : α → β) (entries : List α) : Sorted value entries (sort value entries) := by
  rw [sort]
  split
  next chain =>
    have : Trans (fun first second => value second ≤ value first) (fun first second => value second ≤ value first)
      (fun first second => value second ≤ value first) := ⟨fun first second => le_trans second first⟩
    exact ⟨.refl _, chain.pairwise⟩
  next =>
    have ordered : (entries.mergeSort (fun first second => value second ≤ value first)).Pairwise
        (fun first second => decide (value second ≤ value first) = true) := by
      apply List.pairwise_mergeSort
      · intro a b c first second
        simp only [decide_eq_true_eq] at first second ⊢
        exact le_trans second first
      · intro a b
        simpa using le_total (value b) (value a)
    exact ⟨List.mergeSort_perm _ _, by simpa using ordered⟩

theorem Sorted.split {entries sorted : List α} (isSorted : Sorted value entries sorted) (count : Nat) {first last : α}
    (before : first ∈ sorted.take count) (after : last ∈ sorted.drop count) : value last ≤ value first := by
  have ordered := isSorted.ordered
  rw [← List.take_append_drop count sorted, List.pairwise_append] at ordered
  exact ordered.2.2 first before last after

theorem exists_prefix {entries front rest : List α} (perm : (front ++ rest).Perm entries)
    (outranks : ∀ first ∈ front, ∀ last ∈ rest, value last ≤ value first) :
    ∃ sorted, Sorted value entries sorted ∧ (sorted.take front.length).Perm front := by
  have highSorted := sort_sorted value front
  have lowSorted := sort_sorted value rest
  refine ⟨sort value front ++ sort value rest, ⟨(highSorted.perm.append lowSorted.perm).trans perm, ?_⟩, ?_⟩
  · rw [List.pairwise_append]
    refine ⟨highSorted.ordered, lowSorted.ordered, ?_⟩
    intro first before last after
    exact outranks first (highSorted.perm.subset before) last (lowSorted.perm.subset after)
  · rw [← highSorted.perm.length_eq, List.take_left]
    exact highSorted.perm

variable {fresh stale : List α}

theorem exists_displaced [DecidableEq α] (outranks : ∀ new ∈ fresh, ∀ old ∈ stale, value old ≤ value new) {new old : α}
    (present : new ∈ fresh) (left : old ∈ stale) (tied : value old = value new) :
    ∃ sorted, Sorted value (fresh ++ stale) sorted ∧
      (sorted.take fresh.length).Perm (old :: fresh.erase new) := by
  have perm : (old :: fresh.erase new ++ new :: stale.erase old).Perm (fresh ++ stale) := by
    have swapped : (old :: (fresh.erase new ++ new :: stale.erase old)).Perm
        (new :: (fresh.erase new ++ old :: stale.erase old)) := by
      calc
        List.Perm (old :: (fresh.erase new ++ new :: stale.erase old))
            (old :: new :: (fresh.erase new ++ stale.erase old)) := List.perm_middle.cons old
        List.Perm _ (new :: old :: (fresh.erase new ++ stale.erase old)) := List.Perm.swap new old _
        List.Perm _ (new :: (fresh.erase new ++ old :: stale.erase old)) := List.perm_middle.symm.cons new
    exact swapped.trans ((List.perm_cons_erase present).symm.append (List.perm_cons_erase left).symm)
  have length : (old :: fresh.erase new).length = fresh.length := by
    rw [List.length_cons, List.length_erase_of_mem present]
    have positive := List.length_pos_of_mem present
    omega
  rw [← length]
  apply exists_prefix perm
  intro first before last after
  have high : value old ≤ value first := by
    rcases List.mem_cons.mp before with rfl | kept
    · exact le_rfl
    · exact outranks first (List.mem_of_mem_erase kept) old left
  have low : value last ≤ value new := by
    rcases List.mem_cons.mp after with rfl | kept
    · exact le_rfl
    · exact outranks new present last (List.mem_of_mem_erase kept)
  exact (low.trans_eq tied.symm).trans high

/-- No old entry outranks a fresh one or ties with another. -/
def Settled (value : α → β) (fresh stale : List α) : Prop :=
  ∀ new ∈ fresh, ∀ old ∈ stale, value old < value new ∨ old = new

theorem settled_prefix [DecidableEq α] (settled : Settled value fresh stale) {sorted : List α}
    (isSorted : Sorted value (fresh ++ stale) sorted) : (sorted.take fresh.length).Perm fresh := by
  have length : (sorted.take fresh.length).length = fresh.length := by
    have whole := isSorted.perm.length_eq
    rw [List.length_append] at whole
    rw [List.length_take]
    omega
  have counts (entry : α) : (sorted.take fresh.length).count entry + (sorted.drop fresh.length).count entry =
      fresh.count entry + stale.count entry := by
    rw [← List.count_append, List.take_append_drop, ← List.count_append, isSorted.perm.count_eq]
  by_contra displaced
  -- Some entry is ranked more often than it is fresh, and another less often.
  obtain ⟨old, more⟩ : ∃ old, fresh.count old < (sorted.take fresh.length).count old := by
    by_contra none
    have bounded := List.subperm_ext_iff.mpr (fun entry _ => Nat.le_of_not_lt (fun more => none ⟨entry, more⟩))
    exact displaced (bounded.perm_of_length_le (Nat.le_of_eq length.symm))
  obtain ⟨new, fewer⟩ : ∃ new, (sorted.take fresh.length).count new < fresh.count new := by
    by_contra none
    have bounded := List.subperm_ext_iff.mpr (fun entry _ => Nat.le_of_not_lt (fun fewer => none ⟨entry, fewer⟩))
    exact displaced (bounded.perm_of_length_le (Nat.le_of_eq length)).symm
  have oldCounts := counts old
  have newCounts := counts new
  have ranked : old ∈ sorted.take fresh.length := List.count_pos_iff.mp (by omega)
  have left : old ∈ stale := List.count_pos_iff.mp (by omega)
  have present : new ∈ fresh := List.count_pos_iff.mp (by omega)
  have unranked : new ∈ sorted.drop fresh.length := List.count_pos_iff.mp (by omega)
  rcases settled new present old left with below | same
  · exact absurd below (not_lt_of_ge (isSorted.split _ ranked unranked))
  · rw [same] at more
    exact Nat.lt_asymm more fewer

/-- Every sort ranks exactly the fresh entries if and only if they are settled. -/
theorem prefix_iff [DecidableEq α] :
    (∀ sorted, Sorted value (fresh ++ stale) sorted → (sorted.take fresh.length).Perm fresh) ↔
      Settled value fresh stale := by
  constructor
  · intro ranks
    have outranks : ∀ new ∈ fresh, ∀ old ∈ stale, value old ≤ value new := by
      intro new present old left
      have isSorted := sort_sorted value (fresh ++ stale)
      have front := ranks _ isSorted
      have whole := isSorted.perm
      rw [← List.take_append_drop fresh.length (sort value (fresh ++ stale))] at whole
      have behind := (List.perm_append_left_iff _).mp (whole.trans (front.symm.append_right stale))
      exact isSorted.split _ (front.symm.subset present) (behind.symm.subset left)
    intro new present old left
    rcases lt_or_eq_of_le (outranks new present old left) with below | tied
    · exact Or.inl below
    · obtain ⟨sorted, isSorted, front⟩ := exists_displaced outranks present left tied
      have replaced : ([old] ++ fresh.erase new).Perm ([new] ++ fresh.erase new) :=
        (front.symm.trans (ranks sorted isSorted)).trans (List.perm_cons_erase present)
      exact Or.inr (List.singleton_perm_singleton.mp ((List.perm_append_right_iff _).mp replaced))
  · exact fun settled sorted => settled_prefix settled

theorem Sorted.tail {entries sorted : List α} (isSorted : Sorted value entries sorted) {count : Nat} {bottom : β}
    (least : ∀ entry ∈ entries, bottom ≤ value entry) (tail : ∀ entry ∈ entries.drop count, value entry = bottom) :
    ∀ entry ∈ sorted.drop count, value entry = bottom := by
  intro entry behind
  by_contra above
  have positive : bottom < value entry :=
    lt_of_le_of_ne (least entry (isSorted.perm.subset (List.mem_of_mem_drop behind))) (Ne.symm above)
  have same := isSorted.perm.countP_eq (fun entry => bottom < value entry)
  have front : (sorted.take count).countP (fun entry => bottom < value entry) = (sorted.take count).length := by
    apply List.countP_eq_length.mpr
    intro first before
    exact decide_eq_true (positive.trans_le (isSorted.split count before behind))
  have rest : 0 < (sorted.drop count).countP (fun entry => bottom < value entry) :=
    List.countP_pos_iff.mpr ⟨entry, behind, decide_eq_true positive⟩
  have none : (entries.drop count).countP (fun entry => bottom < value entry) = 0 := by
    apply List.countP_eq_zero.mpr
    intro last after
    simp [tail last after]
  have most := List.countP_le_length (p := fun entry => decide (bottom < value entry)) (l := entries.take count)
  have length := isSorted.perm.length_eq
  rw [← List.take_append_drop count sorted, ← List.take_append_drop count entries, List.countP_append,
    List.countP_append, none, front] at same
  rw [List.length_take] at same most
  omega

end Ranking
