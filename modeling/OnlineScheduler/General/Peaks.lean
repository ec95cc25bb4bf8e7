import Mathlib.Algebra.Order.Field.Basic
import Mathlib.Data.List.MinMax
import Mathlib.Tactic.Ring

/-! Running maxima. A value is divided by the largest value met so far, so two
values met at different times may be divided by different numbers. -/

namespace Peaks

variable {α β : Type*} [LinearOrder β] {value : α → β}

/-- The largest of the starting value and the values met. -/
def peak (value : α → β) (start : β) (items : List α) : β :=
  items.foldl (fun peak item => max peak (value item)) start

theorem peak_append (value : α → β) (start : β) (first rest : List α) :
    peak value start (first ++ rest) = peak value (peak value start first) rest := List.foldl_append

theorem peak_snoc (value : α → β) (start : β) (items : List α) (last : α) :
    peak value start (items ++ [last]) = max (peak value start items) (value last) := peak_append ..

theorem peak_le {start bound : β} {items : List α} :
    peak value start items ≤ bound ↔ start ≤ bound ∧ ∀ item ∈ items, value item ≤ bound := by
  induction items using List.reverseRecOn with
  | nil => exact ⟨fun below => ⟨below, List.forall_mem_nil _⟩, And.left⟩
  | append_singleton items last ih =>
    rw [peak_snoc, max_le_iff, ih, List.forall_mem_append, List.forall_mem_singleton, and_assoc]

theorem le_peak {start low : β} {items : List α} :
    low ≤ peak value start items ↔ low ≤ start ∨ ∃ item ∈ items, low ≤ value item := by
  induction items using List.reverseRecOn with
  | nil => exact ⟨Or.inl, fun either => either.elim id fun ⟨_, absent, _⟩ => absurd absent List.not_mem_nil⟩
  | append_singleton items last ih =>
    rw [peak_snoc, le_max_iff, ih, or_assoc]
    refine or_congr_right ⟨?_, ?_⟩
    · rintro (⟨item, member, above⟩ | above)
      · exact ⟨item, List.mem_append_left _ member, above⟩
      · exact ⟨last, List.mem_append_right _ List.mem_cons_self, above⟩
    · rintro ⟨item, member, above⟩
      obtain before | here := List.mem_append.mp member
      · exact .inl ⟨item, before, above⟩
      · exact .inr (List.mem_singleton.mp here ▸ above)

theorem start_le_peak (value : α → β) (start : β) (items : List α) : start ≤ peak value start items :=
  le_peak.mpr (.inl le_rfl)

theorem peak_le_peak {start : β} {first items : List α} (before : first <+: items) :
    peak value start first ≤ peak value start items := by
  obtain ⟨rest, rfl⟩ := before
  rw [peak_append]
  exact start_le_peak value _ rest

theorem value_le_peak (value : α → β) {start : β} {items : List α} {item : α} (member : item ∈ items) :
    value item ≤ peak value start items := le_peak.mpr (.inr ⟨item, member, le_rfl⟩)

variable {K : Type*} [Field K] [LinearOrder K] [IsStrictOrderedRing K] {low high early late : K}

theorem share_le_share (ordered : low ≤ high) (nonneg : 0 ≤ high) (positive : 0 < late) (shrunk : late ≤ early) :
    low / early ≤ high / late :=
  calc low / early ≤ high / early := div_le_div_of_nonneg_right ordered (positive.le.trans shrunk)
    _ ≤ high / late := div_le_div_of_nonneg_left nonneg positive shrunk

/-- A maximum that only the higher value raises costs it nothing. -/
theorem share_le_max (ordered : low ≤ high) (below : low ≤ early) (positive : 0 < early) :
    low / early ≤ high / max early high := by
  obtain raised | kept := le_total early high
  · have top : 0 < high := positive.trans_le raised
    rw [max_eq_right raised, div_self top.ne']
    exact div_le_one_of_le₀ below positive.le
  · rw [max_eq_left kept]
    exact div_le_div_of_nonneg_right ordered positive.le

theorem share_anti (nonneg : 0 ≤ low) (positive : 0 < early) (grown : early ≤ late) :
    low / late ≤ low / early ∧ (low / early ≤ low / late ↔ 0 < low → early = late) := by
  have falls : low / late ≤ low / early := div_le_div_of_nonneg_left nonneg positive grown
  refine ⟨falls, ?_⟩
  rcases nonneg.eq_or_lt with zero | above
  · simp [← zero]
  · rw [div_le_div_iff_of_pos_left above positive (positive.trans_le grown)]
    constructor
    · exact fun shrunk _ => le_antisymm grown shrunk
    · exact fun same => (same above).ge

end Peaks
