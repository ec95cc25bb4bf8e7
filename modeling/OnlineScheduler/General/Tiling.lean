import Mathlib.Order.Basic

/-! Cutting a range of numbers into consecutive half-open pieces. -/

namespace Tiling

/-- The pieces are not empty and follow one another from `first` to `last`. -/
def Tiles : Nat → List (Nat × Nat) → Nat → Prop
  | first, [], last => first = last
  | first, (low, high) :: rest, last => low = first ∧ low < high ∧ Tiles high rest last

theorem Tiles.append {first middle last : Nat} {left right : List (Nat × Nat)}
    (before : Tiles first left middle) (after : Tiles middle right last) :
    Tiles first (left ++ right) last := by
  induction left generalizing first with
  | nil => cases before; exact after
  | cons piece rest ih =>
    obtain ⟨low, high⟩ := piece
    obtain ⟨start, proper, remaining⟩ := before
    exact ⟨start, proper, ih remaining⟩

theorem Tiles.le {first last : Nat} {pieces : List (Nat × Nat)} (tiles : Tiles first pieces last) :
    first ≤ last := by
  induction pieces generalizing first with
  | nil => exact Nat.le_of_eq tiles
  | cons piece rest ih =>
    obtain ⟨start, proper, remaining⟩ := tiles
    have bound := ih remaining
    omega

/-- Every number of the range is in exactly one piece, and no other number is
in any. -/
theorem Tiles.covers {first last : Nat} {pieces : List (Nat × Nat)} (tiles : Tiles first pieces last)
    (x : Nat) :
    pieces.countP (fun piece => piece.1 ≤ x ∧ x < piece.2) = if first ≤ x ∧ x < last then 1 else 0 := by
  induction pieces generalizing first with
  | nil =>
    cases tiles
    rw [List.countP_nil, if_neg (by omega)]
  | cons piece rest ih =>
    obtain ⟨start, proper, remaining⟩ := tiles
    have bound := remaining.le
    rw [List.countP_cons, ih remaining]
    simp only [decide_eq_true_eq]
    split_ifs <;> omega

theorem tiles_equal (first : Nat) {length : Nat} (positive : 0 < length) (count : Nat) :
    Tiles first ((List.range count).map fun i => (first + i * length, first + (i + 1) * length))
      (first + count * length) := by
  induction count with
  | zero => simp [Tiles]
  | succ count ih =>
    rw [List.range_succ, List.map_append, List.map_singleton]
    refine ih.append ⟨rfl, ?_, rfl⟩
    rw [Nat.add_one_mul]
    omega

end Tiling
