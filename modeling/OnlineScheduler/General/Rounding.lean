import Mathlib.Algebra.Order.Floor.Ring
import Mathlib.Data.Rat.Floor
import Mathlib.Tactic.Linarith

/-! Rounding to binary floating-point numbers, which keeps the sign. -/

structure Rounding where
  round : ℚ → ℚ
  nonpos : ∀ x, x ≤ 0 → round x ≤ 0
  nonneg : ∀ x, 0 ≤ x → 0 ≤ round x

namespace Rounding

def exact : Rounding := ⟨id, fun _ nonpos => nonpos, fun _ nonneg => nonneg⟩

theorem positive (r : Rounding) {x : ℚ} (rounded : 0 < r.round x) : 0 < x :=
  not_le.mp fun nonpos => absurd rounded (not_lt.mpr (r.nonpos x nonpos))

/-- Of two integers as near, the even one. -/
def nearestInt (x : ℚ) : Int :=
  let below := ⌊x⌋
  if x - below < 1 / 2 then below
  else if 1 / 2 < x - below then below + 1
  else if below % 2 = 0 then below
  else below + 1

theorem nearestInt_nonpos {x : ℚ} (nonpos : x ≤ 0) : nearestInt x ≤ 0 := by
  have below : ⌊x⌋ ≤ 0 := Int.floor_nonpos nonpos
  obtain zero | negative := below.eq_or_lt
  · have here : x - ⌊x⌋ < 1 / 2 := by rw [zero]; norm_num; linarith
    rw [nearestInt, if_pos here]
    exact below
  · unfold nearestInt
    simp only
    split_ifs <;> omega

theorem nearestInt_nonneg {x : ℚ} (nonneg : 0 ≤ x) : 0 ≤ nearestInt x := by
  have below : 0 ≤ ⌊x⌋ := Int.floor_nonneg.mpr nonneg
  unfold nearestInt
  simp only
  split_ifs <;> omega

/-- The exponent of the leading bit. -/
def exponent (x : ℚ) : Int :=
  let high := (Nat.log2 x.num.natAbs : Int) - Nat.log2 x.den
  if |x| < 2 ^ high then high - 1 else high

/-- What the last of `digits` bits is worth, and at least `2 ^ least`. -/
def ulp (digits : Nat) (least : Int) (x : ℚ) : ℚ := 2 ^ max (exponent x - (digits - 1)) least

theorem ulp_nonneg (digits : Nat) (least : Int) (x : ℚ) : 0 ≤ ulp digits least x := zpow_nonneg two_pos.le _

def nearest (digits : Nat) (least : Int) : Rounding where
  round x := nearestInt (x / ulp digits least x) * ulp digits least x
  nonpos x nonpos := by
    have below := nearestInt_nonpos (div_nonpos_of_nonpos_of_nonneg nonpos (ulp_nonneg digits least x))
    exact mul_nonpos_of_nonpos_of_nonneg (Int.cast_nonpos.mpr below) (ulp_nonneg digits least x)
  nonneg x nonneg := by
    have above := nearestInt_nonneg (div_nonneg nonneg (ulp_nonneg digits least x))
    exact mul_nonneg (Int.cast_nonneg above) (ulp_nonneg digits least x)

def single : Rounding := nearest 24 (-149)

def double : Rounding := nearest 53 (-1074)

example : single.round (1 / 10) = 13421773 / 2 ^ 27 ∧ double.round (2 ^ 53 + 1) = 2 ^ 53 := by decide +kernel

end Rounding
