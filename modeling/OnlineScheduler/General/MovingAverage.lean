import Mathlib.Algebra.BigOperators.Ring.List
import Mathlib.Algebra.Order.Field.Basic
import Mathlib.Data.List.Induction
import Mathlib.Tactic.Linarith
import Mathlib.Tactic.Ring

/-! Exponential moving averages: the recurrence, its closed form and its bound.
The average starts at zero and gives a new sample the weight `1 - a`. -/

namespace MovingAverage

variable {K : Type*} [Field K]

def blend (a average sample : K) : K := sample * (1 - a) + average * a

def average (a : K) (samples : List K) : K := samples.foldl (blend a) 0

theorem average_snoc (a : K) (samples : List K) (sample : K) :
    average a (samples ++ [sample]) = blend a (average a samples) sample := by
  rw [average, List.foldl_append, ← average, List.foldl_cons, List.foldl_nil]

/-- The k-th of n samples, counted from 1, has the weight `(1 - a) * a ^ (n - k)`. -/
def weighted (a : K) (samples : List K) : K :=
  ((samples.zipIdx 1).map fun (sample, k) => (1 - a) * a ^ (samples.length - k) * sample).sum

theorem average_eq_weighted (a : K) (samples : List K) : average a samples = weighted a samples := by
  induction samples using List.reverseRecOn with
  | nil => rfl
  | append_singleton samples sample ih =>
    have older : ((samples.zipIdx 1).map fun (old, k) => (1 - a) * a ^ (samples.length + 1 - k) * old) =
        (samples.zipIdx 1).map fun (old, k) => (1 - a) * a ^ (samples.length - k) * old * a := by
      apply List.map_congr_left
      intro entry member
      have bound := List.snd_lt_add_of_mem_zipIdx member
      have next : samples.length + 1 - entry.2 = samples.length - entry.2 + 1 := by omega
      simp only [next, pow_succ]
      ring
    have newest : samples.length + 1 - (1 + samples.length) = 0 := by omega
    rw [average_snoc, ih, weighted, weighted, List.length_append, List.length_singleton, List.zipIdx_append,
      List.map_append, List.sum_append, older, List.sum_map_mul_right]
    simp only [blend, List.zipIdx_singleton, List.map_singleton, List.sum_singleton, newest, pow_zero]
    ring

section
variable [LinearOrder K] [IsStrictOrderedRing K] {a bound : K}

theorem average_le (positive : 0 ≤ a) (proper : a ≤ 1) (start : 0 ≤ bound) {samples : List K}
    (below : ∀ sample ∈ samples, sample ≤ bound) : average a samples ≤ bound := by
  induction samples using List.reverseRecOn with
  | nil => exact start
  | append_singleton samples sample ih =>
    have older := ih (fun old member => below old (List.mem_append_left _ member))
    have newest := below sample (List.mem_append_right _ List.mem_cons_self)
    calc average a (samples ++ [sample])
        = sample * (1 - a) + average a samples * a := average_snoc a samples sample
      _ ≤ bound * (1 - a) + bound * a :=
        add_le_add (mul_le_mul_of_nonneg_right newest (by linarith)) (mul_le_mul_of_nonneg_right older positive)
      _ = bound := by ring

end

theorem blend_cancel {a first second sample : K} (weight : a ≠ 0) :
    blend a first sample = blend a second sample ↔ first = second := by
  rw [blend, blend, add_right_inj, mul_left_inj' weight]

end MovingAverage
