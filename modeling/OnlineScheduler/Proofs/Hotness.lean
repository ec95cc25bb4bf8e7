import OnlineScheduler.TrackMapping
import OnlineScheduler.System
import OnlineScheduler.General.Runs
import Mathlib.Algebra.BigOperators.Fin

/-! Whose size divides the hotness of an object. Two builds divide by the size
of the slot that their loop over the levels ends at. -/

namespace OnlineScheduler.TrackMapping

variable {metric : Metric} {t t' : Table} {i : Fin maxObjects}

def Metric.PerSize (metric : Metric) : Prop :=
  metric = .llcmPerSize ∨ metric = .tlbMissPerSize ∨ metric = .writePerSize ∨ metric = .latencyPerSize

instance (metric : Metric) : Decidable metric.PerSize := inferInstanceAs (Decidable (_ ∨ _ ∨ _ ∨ _))

/-- The builds whose metric needs no loop over the levels. -/
def Metric.Direct (metric : Metric) : Prop := metric = .llcmPerSize ∨ metric = .writePerSize

instance (metric : Metric) : Decidable metric.Direct := inferInstanceAs (Decidable (_ ∨ _))

/-- What a build sums up over an object. -/
def aggregate (metric : Metric) (metrics : Metrics) : ℚ :=
  match metric with
  | .absLlcm | .llcmPerSize => metrics.loadsCount 4
  | .absTlbMiss | .tlbMissPerSize => ∑ level, metrics.tlbMiss level
  | .absWrite | .writePerSize => metrics.storesCount
  | .absLatency | .latencyPerSize => ∑ level, metrics.sumLatencyCost level

def ownHotness (metric : Metric) (object : Object) : Double := .finite (aggregate metric object.metrics / sizeGb object)

theorem sumLevels_eq (counter : Fin memLevels → ℚ) : sumLevels counter = (∑ level, counter level, 5) := by
  rw [Fin.sum_univ_five]
  simp [sumLevels, List.finRange_succ]

/-- The slot whose size a build divides by. -/
def divisor (metric : Metric) (i : Fin maxObjects) : Fin maxObjects := if metric.Direct then i else 5

theorem getHotnessMetric_perSize (perSize : metric.PerSize) : getHotnessMetric metric t i =
    .ok (divide (aggregate metric (t.objVector i).metrics) (sizeGb (t.objVector (divisor metric i)))) := by
  rcases perSize with rfl | rfl | rfl | rfl
  case inl => rfl
  case inr.inl =>
    simp only [getHotnessMetric, sumLevels_eq]
    rfl
  case inr.inr.inl => rfl
  case inr.inr.inr =>
    simp only [getHotnessMetric, sumLevels_eq]
    rfl

theorem divide_finite {dividend quotient : ℚ} {divisor : ℚ} :
    divide dividend divisor = .finite quotient ↔ divisor ≠ 0 ∧ dividend / divisor = quotient := by
  unfold divide
  split
  next nonzero => simp [nonzero]
  next zero =>
    refine iff_of_false ?_ fun both => zero both.1
    split <;> nofun

theorem sizeGb_inj {object object' : Object} : sizeGb object = sizeGb object' ↔ object.size = object'.size := by
  have nonzero : gb ≠ 0 := by decide
  rw [sizeGb, sizeGb, div_left_inj' nonzero, Nat.cast_inj, BitVec.toNat_inj]

theorem sizeGb_zero {object : Object} : sizeGb object = 0 ↔ object.size = 0 := by
  have nonzero : gb ≠ 0 := by decide
  rw [sizeGb, div_eq_zero_iff, or_iff_left nonzero, Nat.cast_eq_zero, ← BitVec.toNat_inj]
  rfl

/-- Dividing by the size of slot 5 gives what dividing by the own size does. -/
def Harmless (metric : Metric) (t : Table) (i : Fin maxObjects) : Prop :=
  (t.objVector 5).size = (t.objVector i).size ∨
    aggregate metric (t.objVector i).metrics = 0 ∧ (t.objVector 5).size ≠ 0

theorem divide_own {object other : Object} (positive : 0 < object.size) :
    divide (aggregate metric object.metrics) (sizeGb other) = ownHotness metric object ↔
      other.size = object.size ∨ aggregate metric object.metrics = 0 ∧ other.size ≠ 0 := by
  have sized : object.size ≠ 0 := (BitVec.pos_iff_ne_zero _).mp positive
  rw [ownHotness, divide_finite, Ne, sizeGb_zero]
  by_cases none : aggregate metric object.metrics = 0
  · simp only [none, zero_div, and_true, true_and]
    exact ⟨Or.inr, fun either => either.elim (fun same => same ▸ sized) id⟩
  · rw [div_eq_mul_inv, div_eq_mul_inv, mul_right_inj' none, inv_inj, sizeGb_inj]
    simp only [none, false_and, or_false]
    exact ⟨And.right, fun same => ⟨same ▸ sized, same⟩⟩

/-- What the metric is meant to be: a function of the object alone. -/
def Own (metric : Metric) (t t' : Table) (i : Fin maxObjects) : Prop :=
  getHotnessMetric metric t i = .ok (ownHotness metric (t.objVector i)) ∧
    getHotnessMetric metric t' i = .ok (ownHotness metric (t.objVector i))

theorem getHotnessMetric_own (perSize : metric.PerSize) (positive : 0 < (t.objVector i).size) :
    getHotnessMetric metric t i = .ok (ownHotness metric (t.objVector i)) ↔
      metric.Direct ∨ i = 5 ∨ Harmless metric t i := by
  rw [getHotnessMetric_perSize perSize, Except.ok.injEq, divide_own positive, divisor, Harmless]
  by_cases direct : metric.Direct
  · simp [direct]
  · rw [if_neg direct]
    constructor
    · exact fun harmless => .inr (.inr harmless)
    · rintro (direct' | rfl | harmless)
      · exact absurd direct' direct
      · exact Or.inl rfl
      · exact harmless

theorem getHotnessMetric_pair (perSize : metric.PerSize) (agree : t.objVector i = t'.objVector i)
    (positive : 0 < (t.objVector i).size) :
    Own metric t t' i ↔ metric.Direct ∨ i = 5 ∨ Harmless metric t i ∧ Harmless metric t' i := by
  rw [Own, getHotnessMetric_own perSize positive, agree, getHotnessMetric_own perSize (agree ▸ positive)]
  tauto

/-- Every counter of the object is 1, and its size too; the others have another size. -/
def skewed (i : Fin maxObjects) (size : BitVec 64) : Table :=
  let object := Table.start.objVector 0
  let metrics : Metrics := ⟨fun _ => 1, fun _ => 1, 1, fun _ => 1, fun _ => 1⟩
  { Table.start with
    objVector := Function.update (fun _ => { object with size }) i { object with size := 1, metrics } }

theorem skewed_object (metric : Metric) (i : Fin maxObjects) (size : BitVec 64) :
    ((skewed i size).objVector i).size = 1 ∧ aggregate metric ((skewed i size).objVector i).metrics ≠ 0 := by
  simp only [skewed, Function.update_self, true_and]
  cases metric <;> simp [aggregate]

theorem skewed_other {size : BitVec 64} {j : Fin maxObjects} (other : j ≠ i) :
    ((skewed i size).objVector j).size = size := by
  simp only [skewed, Function.update_of_ne other]

/-- A hotness per size is the object's own, whatever the rest of the table,
exactly in the builds without a loop over the levels and for slot 5. -/
theorem hotness_own_size (perSize : metric.PerSize) (i : Fin maxObjects) :
    (∀ t t', t.objVector i = t'.objVector i → 0 < (t.objVector i).size →
      (Own metric t t' i ↔ metric.Direct ∨ i = 5 ∨ Harmless metric t i ∧ Harmless metric t' i)) ∧
    ((∀ t t', t.objVector i = t'.objVector i → 0 < (t.objVector i).size → Own metric t t' i) ↔
      metric.Direct ∨ i = 5) := by
  refine ⟨fun t t' => getHotnessMetric_pair perSize, ?_, ?_⟩
  · intro own
    obtain ⟨size, busy⟩ := skewed_object metric i 2
    have met := own (skewed i 2) (skewed i 2) rfl (by rw [size]; decide)
    rcases (getHotnessMetric_own perSize (by rw [size]; decide)).mp met.1 with direct | here | same | idle
    · exact Or.inl direct
    · exact Or.inr here
    · by_contra neither
      have other : (5 : Fin maxObjects) ≠ i := fun here => neither (Or.inr here.symm)
      rw [size, skewed_other other] at same
      exact absurd same (by decide)
    · exact absurd idle.1 busy
  · intro either t t' agree positive
    exact (getHotnessMetric_pair perSize agree positive).mpr (either.imp id Or.inl)

theorem hotness_own_size_tlbMiss :
    (∀ t t' : Table, t.objVector 0 = t'.objVector 0 → 0 < (t.objVector 0).size →
      (Own .tlbMissPerSize t t' 0 ↔ Metric.tlbMissPerSize.Direct ∨ (0 : Fin maxObjects) = 5 ∨
        Harmless .tlbMissPerSize t 0 ∧ Harmless .tlbMissPerSize t' 0)) ∧
    ((∀ t t' : Table, t.objVector 0 = t'.objVector 0 → 0 < (t.objVector 0).size → Own .tlbMissPerSize t t' 0) ↔
      Metric.tlbMissPerSize.Direct ∨ (0 : Fin maxObjects) = 5) :=
  hotness_own_size (by decide) 0

/-- One object is mapped and sampled; slot 5 was never used. -/
def sampledObject : List Action :=
  [.insertObject 7 4096 4096000, .updateMetrics fun _ => ⟨fun _ => 1, fun _ => 1, 1, fun _ => 1, fun _ => 1⟩]

/-- Five more objects are mapped behind it. -/
def sixObjects : List Action :=
  sampledObject ++ (List.range 5).map fun k => .insertObject 7 (BitVec.ofNat 64 (8192000 * (k + 1))) 8192000

theorem hotness_own_size_sixth : ∃ s s',
    (State.start fun _ => 0).run machine sampledObject = .ok s ∧
    (State.start fun _ => 0).run machine sixObjects = .ok s' ∧
    s.table.objVector 0 = s'.table.objVector 0 ∧ 0 < (s.table.objVector 0).size ∧
    getHotnessMetric .tlbMissPerSize s.table 0 = .ok (.infinite false) ∧
    getHotnessMetric .tlbMissPerSize s'.table 0 = .ok (.finite (3350000000 / 8192000)) ∧
    ownHotness .tlbMissPerSize (s.table.objVector 0) = .finite (3350000000 / 4096000) := by
  have passed : Runs.ends (fun s => Runs.ends (fun s' =>
      s.table.objVector 0 = s'.table.objVector 0 ∧ 0 < (s.table.objVector 0).size ∧
      getHotnessMetric .tlbMissPerSize s.table 0 = .ok (.infinite false) ∧
      getHotnessMetric .tlbMissPerSize s'.table 0 = .ok (.finite (3350000000 / 8192000)) ∧
      ownHotness .tlbMissPerSize (s.table.objVector 0) = .finite (3350000000 / 4096000))
      ((State.start fun _ => 0).run machine sixObjects)) ((State.start fun _ => 0).run machine sampledObject) = true := by
    decide +kernel
  obtain ⟨s, first, rest⟩ := Runs.ends_ok passed
  obtain ⟨s', second, values⟩ := Runs.ends_ok rest
  exact ⟨s, s', first, second, of_decide_eq_true values⟩

end OnlineScheduler.TrackMapping
