import OnlineScheduler.Actuator
import OnlineScheduler.General.Rounding

/-! `policy_promotion` in the arithmetic of the machine: every operation rounds
to the type of its result. -/

namespace OnlineScheduler.Actuator

structure Floats where
  single : Rounding
  double : Rounding

def Floats.exact : Floats := ⟨.exact, .exact⟩

def Floats.ieee : Floats := ⟨.single, .double⟩

section
variable (f : Floats)

/-- The size becomes a `double`, the product a `float`. -/
def currAllocSizeGb (object : Object) (node : Fin 4) : ℚ :=
  f.single.round (f.double.round (f.double.round (f.double.round object.size.toNat / gb) * object.pageStatus node))

def maxMigrationGb : ℚ := f.single.round (f.double.round (f.double.round chunkSize.toNat / gb))

/-- The loop of `policy_promotion`, with `left` of the budget. -/
def promoteFromIn (p : Platform) (currentFreeDram : ℚ) : List KeyValue → ℚ → Table → Table
  | [], _, t => t
  | entry :: rest, left, t =>
    let object := t.objVector entry.key
    let size := currAllocSizeGb f object 2
    if size > 0 ∧ size < currentFreeDram ∧ object.lastDecision ≠ node0Dram then
      if entry.value > p.hotnessThreshold ∧ t.objAlloc entry.key = 1 then
        let left := f.single.round (left - size)
        if left < 0 then promote p entry.key t
        else promoteFromIn p currentFreeDram rest left (promote p entry.key t)
      else promoteFromIn p currentFreeDram rest left t
    else promoteFromIn p currentFreeDram rest left t

def policyPromotionIn (p : Platform) (currentFreeDram : ℚ) (ranked : List KeyValue) (t : Table) : Table :=
  promoteFromIn f p currentFreeDram ranked (maxMigrationGb f) t

end

theorem promoteFromIn_exact (p : Platform) (currentFreeDram : ℚ) (ranked : List KeyValue) (left : ℚ) (t : Table) :
    promoteFromIn .exact p currentFreeDram ranked left t = promoteFrom p currentFreeDram ranked left t := by
  induction ranked generalizing left t with
  | nil => rfl
  | cons entry rest ih =>
    simp only [promoteFrom, promoteFromIn, ih]
    rfl

/-- Without rounding it is `policy_promotion` over the rationals. -/
theorem policyPromotionIn_exact (p : Platform) (currentFreeDram : ℚ) (ranked : List KeyValue) (t : Table) :
    policyPromotionIn .exact p currentFreeDram ranked t = policyPromotion p currentFreeDram ranked t :=
  promoteFromIn_exact p currentFreeDram ranked _ t

end OnlineScheduler.Actuator
