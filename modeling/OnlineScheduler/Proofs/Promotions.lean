import OnlineScheduler.Floats
import OnlineScheduler.Proofs.Writes
import OnlineScheduler.General.Greedy

/-! What one call of `policy_promotion` orders: its loop is the greedy plan over
the eligible objects, hottest first. -/

namespace OnlineScheduler.Actuator

variable {p : Platform} {t : Table} {currentFreeDram : ℚ}

/-- What the loop asks of an entry, besides budget being left. -/
def Eligible (p : Platform) (currentFreeDram : ℚ) (t : Table) (entry : KeyValue) : Prop :=
  0 < sizeOn (t.objVector entry.key) 2 ∧ sizeOn (t.objVector entry.key) 2 < currentFreeDram ∧
    (t.objVector entry.key).lastDecision ≠ node0Dram ∧ p.hotnessThreshold < entry.value ∧ t.objAlloc entry.key = 1

instance (p : Platform) (currentFreeDram : ℚ) (t : Table) (entry : KeyValue) :
    Decidable (Eligible p currentFreeDram t entry) :=
  inferInstanceAs (Decidable (_ ∧ _ ∧ _ ∧ _ ∧ _))

/-- The eligible objects in the order of the list, each once. -/
def candidates (p : Platform) (currentFreeDram : ℚ) (t : Table) (ranked : List KeyValue) : List (Fin maxObjects) :=
  ((ranked.filter (fun entry => Eligible p currentFreeDram t entry)).map KeyValue.key).eraseDups

def pmemResident (t : Table) (i : Fin maxObjects) : ℚ := sizeOn (t.objVector i) 2

section
variable (f : Floats)

/-- The same in floating point. -/
def EligibleIn (p : Platform) (currentFreeDram : ℚ) (t : Table) (entry : KeyValue) : Prop :=
  0 < currAllocSizeGb f (t.objVector entry.key) 2 ∧ currAllocSizeGb f (t.objVector entry.key) 2 < currentFreeDram ∧
    (t.objVector entry.key).lastDecision ≠ node0Dram ∧ p.hotnessThreshold < entry.value ∧ t.objAlloc entry.key = 1

instance (p : Platform) (currentFreeDram : ℚ) (t : Table) (entry : KeyValue) :
    Decidable (EligibleIn f p currentFreeDram t entry) :=
  inferInstanceAs (Decidable (_ ∧ _ ∧ _ ∧ _ ∧ _))

def candidatesIn (p : Platform) (currentFreeDram : ℚ) (t : Table) (ranked : List KeyValue) : List (Fin maxObjects) :=
  ((ranked.filter (fun entry => EligibleIn f p currentFreeDram t entry)).map KeyValue.key).eraseDups

/-- What is left of the budget after an object. -/
def budgetLeft (t : Table) (left : ℚ) (i : Fin maxObjects) : ℚ :=
  f.single.round (left - currAllocSizeGb f (t.objVector i) 2)

end

variable {f : Floats}

theorem promoteFromIn_cons (entry : KeyValue) (rest : List KeyValue) (budget : ℚ) (t : Table) :
    promoteFromIn f p currentFreeDram (entry :: rest) budget t =
      if EligibleIn f p currentFreeDram t entry then
        if budgetLeft f t budget entry.key < 0 then promote p entry.key t
        else promoteFromIn f p currentFreeDram rest (budgetLeft f t budget entry.key) (promote p entry.key t)
      else promoteFromIn f p currentFreeDram rest budget t := by
  rw [promoteFromIn]
  by_cases eligible : EligibleIn f p currentFreeDram t entry
  · rw [if_pos eligible]
    obtain ⟨positive, fits, undecided, hot, live⟩ := eligible
    exact (if_pos ⟨positive, fits, undecided⟩).trans (if_pos ⟨hot, live⟩)
  · rw [if_neg eligible]
    split
    next first =>
      rw [if_neg]
      exact fun second => eligible ⟨first.1, first.2.1, first.2.2, second⟩
    next => rfl

theorem promote_object (slot : Fin maxObjects) (t : Table) {i : Fin maxObjects} (other : i ≠ slot) :
    (promote p slot t).objVector i = t.objVector i := Function.update_of_ne other ..

theorem promote_decided (slot : Fin maxObjects) (t : Table) :
    ((promote p slot t).objVector slot).lastDecision = node0Dram := by
  simp [promote]

theorem promote_field {β : Type} (field : Object → β) (slot : Fin maxObjects) (t : Table)
    (kept : ∀ object lastDecision birthDate, field { object with lastDecision, birthDate } = field object)
    (i : Fin maxObjects) : field ((promote p slot t).objVector i) = field (t.objVector i) :=
  update_field field (kept ..) i

theorem promote_budgetLeft (slot : Fin maxObjects) (t : Table) : budgetLeft f (promote p slot t) = budgetLeft f t := by
  funext left i
  have size := promote_field (p := p) (fun object => currAllocSizeGb f object 2) slot t (fun _ _ _ => rfl) i
  rw [budgetLeft, budgetLeft, size]

theorem promote_eligible (slot : Fin maxObjects) (t : Table) (entry : KeyValue) :
    EligibleIn f p currentFreeDram (promote p slot t) entry ↔
      EligibleIn f p currentFreeDram t entry ∧ entry.key ≠ slot := by
  by_cases here : entry.key = slot
  · have decided := promote_decided (p := p) slot t
    rw [← here] at decided ⊢
    exact ⟨fun eligible => absurd decided eligible.2.2.1, fun both => absurd rfl both.2⟩
  · rw [EligibleIn, EligibleIn, promote_object slot t here]
    exact ⟨fun eligible => ⟨eligible, here⟩, fun both => both.1⟩

theorem candidatesIn_cons (entry : KeyValue) (rest : List KeyValue) (t : Table) :
    candidatesIn f p currentFreeDram t (entry :: rest) =
      if EligibleIn f p currentFreeDram t entry then
        entry.key :: candidatesIn f p currentFreeDram (promote p entry.key t) rest
      else candidatesIn f p currentFreeDram t rest := by
  rw [candidatesIn, List.filter_cons]
  by_cases eligible : EligibleIn f p currentFreeDram t entry
  · simp only [eligible, decide_true, if_true, List.map_cons, List.eraseDups_cons, candidatesIn, promote_eligible,
      List.filter_map, List.filter_filter]
    refine congrArg (fun rest => entry.key :: (rest.map KeyValue.key).eraseDups) (List.filter_congr fun other _ => ?_)
    rw [Bool.decide_and, Bool.and_comm, decide_not]
    rfl
  · simp only [eligible, decide_false, if_false, candidatesIn]
    rfl

/-- The loop promotes the objects of the plan, one after another. -/
theorem promoteFromIn_plan (ranked : List KeyValue) (budget : ℚ) (t : Table) :
    promoteFromIn f p currentFreeDram ranked budget t =
      (Greedy.planBy (budgetLeft f t) budget (candidatesIn f p currentFreeDram t ranked)).foldl
        (fun t i => promote p i t) t := by
  induction ranked generalizing budget t with
  | nil => rfl
  | cons entry rest ih =>
    rw [promoteFromIn_cons, candidatesIn_cons]
    split
    next eligible =>
      rw [Greedy.planBy]
      split
      next => rfl
      next =>
        rw [ih, List.foldl_cons]
        congr 2
        exact promote_budgetLeft entry.key t
    next => exact ih budget t

theorem promoteFrom_plan (ranked : List KeyValue) (budget : ℚ) (t : Table) :
    promoteFrom p currentFreeDram ranked budget t =
      (Greedy.plan (pmemResident t) budget (candidates p currentFreeDram t ranked)).foldl (fun t i => promote p i t) t := by
  rw [← promoteFromIn_exact, promoteFromIn_plan, ← Greedy.planBy_sub]
  rfl

def promotionOrder (t : Table) (i : Fin maxObjects) : Event :=
  .order { objIndex := i.val, startAddr := (t.objVector i).startAddr, size := (t.objVector i).size,
           nodemaskTargetNode := 1 <<< node0Dram, type := .promotion, flag := 1 <<< 1 }

theorem promote_order (slot : Fin maxObjects) (t : Table) : promotionOrder (promote p slot t) = promotionOrder t := by
  funext i
  have startAddr := promote_field (p := p) Object.startAddr slot t (fun _ _ _ => rfl) i
  have size := promote_field (p := p) Object.size slot t (fun _ _ _ => rfl) i
  rw [promotionOrder, promotionOrder, startAddr, size]

theorem promoteAll_trace (slots : List (Fin maxObjects)) (t : Table) :
    (slots.foldl (fun t i => promote p i t) t).trace = t.trace ++ slots.map (promotionOrder t) :=
  Runs.pass_log (fun _ _ => rfl) (fun t i => promote_order i t) slots t

theorem promoteAll_field {β : Type} (field : Object → β)
    (kept : ∀ object lastDecision birthDate, field { object with lastDecision, birthDate } = field object)
    (slots : List (Fin maxObjects)) (t : Table) (i : Fin maxObjects) :
    field ((slots.foldl (fun t i => promote p i t) t).objVector i) = field (t.objVector i) :=
  Runs.pass_read (fun t : Table => field (t.objVector i)) _ (fun t slot => promote_field field slot t kept i) slots t

theorem policyPromotion_field {β : Type} (field : Object → β)
    (kept : ∀ object lastDecision birthDate, field { object with lastDecision, birthDate } = field object)
    (ranked : List KeyValue) (i : Fin maxObjects) :
    field ((policyPromotion p currentFreeDram ranked t).objVector i) = field (t.objVector i) := by
  rw [policyPromotion, promoteFrom_plan]
  exact promoteAll_field field kept _ t i

theorem candidates_eligible {ranked : List KeyValue} {i : Fin maxObjects}
    (candidate : i ∈ candidates p currentFreeDram t ranked) :
    ∃ entry, Eligible p currentFreeDram t entry ∧ entry.key = i := by
  rw [candidates, List.mem_eraseDups] at candidate
  obtain ⟨entry, chosen, same⟩ := List.mem_map.mp candidate
  have eligible : Eligible p currentFreeDram t entry := by simpa using (List.mem_filter.mp chosen).2
  exact ⟨entry, eligible, same⟩

/-- What rounds to a positive size is one. -/
theorem candidatesIn_resident {ranked : List KeyValue} {i : Fin maxObjects}
    (candidate : i ∈ candidatesIn f p currentFreeDram t ranked) : 0 ≤ pmemResident t i := by
  rw [candidatesIn, List.mem_eraseDups] at candidate
  obtain ⟨entry, chosen, rfl⟩ := List.mem_map.mp candidate
  have eligible : EligibleIn f p currentFreeDram t entry := of_decide_eq_true (List.mem_filter.mp chosen).2
  have product := f.double.positive (f.single.positive eligible.1)
  have unit : 0 ≤ gb := by decide +kernel
  have size : 0 ≤ (t.objVector entry.key).size.toNat / gb := div_nonneg (Nat.cast_nonneg _) unit
  have rounded : 0 ≤ f.double.round (f.double.round (t.objVector entry.key).size.toNat / gb) := by
    apply f.double.nonneg
    exact div_nonneg (f.double.nonneg _ (Nat.cast_nonneg _)) unit
  have status : 0 < (t.objVector entry.key).pageStatus 2 := by
    by_contra none
    exact absurd product (not_lt.mpr (mul_nonpos_of_nonneg_of_nonpos rounded (not_lt.mp none)))
  exact mul_nonneg size status.le

theorem candidates_live {ranked : List KeyValue} {i : Fin maxObjects}
    (candidate : i ∈ candidates p currentFreeDram t ranked) : t.objAlloc i = 1 := by
  obtain ⟨entry, eligible, rfl⟩ := candidates_eligible candidate
  exact eligible.2.2.2.2

/-- The migration budget of one call of a policy, in gigabytes. -/
def migrationBudget : ℚ := chunkSize.toNat / gb

theorem migrationBudget_nonneg : 0 ≤ migrationBudget := by decide +kernel

theorem policyPromotion_live (p : Platform) (currentFreeDram : ℚ) (ranked : List KeyValue) (t : Table) :
    ∃ slots : List (Fin maxObjects),
      (policyPromotion p currentFreeDram ranked t).trace = t.trace ++ slots.map (promotionOrder t) ∧
      ∀ i ∈ slots, t.objAlloc i = 1 := by
  have upTo := Greedy.plan_upTo (pmemResident t) migrationBudget_nonneg (candidates p currentFreeDram t ranked)
  refine ⟨_, ?_, fun i ordered => candidates_live (upTo.leading.subset ordered)⟩
  rw [← promoteAll_trace (p := p), ← promoteFrom_plan]
  rfl

/-- The orders of one call fit into the free DRAM exactly when every eligible
object that the migration budget lets the call reach still does. -/
theorem promotion_commitment (f : Floats) (p : Platform) (currentFreeDram : ℚ) (ranked : List KeyValue) (t : Table) :
    ∃ slots, (policyPromotionIn f p currentFreeDram ranked t).trace = t.trace ++ slots.map (promotionOrder t) ∧
      (Greedy.total (pmemResident t) slots ≤ currentFreeDram ↔
        0 ≤ currentFreeDram ∧ ∀ first i, first ++ [i] <+: candidatesIn f p currentFreeDram t ranked →
          Greedy.Lasts (budgetLeft f t) (maxMigrationGb f) first →
          Greedy.total (pmemResident t) first + pmemResident t i ≤ currentFreeDram) := by
  refine ⟨_, ?_, Greedy.planBy_total_limit (budgetLeft f t) (fun i candidate => candidatesIn_resident candidate)
    (maxMigrationGb f) currentFreeDram⟩
  rw [← promoteAll_trace (p := p), ← promoteFromIn_plan]
  rfl

/-- Two objects of a chunk's size together overrun the rounded budget. -/
example : [250671104, 749330432].foldl (fun left size => Rounding.single.round (left - Rounding.single.round (size / gb)))
    (maxMigrationGb .ieee) < 0 ∧ 250671104 + 749330432 = chunkSize := by decide +kernel

/-- Two objects of 0.6 gigabytes that lie in PMEM altogether. -/
def inPmem (t : Table) : Table :=
  { t with objVector := fun i => { t.objVector i with pageStatus := fun node => if node = 2 then 1 else 0 } }

def twoHot : List KeyValue := [⟨0, 2, 0, 2, 0⟩, ⟨1, 2, 0, 2, 0⟩]

theorem promotion_commitment_exceeded : ∃ s,
    (State.start fun _ => 0).run machine
      [.insertObject 7 4096 600002560, .insertObject 7 1000005632 600002560] = .ok s ∧
    (policyPromotionIn .ieee machine (3 / 4) twoHot (inPmem s.table)).trace =
      (inPmem s.table).trace ++ [0, 1].map (promotionOrder (inPmem s.table)) ∧
    ¬ Greedy.total (pmemResident (inPmem s.table)) [0, 1] ≤ 3 / 4 := by
  refine ⟨_, rfl, ?_, by decide +kernel⟩
  change (promoteFromIn _ _ _ _ _ _).trace = _
  rw [promoteFromIn_plan, promoteAll_trace]
  congr 2
  decide +kernel

/-- The table after the orders of `slots`: the clock is read once for each. -/
def promoted (p : Platform) (t : Table) (slots : List (Fin maxObjects)) : Table :=
  { t with
    objVector := fun i =>
      match slots.idxOf? i with
      | some k => { t.objVector i with lastDecision := node0Dram, birthDate := p.clock (t.reads + k) }
      | none => t.objVector i
    reads := t.reads + slots.length
    trace := t.trace ++ slots.map (promotionOrder t) }

theorem promoted_fresh {slots : List (Fin maxObjects)} {i : Fin maxObjects} (new : i ∉ slots) (t : Table) :
    (promoted p t slots).objVector i = t.objVector i := by
  simp only [promoted, List.idxOf?_eq_none_iff.mpr new]

theorem promote_promoted {slots : List (Fin maxObjects)} {slot : Fin maxObjects} (new : slot ∉ slots) (t : Table) :
    promote p slot (promoted p t slots) = promoted p t (slots ++ [slot]) := by
  have position (i : Fin maxObjects) : (slots ++ [slot]).idxOf? i =
      (slots.idxOf? i).or (if slot = i then some slots.length else none) := by
    refine List.findIdx?_append.trans ?_
    by_cases here : slot = i <;> simp [List.idxOf?, here]
  have objects : (promote p slot (promoted p t slots)).objVector = (promoted p t (slots ++ [slot])).objVector := by
    funext i
    by_cases here : i = slot
    · subst here
      have start := promoted_fresh (p := p) new t
      simp [promote, promoted, position, List.idxOf?_eq_none_iff.mpr new, bindOrder, writeOrder, getMyTimestamp] at start ⊢
    · rw [promote_object slot _ here]
      simp [promoted, position, Ne.symm here]
  have trace : (promote p slot (promoted p t slots)).trace = (promoted p t (slots ++ [slot])).trace := by
    have order : promotionOrder (promoted p t slots) slot = promotionOrder t slot := by
      rw [promotionOrder, promoted_fresh new, promotionOrder]
    calc (promote p slot (promoted p t slots)).trace
        = t.trace ++ slots.map (promotionOrder t) ++ [promotionOrder (promoted p t slots) slot] := rfl
      _ = t.trace ++ (slots ++ [slot]).map (promotionOrder t) := by
        rw [order, List.map_append, List.append_assoc, List.map_singleton]
  have parts : promote p slot (promoted p t slots) =
      { t with
        objVector := (promote p slot (promoted p t slots)).objVector
        reads := t.reads + slots.length + 1
        trace := (promote p slot (promoted p t slots)).trace } := rfl
  rw [parts, objects, trace, Nat.add_assoc, ← List.length_singleton (a := slot), ← List.length_append]
  rfl

theorem promoteAll_promoted {slots : List (Fin maxObjects)} (distinct : slots.Nodup) (t : Table) :
    slots.foldl (fun t i => promote p i t) t = promoted p t slots := by
  induction slots using List.reverseRecOn with
  | nil => simp [promoted]
  | append_singleton slots slot ih =>
    obtain ⟨distinct, _, apart⟩ := List.nodup_append.mp distinct
    have new : slot ∉ slots := fun member => apart slot member slot (List.mem_singleton.mpr rfl) rfl
    rw [List.foldl_append, ih distinct]
    exact promote_promoted new t

/-- One call orders the eligible objects in the order of the list up to the one
that exhausts the budget, each once, and changes nothing but what it ordered. -/
theorem promotion_greedy (p : Platform) (currentFreeDram : ℚ) (ranked : List KeyValue) (t : Table) :
    ∃ slots : List (Fin maxObjects), slots.Nodup ∧ policyPromotion p currentFreeDram ranked t = promoted p t slots ∧
      ((ranked.map KeyValue.key).Nodup → Greedy.UpTo (pmemResident t) migrationBudget
        ((ranked.filter (fun entry => Eligible p currentFreeDram t entry)).map KeyValue.key) slots) := by
  have upTo := Greedy.plan_upTo (pmemResident t) migrationBudget_nonneg (candidates p currentFreeDram t ranked)
  have distinct : (Greedy.plan (pmemResident t) migrationBudget (candidates p currentFreeDram t ranked)).Nodup :=
    upTo.leading.sublist.nodup (Greedy.eraseDups_nodup _)
  refine ⟨_, distinct, ?_, fun once => ?_⟩
  · rw [← promoteAll_promoted distinct, ← promoteFrom_plan]
    rfl
  · have single : candidates p currentFreeDram t ranked =
        (ranked.filter (fun entry => Eligible p currentFreeDram t entry)).map KeyValue.key :=
      Greedy.eraseDups_distinct (once.sublist (List.filter_sublist.map KeyValue.key))
    rw [← single]
    exact upTo

theorem promotion_greedy_two : ∃ s,
    (State.start fun _ => 0).run machine
      [.insertObject 7 4096 600002560, .insertObject 7 1000005632 600002560] = .ok s ∧
    (twoHot.filter (fun entry => Eligible machine 2 (inPmem s.table) entry)).map KeyValue.key = [0, 1] ∧
    ∃ slots : List (Fin maxObjects), slots.Nodup ∧
      policyPromotion machine 2 twoHot (inPmem s.table) = promoted machine (inPmem s.table) slots ∧
      Greedy.UpTo (pmemResident (inPmem s.table)) migrationBudget
        ((twoHot.filter (fun entry => Eligible machine 2 (inPmem s.table) entry)).map KeyValue.key) slots := by
  refine ⟨_, rfl, by decide +kernel, ?_⟩
  obtain ⟨slots, distinct, ordered, greedy⟩ := promotion_greedy machine 2 twoHot (inPmem _)
  exact ⟨slots, distinct, ordered, greedy (by decide)⟩

end OnlineScheduler.Actuator
