import OnlineScheduler.Proofs.Writes
import OnlineScheduler.General.Greedy

/-! What one call of `policy_demotion` orders: its loop is the greedy plan over
the cold objects, coldest first. The clock is read once for each large entry. -/

namespace OnlineScheduler.Actuator

variable {p : Platform} {t : Table}

def dramResident (t : Table) (i : Fin maxObjects) : ℚ := sizeOn (t.objVector i) 0

/-- What the loop asks of a large entry at the time it visits it. -/
def Demotable (p : Platform) (now : ℚ) (t : Table) (entry : KeyValue) : Prop :=
  now - (t.objVector entry.key).birthDate > minLifetimeSec ∧ entry.value < p.hotnessThreshold ∧
    (t.objVector entry.key).lastDecision ≠ node0Pmem ∧ t.objAlloc entry.key = 1

instance (p : Platform) (now : ℚ) (t : Table) (entry : KeyValue) : Decidable (Demotable p now t entry) :=
  inferInstanceAs (Decidable (_ ∧ _ ∧ _ ∧ _))

/-- The objects that pass when every entry is visited, `reads` being the number
of clock readings made before. -/
def passing (p : Platform) (t : Table) : Nat → List KeyValue → List (Fin maxObjects)
  | _, [] => []
  | reads, entry :: rest =>
    if minSizeGb < dramResident t entry.key then
      if Demotable p (p.clock reads) t entry then entry.key :: passing p t (reads + 1) rest
      else passing p t (reads + 1) rest
    else passing p t reads rest

/-- The same, each object once: an object ordered out of DRAM does not pass again. -/
def coldCandidates (p : Platform) (t : Table) (ranked : List KeyValue) : List (Fin maxObjects) :=
  (passing p t t.reads ranked).eraseDups

theorem demoteFrom_cons (entry : KeyValue) (rest : List KeyValue) (budget : ℚ) (t : Table) (hasDemotion : Int) :
    demoteFrom p (entry :: rest) budget (t, hasDemotion) =
      if minSizeGb < dramResident t entry.key then
        if Demotable p (p.clock t.reads) t entry then
          if budget - dramResident t entry.key < 0 then (demote entry.key (getMyTimestamp p t).2, 1)
          else demoteFrom p rest (budget - dramResident t entry.key) (demote entry.key (getMyTimestamp p t).2, 1)
        else demoteFrom p rest budget ((getMyTimestamp p t).2, hasDemotion)
      else demoteFrom p rest budget (t, hasDemotion) := by
  rw [demoteFrom]
  by_cases large : minSizeGb < dramResident t entry.key
  · rw [if_pos large]
    refine (if_pos large).trans ?_
    by_cases demotable : Demotable p (p.clock t.reads) t entry
    · rw [if_pos demotable]
      obtain ⟨aged, cold, undecided, live⟩ := demotable
      exact (if_pos ⟨aged, cold, undecided⟩).trans (if_pos live)
    · rw [if_neg demotable]
      change ite _ _ _ = _
      split
      next first =>
        exact if_neg fun live => demotable ⟨first.1, first.2.1, first.2.2, live⟩
      next => rfl
  · rw [if_neg large]
    exact if_neg large

theorem demote_field {β : Type} (field : Object → β) (slot : Fin maxObjects) (t : Table)
    (kept : ∀ object lastDecision, field { object with lastDecision } = field object) (i : Fin maxObjects) :
    field ((demote slot t).objVector i) = field (t.objVector i) :=
  update_field field (kept ..) i

theorem demote_resident (slot : Fin maxObjects) (t : Table) : dramResident (demote slot t) = dramResident t :=
  funext (demote_field (fun object => sizeOn object 0) slot t fun _ _ => rfl)

theorem demote_decision (slot : Fin maxObjects) (t : Table) :
    ((demote slot t).objVector slot).lastDecision = node0Pmem := by
  simp [demote]

theorem demote_demotable (slot : Fin maxObjects) (now : ℚ) (t : Table) (entry : KeyValue) :
    Demotable p now (demote slot t) entry ↔ Demotable p now t entry ∧ entry.key ≠ slot := by
  by_cases here : entry.key = slot
  · have decided := demote_decision slot t
    rw [← here] at decided ⊢
    exact ⟨fun demotable => absurd decided demotable.2.2.1, fun both => absurd rfl both.2⟩
  · have same : (demote slot t).objVector entry.key = t.objVector entry.key := Function.update_of_ne here ..
    rw [Demotable, Demotable, same]
    exact ⟨fun demotable => ⟨demotable, here⟩, fun both => both.1⟩

theorem passing_demote (slot : Fin maxObjects) (t : Table) (reads : Nat) (ranked : List KeyValue) :
    passing p (demote slot t) reads ranked = (passing p t reads ranked).filter (fun i => !i == slot) := by
  induction ranked generalizing reads with
  | nil => rfl
  | cons entry rest ih =>
    rw [passing, passing, demote_resident]
    split
    next =>
      by_cases demotable : Demotable p (p.clock reads) t entry
      · rw [if_pos demotable, List.filter_cons, ih]
        by_cases here : entry.key = slot
        · rw [if_neg (fun both => ((demote_demotable ..).mp both).2 here)]
          simp [here]
        · rw [if_pos ((demote_demotable ..).mpr ⟨demotable, here⟩)]
          simp [here]
      · rw [if_neg demotable, if_neg (fun both => demotable ((demote_demotable ..).mp both).1), ih]
    next => exact ih reads

def demotionOrder (t : Table) (i : Fin maxObjects) : Event :=
  .order { objIndex := i.val, startAddr := (t.objVector i).startAddr, size := (t.objVector i).size,
           nodemaskTargetNode := 1 <<< node0Pmem, type := .demotion, flag := 1 <<< 1 }

theorem demote_order (slot : Fin maxObjects) (t : Table) : demotionOrder (demote slot t) = demotionOrder t := by
  funext i
  have startAddr := demote_field Object.startAddr slot t (fun _ _ => rfl) i
  have size := demote_field Object.size slot t (fun _ _ => rfl) i
  rw [demotionOrder, demotionOrder, startAddr, size]

theorem demoteAll_trace (slots : List (Fin maxObjects)) (t : Table) :
    (slots.foldl (fun t i => demote i t) t).trace = t.trace ++ slots.map (demotionOrder t) :=
  Runs.pass_log (fun _ _ => rfl) (fun t i => demote_order i t) slots t

theorem demoteAll_field {β : Type} (field : Object → β)
    (kept : ∀ object lastDecision, field { object with lastDecision } = field object)
    (slots : List (Fin maxObjects)) (t : Table) (i : Fin maxObjects) :
    field ((slots.foldl (fun t i => demote i t) t).objVector i) = field (t.objVector i) :=
  Runs.pass_read (fun t : Table => field (t.objVector i)) _ (fun t slot => demote_field field slot t kept i) slots t

theorem demoteAll_reads (slots : List (Fin maxObjects)) (t : Table) (reads : Nat) :
    slots.foldl (fun t i => demote i t) { t with reads } = { slots.foldl (fun t i => demote i t) t with reads } :=
  List.foldl_hom (fun t : Table => { t with reads }) fun _ _ => rfl

theorem passing_reads (t : Table) (reads later : Nat) (ranked : List KeyValue) :
    passing p { t with reads := later } reads ranked = passing p t reads ranked := by
  induction ranked generalizing reads with
  | nil => rfl
  | cons entry rest ih =>
    simp only [passing, ih]
    rfl

theorem coldCandidates_cons (entry : KeyValue) (rest : List KeyValue) (t : Table) :
    coldCandidates p t (entry :: rest) =
      if minSizeGb < dramResident t entry.key then
        if Demotable p (p.clock t.reads) t entry then
          entry.key :: coldCandidates p (demote entry.key (getMyTimestamp p t).2) rest
        else coldCandidates p (getMyTimestamp p t).2 rest
      else coldCandidates p t rest := by
  have later : passing p (getMyTimestamp p t).2 (t.reads + 1) rest = passing p t (t.reads + 1) rest :=
    passing_reads t (t.reads + 1) (t.reads + 1) rest
  have demoted : coldCandidates p (demote entry.key (getMyTimestamp p t).2) rest =
      ((passing p t (t.reads + 1) rest).filter (fun i => !i == entry.key)).eraseDups := by
    rw [← later, ← passing_demote]
    rfl
  have waited : coldCandidates p (getMyTimestamp p t).2 rest = (passing p t (t.reads + 1) rest).eraseDups := by
    rw [← later]
    rfl
  rw [demoted, waited, coldCandidates, passing, ← List.eraseDups_cons]
  split
  next => split <;> rfl
  next => rfl

/-- The loop orders the objects of the plan out of DRAM, one after another. -/
theorem demoteFrom_plan (ranked : List KeyValue) (budget : ℚ) (t : Table) (hasDemotion : Int) :
    let slots := Greedy.plan (dramResident t) budget (coldCandidates p t ranked)
    ∃ reads, demoteFrom p ranked budget (t, hasDemotion) =
      ({ slots.foldl (fun t i => demote i t) t with reads }, if slots = [] then hasDemotion else 1) := by
  induction ranked generalizing budget t hasDemotion with
  | nil => exact ⟨t.reads, rfl⟩
  | cons entry rest ih =>
    have aside (slots : List (Fin maxObjects)) (reads : Nat) :
        ({ slots.foldl (fun t i => demote i t) (getMyTimestamp p t).2 with reads } : Table) =
          { slots.foldl (fun t i => demote i t) t with reads } := by
      rw [getMyTimestamp, demoteAll_reads]
    simp only [demoteFrom_cons, coldCandidates_cons]
    split
    next =>
      split
      next =>
        rw [Greedy.plan]
        split
        next => exact ⟨t.reads + 1, rfl⟩
        next =>
          obtain ⟨reads, same⟩ := ih (budget - dramResident t entry.key) (demote entry.key (getMyTimestamp p t).2) 1
          refine ⟨reads, same.trans ?_⟩
          have cost : dramResident (demote entry.key (getMyTimestamp p t).2) = dramResident t := demote_resident _ _
          rw [cost, ite_self, if_neg (List.cons_ne_nil _ _), ← aside]
          rfl
      next =>
        obtain ⟨reads, same⟩ := ih budget (getMyTimestamp p t).2 hasDemotion
        refine ⟨reads, same.trans ?_⟩
        rw [aside]
        rfl
    next => exact ih budget t hasDemotion

theorem passing_live {reads : Nat} {ranked : List KeyValue} {i : Fin maxObjects} (passes : i ∈ passing p t reads ranked) :
    t.objAlloc i = 1 := by
  induction ranked generalizing reads with
  | nil => cases passes
  | cons entry rest ih =>
    rw [passing] at passes
    split at passes
    next =>
      split at passes
      next demotable =>
        rcases List.mem_cons.mp passes with rfl | later
        · exact demotable.2.2.2
        · exact ih later
      next => exact ih passes
    next => exact ih passes

theorem policyDemotion_live (p : Platform) (ranked : List KeyValue) (t : Table) :
    ∃ slots : List (Fin maxObjects), (policyDemotion p ranked t).1.trace = t.trace ++ slots.map (demotionOrder t) ∧
      ∀ i ∈ slots, t.objAlloc i = 1 := by
  have nonneg : 0 ≤ chunkSize.toNat / gb := by decide +kernel
  have upTo := Greedy.plan_upTo (dramResident t) nonneg (coldCandidates p t ranked.reverse)
  obtain ⟨reads, same⟩ := demoteFrom_plan (p := p) ranked.reverse (chunkSize.toNat / gb) t 0
  refine ⟨_, ?_, fun i ordered => passing_live (List.mem_eraseDups.mp (upTo.leading.subset ordered))⟩
  rw [policyDemotion, same]
  exact demoteAll_trace _ t

/-- What one call orders out of DRAM: live objects, beyond the budget by no
more than the largest of them. -/
theorem policyDemotion_orders {most : ℚ} (proper : 0 ≤ most) (bounded : ∀ i, t.objAlloc i = 1 → dramResident t i ≤ most)
    (ranked : List KeyValue) : ∃ slots : List (Fin maxObjects),
      (policyDemotion p ranked t).1.trace = t.trace ++ slots.map (demotionOrder t) ∧
      (policyDemotion p ranked t).2 = (if slots = [] then 0 else 1) ∧
      Greedy.total (dramResident t) slots ≤ chunkSize.toNat / gb + most := by
  obtain ⟨reads, same⟩ := demoteFrom_plan (p := p) ranked.reverse (chunkSize.toNat / gb) t 0
  refine ⟨_, ?_, congrArg Prod.snd same, Greedy.plan_total_le proper ?_ (by decide +kernel)⟩
  · rw [policyDemotion, same]
    exact demoteAll_trace _ t
  · intro i candidate
    exact bounded i (passing_live (List.mem_eraseDups.mp candidate))

theorem policyDemotion_field {β : Type} (field : Object → β)
    (kept : ∀ object lastDecision, field { object with lastDecision } = field object) (ranked : List KeyValue)
    (i : Fin maxObjects) : field ((policyDemotion p ranked t).1.objVector i) = field (t.objVector i) := by
  obtain ⟨reads, same⟩ := demoteFrom_plan (p := p) ranked.reverse (chunkSize.toNat / gb) t 0
  rw [policyDemotion, same]
  exact demoteAll_field field kept _ t i

/-- The table after the orders of `slots`, with `reads` readings of the clock. -/
def demoted (t : Table) (slots : List (Fin maxObjects)) (reads : Nat) : Table :=
  { t with
    objVector := fun i => if i ∈ slots then { t.objVector i with lastDecision := node0Pmem } else t.objVector i
    reads
    trace := t.trace ++ slots.map (demotionOrder t) }

theorem demoteAll_demoted {slots : List (Fin maxObjects)} (distinct : slots.Nodup) (t : Table) (reads : Nat) :
    { slots.foldl (fun t i => demote i t) t with reads } = demoted t slots reads := by
  have objects : (slots.foldl (fun t i => demote i t) t).objVector =
      fun i => if i ∈ slots then { t.objVector i with lastDecision := node0Pmem } else t.objVector i := by
    funext i
    apply Runs.pass Table.objVector (fun _ object => { object with lastDecision := node0Pmem }) (fun t i => demote i t)
      (fun t i => Function.update_self ..) (fun t i j other => Function.update_of_ne other ..) distinct
  have alloc : (slots.foldl (fun t i => demote i t) t).objAlloc = t.objAlloc :=
    Runs.pass_read Table.objAlloc (fun t i => demote i t) (fun _ _ => rfl) slots t
  have total : (slots.foldl (fun t i => demote i t) t).totalObj = t.totalObj :=
    Runs.pass_read Table.totalObj (fun t i => demote i t) (fun _ _ => rfl) slots t
  have index : (slots.foldl (fun t i => demote i t) t).index = t.index :=
    Runs.pass_read Table.index (fun t i => demote i t) (fun _ _ => rfl) slots t
  simp only [objects, alloc, total, index, demoteAll_trace, demoted]

/-- The entries that the loop orders when it visits all: each large one takes
the next reading of the clock. -/
def coldEntries (p : Platform) (t : Table) (ranked : List KeyValue) : List KeyValue :=
  (((ranked.reverse.filter (fun entry => minSizeGb < dramResident t entry.key)).zipIdx t.reads).filter
    (fun visit => Demotable p (p.clock visit.2) t visit.1)).map Prod.fst

theorem passing_visits (ranked : List KeyValue) (reads : Nat) :
    passing p t reads ranked =
      ((((ranked.filter (fun entry => minSizeGb < dramResident t entry.key)).zipIdx reads).filter
        (fun visit => Demotable p (p.clock visit.2) t visit.1)).map Prod.fst).map KeyValue.key := by
  induction ranked generalizing reads with
  | nil => rfl
  | cons entry rest ih =>
    rw [passing, List.filter_cons]
    split
    next large =>
      rw [if_pos (decide_eq_true large), List.zipIdx_cons, List.filter_cons, ih]
      split
      next demotable => simp [demotable]
      next refused => simp [refused]
    next small => rw [if_neg (by simpa using small), ih]

/-- One call orders the entries from the end of the list up to the one that
exhausts the budget, and changes nothing but the decision of what it ordered. -/
theorem demotion_greedy (p : Platform) (ranked : List KeyValue) (t : Table) :
    ∃ slots : List (Fin maxObjects), slots.Nodup ∧
      (∃ reads, policyDemotion p ranked t = (demoted t slots reads, if slots = [] then 0 else 1)) ∧
      ((ranked.map KeyValue.key).Nodup → Greedy.UpTo (dramResident t) (chunkSize.toNat / gb)
        ((coldEntries p t ranked).map KeyValue.key) slots) := by
  have nonneg : 0 ≤ chunkSize.toNat / gb := by decide +kernel
  have upTo := Greedy.plan_upTo (dramResident t) nonneg (coldCandidates p t ranked.reverse)
  have distinct := upTo.leading.sublist.nodup (Greedy.eraseDups_nodup _)
  obtain ⟨reads, same⟩ := demoteFrom_plan (p := p) ranked.reverse (chunkSize.toNat / gb) t 0
  refine ⟨_, distinct, ⟨reads, ?_⟩, fun once => ?_⟩
  · rw [policyDemotion, same, demoteAll_demoted distinct]
  · have visited : passing p t t.reads ranked.reverse = (coldEntries p t ranked).map KeyValue.key := passing_visits _ _
    have backward : (ranked.reverse.map KeyValue.key).Nodup := by
      rwa [List.map_reverse, List.nodup_reverse]
    have inside : (coldEntries p t ranked).Sublist ranked.reverse := by
      refine (List.filter_sublist.map Prod.fst).trans ?_
      rw [List.zipIdx_map_fst]
      exact List.filter_sublist
    have single : coldCandidates p t ranked.reverse = (coldEntries p t ranked).map KeyValue.key := by
      rw [coldCandidates, visited]
      exact Greedy.eraseDups_distinct (backward.sublist (inside.map KeyValue.key))
    rw [← single]
    exact upTo

/-- Two objects of 0.6 gigabytes that lie in DRAM altogether and are ten seconds
old at the next reading of the clock. -/
def inDram (t : Table) : Table :=
  { t with
    objVector := fun i =>
      { t.objVector i with birthDate := t.reads - 10, pageStatus := fun node => if node = 0 then 1 else 0 } }

def twoCold : List KeyValue := [⟨0, 1, 0, 1, 0⟩, ⟨1, 0, 0, 0, 0⟩]

theorem demotion_greedy_two : ∃ s,
    (State.start fun _ => 0).run machine
      [.insertObject 7 4096 600002560, .insertObject 7 1000005632 600002560] = .ok s ∧
    (coldEntries machine (inDram s.table) twoCold).map KeyValue.key = [1, 0] ∧
    ∃ slots : List (Fin maxObjects), slots.Nodup ∧
      (∃ reads, policyDemotion machine twoCold (inDram s.table) =
        (demoted (inDram s.table) slots reads, if slots = [] then 0 else 1)) ∧
      Greedy.UpTo (dramResident (inDram s.table)) (chunkSize.toNat / gb)
        ((coldEntries machine (inDram s.table) twoCold).map KeyValue.key) slots := by
  refine ⟨_, rfl, by decide +kernel, ?_⟩
  obtain ⟨slots, distinct, ordered, greedy⟩ := demotion_greedy machine twoCold (inDram _)
  exact ⟨slots, distinct, ordered, greedy (by decide)⟩

end OnlineScheduler.Actuator
