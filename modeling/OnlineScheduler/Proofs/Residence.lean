import OnlineScheduler.Proofs.Decisions

/-! How long an object stays where it was placed. `birth_date` is the clock
reading of the insertion or of the last promotion, and a demotion compares it
with a reading of its own. -/

namespace OnlineScheduler

open Actuator Relation

variable {p : Platform} {t t' : Table} {log : List (Nat × Event)}

def Event.Places (objIndex : Int) (event : Event) : Prop :=
  event.IsOrder .initialDataplacement objIndex ∨ event.IsOrder .promotion objIndex

/-- A log after a write: what the write emits goes with the number of the next
clock reading. `_insert_object` takes that reading before its order, a promotion
after it, and a demotion for the test of the age. -/
def extend (log : List (Nat × Event)) (t t' : Table) : List (Nat × Event) :=
  log ++ (t'.trace.drop t.trace.length).map (t.reads, ·)

inductive Logged (p : Platform) (t : Table) : List (Nat × Event) → Table → Prop where
  | refl : Logged p t [] t
  | tail {log : List (Nat × Event)} {middle t' : Table} (before : Logged p t log middle) (write : Write p middle t') :
      Logged p t (extend log middle t') t'

theorem Writes.logged (written : Writes p t t') : ∃ log, Logged p t log t' := by
  induction written with
  | refl => exact ⟨_, .refl⟩
  | tail _ last ih =>
    obtain ⟨log, before⟩ := ih
    exact ⟨_, before.tail last⟩

/-- The birth date of an object is no earlier than any order that placed it. -/
structure Table.Dated (p : Platform) (log : List (Nat × Event)) (t : Table) : Prop where
  written : log.map Prod.snd = t.trace
  past : ∀ entry ∈ log, entry.1 ≤ t.reads
  inserted : ∀ i, t.objAlloc i = 1 → ∃ entry ∈ log, entry.2.IsOrder .initialDataplacement i.val
  dated : ∀ entry ∈ log, ∀ i : Fin maxObjects, entry.2.Places i.val → p.clock entry.1 ≤ (t.objVector i).birthDate

/-- A demotion comes after the insertion of its object and more than five
seconds after everything that placed it. -/
def Resident (p : Platform) (log : List (Nat × Event)) : Prop :=
  ∀ first entry last, log = first ++ entry :: last → ∀ objIndex, entry.2.IsOrder .demotion objIndex →
    (∃ placed ∈ first, placed.2.IsOrder .initialDataplacement objIndex) ∧
    ∀ placed ∈ first, placed.2.Places objIndex → p.clock entry.1 - p.clock placed.1 > minLifetimeSec

structure Table.Resides (p : Platform) (log : List (Nat × Event)) (t : Table) : Prop where
  dated : t.Dated p log
  resident : Resident p log

theorem start_dated (p : Platform) : Table.start.Dated p [] where
  written := rfl
  past _ member := absurd member List.not_mem_nil
  inserted _ live := absurd live zero_ne_one
  dated _ member := absurd member List.not_mem_nil

private theorem Table.Dated.silent (dated : t.Dated p log) (trace : t'.trace = t.trace) (reads : t.reads ≤ t'.reads)
    (live : ∀ i, t'.objAlloc i = 1 → t.objAlloc i = 1)
    (birthDate : ∀ i, (t'.objVector i).birthDate = (t.objVector i).birthDate) : t'.Dated p log where
  written := dated.written.trans trace.symm
  past entry member := (dated.past entry member).trans reads
  inserted i filled := dated.inserted i (live i filled)
  dated entry member i places := by
    rw [birthDate]
    exact dated.dated entry member i places

private theorem Table.Dated.emit (monotone : Monotone p.clock) (dated : t.Dated p log) {event : Event}
    (trace : t'.trace = t.trace ++ [event]) (reads : t.reads ≤ t'.reads)
    (live : ∀ i : Fin maxObjects, t'.objAlloc i = 1 → t.objAlloc i = 1 ∨ event.IsOrder .initialDataplacement i.val)
    (birthDate : ∀ i : Fin maxObjects, (t'.objVector i).birthDate = p.clock t.reads ∨
      ¬ event.Places i.val ∧ (t'.objVector i).birthDate = (t.objVector i).birthDate) :
    t'.Dated p (log ++ [(t.reads, event)]) := by
  constructor
  case written => rw [List.map_append, dated.written, trace]; rfl
  case past =>
    intro entry member
    rcases List.mem_append.mp member with before | last
    · exact (dated.past entry before).trans reads
    · rw [List.mem_singleton.mp last]
      exact reads
  case inserted =>
    intro i filled
    rcases live i filled with before | now
    · obtain ⟨entry, member, order⟩ := dated.inserted i before
      exact ⟨entry, List.mem_append_left _ member, order⟩
    · exact ⟨_, List.mem_append_right _ List.mem_cons_self, now⟩
  case dated =>
    intro entry member i places
    rcases List.mem_append.mp member with before | last
    · rcases birthDate i with now | ⟨_, kept⟩
      · rw [now]
        exact monotone (dated.past entry before)
      · rw [kept]
        exact dated.dated entry before i places
    · cases List.mem_singleton.mp last
      rcases birthDate i with now | ⟨elsewhere, _⟩
      · rw [now]
      · exact absurd places elsewhere

private theorem Resident.snoc (resident : Resident p log) (dated : t.Dated p log) {event : Event}
    (aged : ∀ objIndex, event.IsOrder .demotion objIndex → ∃ i : Fin maxObjects, objIndex = i.val ∧
      t.objAlloc i = 1 ∧ p.clock t.reads - (t.objVector i).birthDate > minLifetimeSec) :
    Resident p (log ++ [(t.reads, event)]) := by
  intro first entry last split objIndex demoted
  rcases Runs.snoc_split.mp split with ⟨_, rfl, rfl⟩ | ⟨earlier, _, before⟩
  · obtain ⟨i, rfl, live, old⟩ := aged objIndex demoted
    refine ⟨dated.inserted i live, fun placed member places => ?_⟩
    exact lt_of_lt_of_le old (sub_le_sub_left (dated.dated placed member i places) _)
  · exact resident first entry earlier before objIndex demoted

private theorem Table.Resides.silent (before : t.Resides p log) (trace : t'.trace = t.trace)
    (reads : t.reads ≤ t'.reads) (live : ∀ i, t'.objAlloc i = 1 → t.objAlloc i = 1)
    (birthDate : ∀ i, (t'.objVector i).birthDate = (t.objVector i).birthDate) : t'.Resides p (extend log t t') := by
  rw [extend, trace, List.drop_length, List.map_nil, List.append_nil]
  exact ⟨before.dated.silent trace reads live birthDate, before.resident⟩

private theorem Table.Resides.emit (monotone : Monotone p.clock) (before : t.Resides p log) {event : Event}
    (trace : t'.trace = t.trace ++ [event]) (reads : t.reads ≤ t'.reads)
    (live : ∀ i : Fin maxObjects, t'.objAlloc i = 1 → t.objAlloc i = 1 ∨ event.IsOrder .initialDataplacement i.val)
    (birthDate : ∀ i : Fin maxObjects, (t'.objVector i).birthDate = p.clock t.reads ∨
      ¬ event.Places i.val ∧ (t'.objVector i).birthDate = (t.objVector i).birthDate)
    (aged : ∀ objIndex, event.IsOrder .demotion objIndex → ∃ i : Fin maxObjects, objIndex = i.val ∧
      t.objAlloc i = 1 ∧ p.clock t.reads - (t.objVector i).birthDate > minLifetimeSec) :
    t'.Resides p (extend log t t') := by
  rw [extend, trace, List.drop_left, List.map_singleton]
  exact ⟨before.dated.emit monotone trace reads live birthDate, before.resident.snoc before.dated aged⟩

private theorem placed_slot {data : DataBind} {slot i : Fin maxObjects} (target : data.objIndex = slot.val)
    (places : (Event.order data).Places i.val) : i = slot := by
  have same : data.objIndex = i.val := places.elim And.right And.right
  exact Fin.ext (Int.ofNat.inj (same.symm.trans target))

private theorem update_birthDate {data : DataBind} {slot : Fin maxObjects} {object : Object}
    (updated : t'.objVector = Function.update t.objVector slot object) (target : data.objIndex = slot.val)
    (here : object.birthDate = p.clock t.reads) (i : Fin maxObjects) :
    (t'.objVector i).birthDate = p.clock t.reads ∨
      ¬ (Event.order data).Places i.val ∧ (t'.objVector i).birthDate = (t.objVector i).birthDate := by
  rw [updated]
  by_cases same : i = slot
  · subst same
    rw [Function.update_self]
    exact Or.inl here
  · rw [Function.update_of_ne same]
    exact Or.inr ⟨fun places => same (placed_slot target places), rfl⟩

theorem Free.resides (freed : Free t t') (before : t.Resides p log) : t'.Resides p (extend log t t') := by
  obtain ⟨objects, _, _, alloc⟩ := freed.frame
  have kept (i : Fin maxObjects) (still : t'.objAlloc i = 1) : t.objAlloc i = 1 := by
    rcases alloc i with same | ⟨live, _⟩
    · exact same.symm.trans still
    · exact live
  cases freed with
  | free slot scanned live => exact before.silent rfl le_rfl kept fun _ => rfl

theorem Measure.resides (measured : Measure t t') (before : t.Resides p log) : t'.Resides p (extend log t t') := by
  cases measured with
  | measure slot metrics scanned live =>
    exact before.silent rfl le_rfl (fun _ => id) (update_field Object.birthDate rfl)

theorem Store.resides (monotone : Monotone p.clock) (stored : Store p t t') (before : t.Resides p log) :
    t'.Resides p (extend log t t') := by
  cases stored with
  | store pid startAddr size sliced slot found =>
    refine before.emit monotone rfl (Nat.le_succ _) (fun i live => ?_) ?_ ?_
    · by_cases same : i = slot
      · exact Or.inr (same ▸ ⟨rfl, rfl⟩)
      · exact Or.inl (Eq.trans (Function.update_of_ne same ..).symm live)
    · exact update_birthDate rfl rfl rfl
    · rintro objIndex ⟨impossible, _⟩
      cases impossible

theorem Touch.resides (monotone : Monotone p.clock) (touched : Touch p t t') (before : t.Resides p log) :
    t'.Resides p (extend log t t') := by
  cases touched with
  | status slot pageStatus scanned live =>
    exact before.silent rfl le_rfl (fun _ => id) (update_field Object.birthDate rfl)
  | promote slot live undecided =>
    refine before.emit monotone rfl (Nat.le_succ _) (fun _ => Or.inl) ?_ ?_
    · exact update_birthDate rfl rfl rfl
    · rintro objIndex ⟨impossible, _⟩
      cases impossible
  | demote slot live undecided aged =>
    refine before.emit monotone rfl (Nat.le_succ _) (fun _ => Or.inl) (fun i => Or.inr ⟨?_, ?_⟩) ?_
    · rintro (⟨impossible, _⟩ | ⟨impossible, _⟩) <;> cases impossible
    · refine update_field Object.birthDate ?_ i
      rfl
    · rintro objIndex ⟨_, target⟩
      exact ⟨slot, target.symm, live, aged⟩
  | undo slot live =>
    refine before.emit monotone rfl le_rfl (fun _ => Or.inl) (fun i => Or.inr ⟨?_, ?_⟩) ?_
    · rintro (impossible | impossible) <;> exact impossible
    · refine update_field Object.birthDate ?_ i
      rfl
    · exact fun objIndex impossible => impossible.elim
  | readClock => exact before.silent rfl (Nat.le_succ _) (fun _ => id) fun _ => rfl

theorem Write.resides (monotone : Monotone p.clock) (written : Write p t t') (before : t.Resides p log) :
    t'.Resides p (extend log t t') := by
  cases written with
  | store stored => exact stored.resides monotone before
  | free freed => exact freed.resides before
  | measure measured => exact measured.resides before
  | touch touched => exact touched.resides monotone before

theorem Logged.resides (monotone : Monotone p.clock) (logged : Logged p .start log t) : t.Resides p log := by
  induction logged with
  | refl => exact ⟨start_dated p, fun first entry last split => by simp at split⟩
  | tail _ write ih => exact write.resides monotone ih

/-- In every run an object is demoted only after it was inserted, and more than
five seconds after that and after every promotion of it so far. -/
theorem residence_time {statusMemoryPages : Nat → ℚ} {actions : List Action} {s : State}
    (monotone : Monotone p.clock) (executed : (State.start statusMemoryPages).run p actions = .ok s) :
    (∃ log, Logged p .start log s.table) ∧
      ∀ log, Logged p .start log s.table → log.map Prod.snd = s.table.trace ∧ Resident p log := by
  refine ⟨Writes.logged (State.run_writes executed), fun log logged => ?_⟩
  have kept := logged.resides monotone
  exact ⟨kept.dated.written, kept.resident⟩

def slowMachine : Platform := { machine with clock := fun n => 10 * n, pageSize := 33554432 }

def demotedOnce : List Action :=
  [.insertObject 7 33554432 134217728, .readAllocationStatus fun _ => 0, .policyDemotion [⟨0, 0, 0, 0, 0⟩]]

theorem residence_time_demoted : ∃ s, (State.start fun _ => 0).run slowMachine demotedOnce = .ok s ∧
    s.table.trace = [.order ⟨33554432, 134217728, 1, 0, .initialDataplacement, 1⟩,
      .order ⟨33554432, 134217728, 4, 0, .demotion, 2⟩] ∧
    ∃ log, Logged slowMachine .start log s.table ∧ log.map Prod.snd = s.table.trace ∧ Resident slowMachine log := by
  have monotone : Monotone slowMachine.clock := by
    intro first last le
    exact mul_le_mul_of_nonneg_left (Nat.cast_le.mpr le) (by decide +kernel)
  have passed : Runs.ends (fun s => s.table.trace = [.order ⟨33554432, 134217728, 1, 0, .initialDataplacement, 1⟩,
      .order ⟨33554432, 134217728, 4, 0, .demotion, 2⟩])
      ((State.start fun _ => 0).run slowMachine demotedOnce) = true := by decide +kernel
  obtain ⟨s, executed, trace⟩ := Runs.ends_ok passed
  obtain ⟨⟨log, logged⟩, kept⟩ := residence_time monotone executed
  exact ⟨s, executed, of_decide_eq_true trace, log, logged, kept log logged⟩

end OnlineScheduler
