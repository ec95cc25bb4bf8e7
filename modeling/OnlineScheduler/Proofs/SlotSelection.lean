import OnlineScheduler.Proofs.Ranges

/-! Which slot `_insert_object` takes. The cursor only ever advances, so the
search is sound until `MAX_OBJECTS` objects have been inserted, freed or not;
after that it starts past the end of the array. -/

namespace OnlineScheduler

variable {p : Platform} {t : Table}

def Table.liveSlots (t : Table) : Finset (Fin maxObjects) := Finset.univ.filter (fun i => t.objAlloc i = 1)

/-- What insertion owes its callers: a slot that was not live while there is
one, and `exit` otherwise. -/
def Recorder.SelectsSlot (p : Platform) (t : Table) : Prop :=
  ∀ pid startAddr size sliced,
    (t.liveSlots.card < maxObjects → ∃ slot t',
      insertObjectSlot p pid startAddr size sliced t = .ok t' ∧ t.objAlloc slot ≠ 1 ∧
      t'.objAlloc = Function.update t.objAlloc slot 1 ∧ (t'.objVector slot).startAddr = startAddr ∧
      (t'.objVector slot).size = size ∧ ∀ i, i ≠ slot → t'.objVector i = t.objVector i) ∧
    (t.liveSlots.card = maxObjects → insertObjectSlot p pid startAddr size sliced t = .error .exit)

theorem Table.liveSlots_le (t : Table) : t.liveSlots.card ≤ maxObjects := by
  have bound := Finset.card_le_univ t.liveSlots
  rwa [Fintype.card_fin] at bound

theorem Table.liveSlots_card : t.liveSlots.card < maxObjects ↔ ∃ i, t.objAlloc i ≠ 1 := by
  constructor
  · intro below
    by_contra full
    push Not at full
    have every : t.liveSlots = Finset.univ := Finset.filter_true_of_mem (fun i _ => full i)
    rw [every, Finset.card_univ, Fintype.card_fin] at below
    exact Nat.lt_irrefl _ below
  · rintro ⟨i, free⟩
    apply Nat.lt_of_le_of_ne t.liveSlots_le
    intro full
    have every := Finset.eq_univ_of_card t.liveSlots (full.trans (Fintype.card_fin _).symm)
    have member : i ∈ t.liveSlots := every ▸ Finset.mem_univ i
    exact free (Finset.mem_filter.mp member).2

namespace Recorder

theorem insertObjectSlot_room (pid : BitVec 32) (startAddr size : BitVec 64) (sliced : Int) (valid : t.Valid)
    (room : t.totalObj < maxObjects) : ∃ slot : Fin maxObjects,
      t.objAlloc slot ≠ 1 ∧
      insertObjectSlot p pid startAddr size sliced t = .ok (storeObject p pid startAddr size sliced slot t) := by
  obtain ⟨free, found⟩ := valid.search room
  exact ⟨_, free, insertObjectSlot_ok.mpr ⟨_, found, rfl⟩⟩

theorem insertObjectSlot_full (pid : BitVec 32) (startAddr size : BitVec 64) (sliced : Int) (valid : t.Valid)
    (full : t.totalObj = maxObjects) :
    insertObjectSlot p pid startAddr size sliced t = .error (.outOfBounds maxObjects) := by
  have past : maxObjects ≤ t.index := Nat.le_of_eq (full.symm.trans valid.cursor.symm)
  rw [insertObjectSlot, searchSlot_past _ past, valid.cursor, full]
  rfl

theorem selectsSlot_valid (valid : t.Valid) : SelectsSlot p t ↔ t.totalObj < maxObjects := by
  constructor
  · intro selects
    by_contra none
    have full : t.totalObj = maxObjects := Nat.le_antisymm valid.bounded (Nat.le_of_not_lt none)
    obtain ⟨stores, exits⟩ := selects 0 0 0 0
    rw [insertObjectSlot_full 0 0 0 0 valid full] at stores exits
    rcases Nat.lt_or_ge t.liveSlots.card maxObjects with below | all
    · obtain ⟨_, _, impossible, _⟩ := stores below
      cases impossible
    · cases exits (Nat.le_antisymm t.liveSlots_le all)
  · intro room pid startAddr size sliced
    obtain ⟨slot, free, stored⟩ := insertObjectSlot_room (p := p) pid startAddr size sliced valid room
    constructor
    · intro _
      refine ⟨slot, _, stored, free, rfl, ?_, ?_, ?_⟩
      · simp [storeObject, bindOrder, writeOrder, getMyTimestamp]
      · simp [storeObject, bindOrder, writeOrder, getMyTimestamp]
      · intro i apart
        exact Function.update_of_ne apart ..
    · intro all
      have below := Table.liveSlots_card.mpr ⟨slot, free⟩
      omega

end Recorder

def Action.OfRecorder : Action → Prop
  | .insertObject .. | .deallocateObject .. => True
  | _ => False

theorem State.run_room {s : State} {actions : List Action} (recorder : ∀ action ∈ actions, action.OfRecorder)
    (valid : s.table.Valid) (room : s.table.totalObj + insertions actions ≤ maxObjects) :
    ∃ s', s.run p actions = .ok s' := by
  induction actions generalizing s with
  | nil => exact ⟨s, rfl⟩
  | cons action rest ih =>
    rw [insertions, List.map_cons, List.sum_cons, ← insertions] at room
    have first : ∃ middle, s.step p action = .ok middle := by
      cases action with
      | insertObject pid startAddr size =>
        have fits : s.table.totalObj + (Recorder.chunks startAddr size).length ≤ maxObjects := by
          rw [Action.insertions] at room
          omega
        obtain ⟨table, stored⟩ := Recorder.insertObject_room p pid valid fits
        exact ⟨_, insert_step stored⟩
      | deallocateObject pid startAddr size => exact ⟨_, rfl⟩
      | _ => exact False.elim (recorder _ List.mem_cons_self)
    obtain ⟨middle, executed⟩ := first
    obtain ⟨middleValid, total⟩ := step_valid executed valid
    obtain ⟨s', remaining⟩ := ih (fun later member => recorder later (List.mem_cons_of_mem _ member)) middleValid
      (by omega)
    exact ⟨s', Runs.cons_ok.mpr ⟨middle, executed, remaining⟩⟩

/-- In every reachable state the next insertion does what it should exactly
when fewer than `MAX_OBJECTS` insertions came before it. -/
theorem slot_selection {statusMemoryPages : Nat → ℚ} {actions : List Action} {s : State}
    (executed : (State.start statusMemoryPages).run p actions = .ok s) :
    Recorder.SelectsSlot p s.table ↔ insertions actions < maxObjects := by
  obtain ⟨valid, total⟩ := State.run_valid executed
  rw [Recorder.selectsSlot_valid valid, total]

theorem slot_selection_mapping : ∃ s,
    (State.start fun _ => 0).run machine [.insertObject 7 4096 3000000000, .deallocateObject 7 4096 3000000000] = .ok s ∧
    Recorder.SelectsSlot machine s.table := by
  have executed : (State.start fun _ => 0).run machine
    [.insertObject 7 4096 3000000000, .deallocateObject 7 4096 3000000000] = .ok _ := rfl
  exact ⟨_, executed, (slot_selection executed).mpr (by decide)⟩

def churn (count : Nat) : List Action :=
  (List.replicate count [.insertObject 7 4096 4096, .deallocateObject 7 4096 4096]).flatten

theorem churn_succ (count : Nat) :
    churn (count + 1) = [.insertObject 7 4096 4096, .deallocateObject 7 4096 4096] ++ churn count := by
  rw [churn, List.replicate_succ, List.flatten_cons, ← churn]

theorem churn_recorder (count : Nat) : ∀ action ∈ churn count, action.OfRecorder := by
  intro action member
  obtain ⟨calls, listed, member⟩ := List.mem_flatten.mp member
  rw [List.eq_of_mem_replicate listed] at member
  simp only [List.mem_cons, List.not_mem_nil, or_false] at member
  rcases member with rfl | rfl <;> trivial

theorem churn_insertions (count : Nat) : insertions (churn count) = count := by
  induction count with
  | zero => rfl
  | succ count ih =>
    rw [churn_succ, insertions, List.map_append, List.sum_append, ← insertions, ← insertions, ih, Nat.add_comm]
    exact congrArg (count + ·) (by decide)

theorem churn_ranges (count : Nat) : (churn count).foldl Action.onRanges 0 = 0 := by
  induction count with
  | zero => rfl
  | succ count ih =>
    rw [churn_succ, List.foldl_append]
    exact (congrArg ((churn count).foldl Action.onRanges) (by decide)).trans ih

theorem churn_run (count : Nat) (room : count ≤ maxObjects) : ∃ s,
    (State.start fun _ => 0).run machine (churn count) = .ok s ∧ s.table.Valid ∧ s.table.totalObj = count ∧
      s.table.ranges = 0 := by
  obtain ⟨s, executed⟩ := State.run_room (p := machine) (s := .start fun _ => 0) (churn_recorder count) start_valid
    (by rw [churn_insertions]; exact (Nat.zero_add count).trans_le room)
  obtain ⟨valid, total⟩ := State.run_valid executed
  refine ⟨s, executed, valid, total.trans (churn_insertions count), ?_⟩
  rw [State.run_ranges executed start_valid]
  exact (congrArg ((churn count).foldl Action.onRanges) start_ranges).trans (churn_ranges count)

/-- After `MAX_OBJECTS` objects have come and gone no slot is live, and the next
insertion reads past the array. -/
theorem slot_selection_exhausted : ∃ s,
    (State.start fun _ => 0).run machine (churn maxObjects) = .ok s ∧ s.table.liveSlots = ∅ ∧
    Recorder.insertObjectSlot machine 7 4096 4096 0 s.table = .error (.outOfBounds 2000) ∧
    ¬ Recorder.SelectsSlot machine s.table := by
  obtain ⟨s, executed, valid, full, empty⟩ := churn_run maxObjects (Nat.le_refl _)
  refine ⟨s, executed, ?_, Recorder.insertObjectSlot_full 7 4096 4096 0 valid full, ?_⟩
  · apply Finset.eq_empty_of_forall_notMem
    intro i member
    have present := Slots.mem_bag.mpr ⟨i, Table.slots_live (Finset.mem_filter.mp member).2⟩
    rw [← Table.ranges, empty] at present
    exact Multiset.notMem_zero _ present
  · rw [Recorder.selectsSlot_valid valid, full]
    exact Nat.lt_irrefl _

end OnlineScheduler
