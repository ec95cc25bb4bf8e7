import OnlineScheduler.System
import OnlineScheduler.Proofs.Chunks
import OnlineScheduler.General.Runs
import Mathlib.Logic.Relation

/-! What the operations can do to the object table. Every operation is a
sequence of the writes below, so a property of the table is proved for a run by
proving it for each of them. -/

namespace OnlineScheduler

open Relation

@[simp] theorem mem_scan {bound : Nat} {i : Fin maxObjects} : i ∈ scan bound ↔ i.val < bound := by
  simp only [scan, List.mem_filterMap, List.mem_range]
  constructor
  · rintro ⟨j, below, found⟩
    split at found
    · cases found; exact below
    · cases found
  · exact fun below => ⟨i.val, below, by simp⟩

theorem scan_nodup (bound : Nat) : (scan bound).Nodup := by
  apply List.Nodup.filterMap _ List.nodup_range
  intro i j slot first second
  simp only [Option.mem_def, Option.dite_none_right_eq_some, Option.some.injEq] at first second
  obtain ⟨_, rfl⟩ := first
  obtain ⟨_, same⟩ := second
  exact (Fin.mk.inj same).symm

/-- One `_insert_object`: the only write that fills a slot. -/
inductive Store (p : Platform) (t : Table) : Table → Prop where
  | store (pid : BitVec 32) (startAddr size : BitVec 64) (sliced : Int) (slot : Fin maxObjects)
      (found : Recorder.searchSlot t.objAlloc (maxObjects - t.index) t.index = .ok slot) :
      Store p t (Recorder.storeObject p pid startAddr size sliced slot t)

/-- One `_deallocate_object`: the only write that empties a slot. -/
inductive Free (t : Table) : Table → Prop where
  | free (slot : Fin maxObjects) (scanned : slot.val < t.totalObj) (live : t.objAlloc slot = 1) :
      Free t { t with objAlloc := Function.update t.objAlloc slot 0 }

/-- The monitor's write: the only one that changes metrics. -/
inductive Measure (t : Table) : Table → Prop where
  | measure (slot : Fin maxObjects) (metrics : Metrics) (scanned : slot.val < t.totalObj)
      (live : t.objAlloc slot = 1) :
      Measure t { t with objVector := Function.update t.objVector slot { t.objVector slot with metrics } }

inductive Touch (p : Platform) (t : Table) : Table → Prop where
  | status (slot : Fin maxObjects) (pageStatus : Fin 4 → ℚ) (scanned : slot.val < t.totalObj)
      (live : t.objAlloc slot = 1) :
      Touch p t { t with objVector := Function.update t.objVector slot { t.objVector slot with pageStatus } }
  | promote (slot : Fin maxObjects) (live : t.objAlloc slot = 1)
      (undecided : (t.objVector slot).lastDecision ≠ node0Dram) : Touch p t (Actuator.promote p slot t)
  | demote (slot : Fin maxObjects) (live : t.objAlloc slot = 1)
      (undecided : (t.objVector slot).lastDecision ≠ node0Pmem)
      (aged : p.clock t.reads - (t.objVector slot).birthDate > Actuator.minLifetimeSec) :
      Touch p t (Actuator.demote slot (getMyTimestamp p t).2)
  | undo (slot : Fin maxObjects) (live : t.objAlloc slot = 1) : Touch p t (Actuator.undo slot t)
  | readClock : Touch p t (getMyTimestamp p t).2

inductive Write (p : Platform) (t t' : Table) : Prop where
  | store (stored : Store p t t')
  | free (freed : Free t t')
  | measure (measured : Measure t t')
  | touch (touched : Touch p t t')

abbrev Stores (p : Platform) : Table → Table → Prop := ReflTransGen (Store p)
abbrev Frees : Table → Table → Prop := ReflTransGen Free
abbrev Measures : Table → Table → Prop := ReflTransGen Measure
abbrev Touches (p : Platform) : Table → Table → Prop := ReflTransGen (Touch p)
abbrev Writes (p : Platform) : Table → Table → Prop := ReflTransGen (Write p)

variable {p : Platform} {t t' : Table}

theorem update_field {β : Type} (field : Object → β) {slot : Fin maxObjects} {object : Object}
    (same : field object = field (t.objVector slot)) (i : Fin maxObjects) :
    field (Function.update t.objVector slot object i) = field (t.objVector i) := by
  by_cases here : i = slot
  · subst here
    rw [Function.update_self, same]
  · rw [Function.update_of_ne here]

namespace Recorder

theorem insertObjectSlot_ok {pid : BitVec 32} {startAddr size : BitVec 64} {sliced : Int} :
    insertObjectSlot p pid startAddr size sliced t = .ok t' ↔
      ∃ slot, searchSlot t.objAlloc (maxObjects - t.index) t.index = .ok slot ∧
        t' = storeObject p pid startAddr size sliced slot t := by
  simp only [insertObjectSlot, Runs.bind_ok]
  constructor
  · rintro ⟨slot, found, stored⟩
    cases stored
    exact ⟨slot, found, rfl⟩
  · rintro ⟨slot, found, rfl⟩
    exact ⟨slot, found, rfl⟩

theorem insertObject_stores {pid : BitVec 32} {startAddr size : BitVec 64}
    (inserted : insertObject p pid startAddr size t = .ok t') : Stores p t t' := by
  rw [insertObject, splitObject_eq] at inserted
  refine Runs.related (Stores p) (fun _ => .refl) ReflTransGen.trans ?_ inserted
  intro piece _ before after stored
  obtain ⟨slot, found, rfl⟩ := insertObjectSlot_ok.mp stored
  exact .single (.store _ _ _ _ slot found)

theorem deallocateObjectSlot_frees (startAddr size : BitVec 64) (t : Table) :
    Frees t (deallocateObjectSlot startAddr size t) := by
  unfold deallocateObjectSlot
  split
  next slot found =>
    have matched := List.find?_some found
    have scanned := mem_scan.mp (List.mem_of_find?_eq_some found)
    simp only [decide_eq_true_eq] at matched
    exact .single (.free slot scanned matched.2.2)
  next => exact .refl

theorem deallocateObject_eq (pid : BitVec 32) (startAddr size : BitVec 64) (t : Table) :
    deallocateObject pid startAddr size t =
      (chunks startAddr size).foldl (fun t piece => deallocateObjectSlot piece.startAddr piece.size t) t := by
  simp only [deallocateObject, splitObject_eq, List.foldlM_pure, Id.run_pure]

theorem deallocateObject_frees (pid : BitVec 32) (startAddr size : BitVec 64) (t : Table) :
    Frees t (deallocateObject pid startAddr size t) := by
  rw [deallocateObject_eq]
  generalize chunks startAddr size = pieces
  induction pieces generalizing t with
  | nil => exact .refl
  | cons piece rest ih => exact (deallocateObjectSlot_frees _ _ t).trans (ih _)

end Recorder

theorem Monitor.updateMetrics_measures (copy : Fin maxObjects → Metrics) (t : Table) :
    Measures t (updateMetrics copy t) := by
  have fold (slots : List (Fin maxObjects)) (scanned : ∀ slot ∈ slots, slot.val < t.totalObj)
      (objVector : Fin maxObjects → Object) :
      Measures { t with objVector } { t with
        objVector := slots.foldl (fun objVector i =>
          if t.objAlloc i = 1 then
            Function.update objVector i
              { objVector i with metrics := updateObject (copy i) (objVector i).metrics }
          else objVector) objVector } := by
    induction slots generalizing objVector with
    | nil => exact .refl
    | cons slot rest ih =>
      have remaining := fun objVector => ih (fun later member => scanned later (by simp [member])) objVector
      rw [List.foldl_cons]
      split
      next live => exact .head (.measure slot _ (scanned slot (by simp)) live) (remaining _)
      next => exact remaining _
  exact fold (scan t.totalObj) (fun slot => mem_scan.mp) t.objVector

namespace Actuator

theorem promoteFrom_touches (currentFreeDram : ℚ) (ranked : List KeyValue) (maxMigrationGb : ℚ) (t : Table) :
    Touches p t (promoteFrom p currentFreeDram ranked maxMigrationGb t) := by
  induction ranked generalizing maxMigrationGb t with
  | nil => exact .refl
  | cons entry rest ih =>
    simp only [promoteFrom]
    split
    next eligible =>
      split
      next hot =>
        have ordered := Touch.promote (p := p) entry.key hot.2 eligible.2.2
        split
        · exact .single ordered
        · exact .head ordered (ih _ _)
      next => exact ih _ _
    next => exact ih _ _

theorem demoteFrom_touches (ranked : List KeyValue) (maxMigrationGb : ℚ) (t : Table) (hasDemotion : Int) :
    Touches p t (demoteFrom p ranked maxMigrationGb (t, hasDemotion)).1 := by
  induction ranked generalizing maxMigrationGb t hasDemotion with
  | nil => exact .refl
  | cons entry rest ih =>
    simp only [demoteFrom]
    split
    next large =>
      split
      next cold =>
        split
        next live =>
          have ordered := Touch.demote (p := p) (t := t) entry.key live cold.2.2 cold.1
          split
          · exact .single ordered
          · exact .head ordered (ih _ _ _)
        next => exact .head .readClock (ih _ _ _)
      next => exact .head .readClock (ih _ _ _)
    next => exact ih _ _ _

theorem copyStatus_ok {counters : Nat → ℚ} {object after : Object}
    (copied : copyStatus p counters object = .ok after) :
    ∃ pageStatus, after = { object with pageStatus } := by
  refine Runs.invariant (fun after => ∃ pageStatus, after = { object with pageStatus }) ?_ copied
    ⟨object.pageStatus, rfl⟩
  intro j _ before after stored ⟨pageStatus, same⟩
  split at stored
  · cases stored
    exact ⟨_, by rw [same]⟩
  · cases stored

theorem readAllocationStatus_touches {pages : BitVec 64 → Int} {counters counters' : Nat → ℚ}
    (read : readAllocationStatus p pages t counters = .ok (t', counters')) : Touches p t t' := by
  refine (Runs.invariant (fun s => Touches p t s.1 ∧ s.1.totalObj = t.totalObj) ?_ read ⟨.refl, rfl⟩).1
  · rintro slot member ⟨before, _⟩ ⟨after, _⟩ stored ⟨reached, total⟩
    simp only at stored reached total ⊢
    split at stored
    next live =>
      obtain ⟨object, copied, stored⟩ := Runs.bind_ok.mp stored
      obtain ⟨pageStatus, rfl⟩ := copyStatus_ok copied
      cases stored
      have scanned : slot.val < before.totalObj := by rw [total]; exact mem_scan.mp member
      exact ⟨reached.tail (.status slot pageStatus scanned live), total⟩
    next => cases stored; exact ⟨reached, total⟩

theorem slotAt_ok {i : Int} {slot : Fin maxObjects} : slotAt i = .ok slot ↔ i = slot.val := by
  unfold slotAt
  split
  next inside =>
    constructor
    · intro found
      cases found
      exact (Int.toNat_of_nonneg inside.1).symm
    · intro same
      congr 1
      exact Fin.ext (by simp [same])
  next outside =>
    constructor
    · intro impossible; cases impossible
    · intro same
      have bound := slot.isLt
      exact False.elim (outside (by omega))

theorem checkMigrationError_touches {records : List DataBind} (checked : checkMigrationError records t = .ok t') :
    Touches p t t' := by
  refine Runs.related (Touches p) (fun _ => .refl) ReflTransGen.trans ?_ checked
  intro record _ before after handled
  obtain ⟨slot, found, handled⟩ := Runs.bind_ok.mp handled
  split at handled
  next refused => cases handled; exact .single (.undo slot refused.1)
  next => cases handled; exact .refl

end Actuator

/-- The writes an operation is made of: insertion only fills slots,
deallocation only empties them, the monitor only changes metrics and the
actuator does none of this. -/
def Action.Effect (p : Platform) : Action → Table → Table → Prop
  | .insertObject .. => Stores p
  | .deallocateObject .. => Frees
  | .updateMetrics _ => Measures
  | _ => Touches p

theorem State.step_insert {s s' : State} {pid : BitVec 32} {startAddr size : BitVec 64}
    (executed : s.step p (.insertObject pid startAddr size) = .ok s') :
    Recorder.insertObject p pid startAddr size s.table = .ok s'.table := by
  obtain ⟨table, inserted, done⟩ := Runs.bind_ok.mp executed
  cases done
  exact inserted

theorem State.insert_step {s : State} {pid : BitVec 32} {startAddr size : BitVec 64} {table : Table}
    (inserted : Recorder.insertObject p pid startAddr size s.table = .ok table) :
    s.step p (.insertObject pid startAddr size) = .ok { s with table } := by
  rw [State.step, inserted]
  rfl

theorem State.step_deallocate {s s' : State} {pid : BitVec 32} {startAddr size : BitVec 64}
    (executed : s.step p (.deallocateObject pid startAddr size) = .ok s') :
    s'.table = Recorder.deallocateObject pid startAddr size s.table := by
  cases executed
  rfl

theorem State.step_effect {s s' : State} {action : Action} (executed : s.step p action = .ok s') :
    action.Effect p s.table s'.table := by
  cases action with
  | insertObject pid startAddr size => exact Recorder.insertObject_stores (step_insert executed)
  | deallocateObject pid startAddr size =>
    rw [step_deallocate executed]
    exact Recorder.deallocateObject_frees pid startAddr size s.table
  | updateMetrics copy =>
    cases executed
    exact Monitor.updateMetrics_measures copy s.table
  | sortObjects objIndex q =>
    obtain ⟨globals, sorted, done⟩ := Runs.bind_ok.mp executed
    cases done
    exact .refl
  | readAllocationStatus pages =>
    obtain ⟨⟨table, counters⟩, read, done⟩ := Runs.bind_ok.mp executed
    cases done
    exact Actuator.readAllocationStatus_touches read
  | policyPromotion currentFreeDram ranked =>
    cases executed
    exact Actuator.promoteFrom_touches currentFreeDram ranked _ s.table
  | policyDemotion ranked =>
    cases executed
    exact Actuator.demoteFrom_touches ranked.reverse _ s.table 0
  | checkMigrationError records =>
    obtain ⟨table, checked, done⟩ := Runs.bind_ok.mp executed
    cases done
    exact Actuator.checkMigrationError_touches checked

theorem State.step_writes {s s' : State} {action : Action} (executed : s.step p action = .ok s') :
    Writes p s.table s'.table := by
  have effect := step_effect executed
  cases action with
  | insertObject => exact ReflTransGen.mono (fun _ _ => Write.store) _ _ effect
  | deallocateObject => exact ReflTransGen.mono (fun _ _ => Write.free) _ _ effect
  | updateMetrics => exact ReflTransGen.mono (fun _ _ => Write.measure) _ _ effect
  | _ => exact ReflTransGen.mono (fun _ _ => Write.touch) _ _ effect

theorem State.run_writes {s s' : State} {actions : List Action} (executed : s.run p actions = .ok s') :
    Writes p s.table s'.table := by
  refine Runs.related (fun before after => Writes p before.table after.table) (fun _ => .refl)
    ReflTransGen.trans ?_ executed
  intro action _ before after stepped
  exact step_writes stepped

theorem preserved {relation : Table → Table → Prop} {holds : Table → Prop}
    (kept : ∀ {t t'}, relation t t' → holds t → holds t') (reached : ReflTransGen relation t t')
    (start : holds t) : holds t' := by
  induction reached with
  | refl => exact start
  | tail _ last ih => exact kept last ih

theorem unchanged {relation : Table → Table → Prop} {β : Type} (read : Table → β)
    (kept : ∀ {t t'}, relation t t' → read t' = read t) (reached : ReflTransGen relation t t') : read t' = read t := by
  induction reached with
  | refl => rfl
  | tail _ last ih => exact (kept last).trans ih

theorem Store.carries (stored : Store p t t') (i : Fin maxObjects) :
    (t'.objVector i).metrics = (t.objVector i).metrics ∧ (t'.objVector i).pageStatus = (t.objVector i).pageStatus := by
  cases stored with
  | store pid startAddr size sliced slot found =>
    constructor
    · refine update_field Object.metrics ?_ i
      rfl
    · refine update_field Object.pageStatus ?_ i
      rfl

theorem Measure.pageStatus (measured : Measure t t') (i : Fin maxObjects) :
    (t'.objVector i).pageStatus = (t.objVector i).pageStatus := by
  cases measured with
  | measure slot metrics scanned live =>
    refine update_field Object.pageStatus ?_ i
    rfl

end OnlineScheduler
