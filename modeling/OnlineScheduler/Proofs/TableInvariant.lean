import OnlineScheduler.Proofs.Writes
import Mathlib.Data.Fintype.Card

/-! The object table over whole runs. The cursor of insertion, the object count
and the number of insertions move together, so every live slot lies below the
count and a slot at or above it was never used. -/

namespace OnlineScheduler

open Relation

variable {p : Platform} {t t' : Table}

structure Table.Valid (t : Table) : Prop where
  cursor : t.index = t.totalObj
  bounded : t.totalObj ≤ maxObjects
  unused : ∀ i : Fin maxObjects, t.totalObj ≤ i.val →
    t.objAlloc i = 0 ∧ (t.objVector i).metrics = .zero ∧ (t.objVector i).lastDecision = -1

theorem Table.Valid.live_below (valid : t.Valid) {i : Fin maxObjects} (live : t.objAlloc i = 1) :
    i.val < t.totalObj := by
  by_contra above
  have free := (valid.unused i (by omega)).1
  omega

theorem start_valid : Table.start.Valid :=
  ⟨rfl, Nat.zero_le _, fun _ _ => ⟨rfl, rfl, rfl⟩⟩

namespace Recorder

theorem searchSlot_here {objAlloc : Fin maxObjects → Int} {index : Nat} (inside : index < maxObjects)
    (free : objAlloc ⟨index, inside⟩ ≠ 1) :
    searchSlot objAlloc (maxObjects - index) index = .ok ⟨index, inside⟩ := by
  obtain ⟨left, same⟩ : ∃ left, maxObjects - index = left + 1 := ⟨maxObjects - index - 1, by omega⟩
  simp only [same, searchSlot, inside, dite_true, if_neg free]

theorem searchSlot_past (objAlloc : Fin maxObjects → Int) {index : Nat} (outside : maxObjects ≤ index) :
    searchSlot objAlloc (maxObjects - index) index = .error (.outOfBounds index) := by
  rw [Nat.sub_eq_zero_of_le outside, searchSlot]

end Recorder

theorem Table.Valid.search (valid : t.Valid) (room : t.totalObj < maxObjects) :
    t.objAlloc ⟨t.totalObj, room⟩ ≠ 1 ∧
      Recorder.searchSlot t.objAlloc (maxObjects - t.index) t.index = .ok ⟨t.totalObj, room⟩ := by
  have free := (valid.unused ⟨t.totalObj, room⟩ (Nat.le_refl _)).1
  rw [valid.cursor]
  exact ⟨by omega, Recorder.searchSlot_here room (by omega)⟩

theorem Table.Valid.found (valid : t.Valid) {slot : Fin maxObjects}
    (found : Recorder.searchSlot t.objAlloc (maxObjects - t.index) t.index = .ok slot) :
    slot.val = t.totalObj := by
  by_cases room : t.totalObj < maxObjects
  · rw [(valid.search room).2] at found
    cases found
    rfl
  · rw [valid.cursor, Recorder.searchSlot_past _ (Nat.le_of_not_lt room)] at found
    cases found

theorem Store.valid (stored : Store p t t') (valid : t.Valid) :
    t'.Valid ∧ t'.totalObj = t.totalObj + 1 := by
  cases stored with
  | store pid startAddr size sliced slot found =>
    have here := valid.found found
    refine ⟨⟨congrArg (· + 1) here, ?_, ?_⟩, rfl⟩
    · change t.totalObj + 1 ≤ maxObjects
      omega
    · intro i above
      change t.totalObj + 1 ≤ i.val at above
      have apart : i ≠ slot := by intro same; subst same; omega
      simpa [Recorder.storeObject, Recorder.bindOrder, writeOrder, getMyTimestamp, apart] using
        valid.unused i (by omega)

theorem Free.frame (freed : Free t t') :
    t'.objVector = t.objVector ∧ t'.totalObj = t.totalObj ∧ t'.index = t.index ∧
      ∀ i, t'.objAlloc i = t.objAlloc i ∨ t.objAlloc i = 1 ∧ t'.objAlloc i = 0 := by
  cases freed with
  | free slot scanned live =>
    refine ⟨rfl, rfl, rfl, fun i => ?_⟩
    by_cases same : i = slot
    · subst same; exact Or.inr ⟨live, Function.update_self ..⟩
    · exact Or.inl (Function.update_of_ne same ..)

theorem Free.valid (freed : Free t t') (valid : t.Valid) : t'.Valid := by
  obtain ⟨objects, total, index, alloc⟩ := freed.frame
  refine ⟨by rw [total, index]; exact valid.cursor, by rw [total]; exact valid.bounded, ?_⟩
  intro i above
  rw [total] at above
  obtain ⟨free, past⟩ := valid.unused i above
  rw [objects]
  rcases alloc i with same | ⟨live, _⟩
  · exact ⟨same.trans free, past⟩
  · omega

/-- What a write leaves alone that neither fills nor empties a slot. -/
structure Table.Same (t t' : Table) : Prop where
  alloc : t'.objAlloc = t.objAlloc
  total : t'.totalObj = t.totalObj
  index : t'.index = t.index
  startAddr : ∀ i, (t'.objVector i).startAddr = (t.objVector i).startAddr
  endAddr : ∀ i, (t'.objVector i).endAddr = (t.objVector i).endAddr
  size : ∀ i, (t'.objVector i).size = (t.objVector i).size
  dead : ∀ i, t.objAlloc i ≠ 1 → t'.objVector i = t.objVector i

theorem Table.Same.refl (t : Table) : t.Same t :=
  ⟨rfl, rfl, rfl, fun _ => rfl, fun _ => rfl, fun _ => rfl, fun _ _ => rfl⟩

theorem Table.Same.trans {a b c : Table} (first : a.Same b) (last : b.Same c) : a.Same c where
  alloc := last.alloc.trans first.alloc
  total := last.total.trans first.total
  index := last.index.trans first.index
  startAddr i := (last.startAddr i).trans (first.startAddr i)
  endAddr i := (last.endAddr i).trans (first.endAddr i)
  size i := (last.size i).trans (first.size i)
  dead i free := (last.dead i (by rw [first.alloc]; exact free)).trans (first.dead i free)

private theorem same_update {slot : Fin maxObjects} {object : Object} (live : t.objAlloc slot = 1)
    (alloc : t'.objAlloc = t.objAlloc) (total : t'.totalObj = t.totalObj) (index : t'.index = t.index)
    (updated : t'.objVector = Function.update t.objVector slot object)
    (startAddr : object.startAddr = (t.objVector slot).startAddr)
    (endAddr : object.endAddr = (t.objVector slot).endAddr)
    (size : object.size = (t.objVector slot).size) : t.Same t' := by
  refine ⟨alloc, total, index, ?_, ?_, ?_, ?_⟩
  · exact fun i => by rw [updated, update_field Object.startAddr startAddr]
  · exact fun i => by rw [updated, update_field Object.endAddr endAddr]
  · exact fun i => by rw [updated, update_field Object.size size]
  · intro i free
    have apart : i ≠ slot := by intro same; subst same; exact free live
    rw [updated, Function.update_of_ne apart]

theorem Measure.same (measured : Measure t t') : t.Same t' := by
  cases measured with
  | measure slot metrics scanned live => exact same_update live rfl rfl rfl rfl rfl rfl rfl

theorem Measures.same (measured : Measures t t') : t.Same t' := by
  refine preserved ?_ measured (.refl t)
  intro before after last same
  exact same.trans last.same

theorem Touch.same (touched : Touch p t t') : t.Same t' := by
  cases touched with
  | status slot pageStatus scanned live => exact same_update live rfl rfl rfl rfl rfl rfl rfl
  | promote slot live undecided => exact same_update live rfl rfl rfl rfl rfl rfl rfl
  | demote slot live undecided aged => exact same_update live rfl rfl rfl rfl rfl rfl rfl
  | undo slot live => exact same_update live rfl rfl rfl rfl rfl rfl rfl
  | readClock => exact ⟨rfl, rfl, rfl, fun _ => rfl, fun _ => rfl, fun _ => rfl, fun _ _ => rfl⟩

theorem Touches.same (touched : Touches p t t') : t.Same t' := by
  refine preserved ?_ touched (.refl t)
  intro before after last same
  exact same.trans last.same

theorem Table.Same.valid (same : t.Same t') (valid : t.Valid) : t'.Valid := by
  refine ⟨by rw [same.index, same.total]; exact valid.cursor, by rw [same.total]; exact valid.bounded, ?_⟩
  intro i above
  rw [same.total] at above
  have unused := valid.unused i above
  rw [same.alloc, same.dead i (by omega)]
  exact unused

theorem Write.valid (written : Write p t t') (valid : t.Valid) : t'.Valid := by
  cases written with
  | store stored => exact (stored.valid valid).1
  | free freed => exact freed.valid valid
  | measure measured => exact measured.same.valid valid
  | touch touched => exact touched.same.valid valid

theorem Frees.frame (freed : Frees t t') : t'.objVector = t.objVector ∧ t'.totalObj = t.totalObj := by
  induction freed with
  | refl => exact ⟨rfl, rfl⟩
  | tail _ last ih => exact ⟨last.frame.1.trans ih.1, last.frame.2.1.trans ih.2⟩

theorem Frees.live (freed : Frees t t') {i : Fin maxObjects} (live : t'.objAlloc i = 1) : t.objAlloc i = 1 := by
  induction freed with
  | refl => exact live
  | tail _ last ih =>
    apply ih
    rcases last.frame.2.2.2 i with same | ⟨before, _⟩
    · exact same.symm.trans live
    · exact before

/-- What neither insertion nor deallocation does to a slot in use: it keeps its
object and does not turn live. -/
structure Table.Later (t t' : Table) : Prop where
  valid : t'.Valid
  total : t.totalObj ≤ t'.totalObj
  object : ∀ i : Fin maxObjects, i.val < t.totalObj → t'.objVector i = t.objVector i
  live : ∀ i : Fin maxObjects, i.val < t.totalObj → t'.objAlloc i = 1 → t.objAlloc i = 1

theorem Table.Later.refl (valid : t.Valid) : t.Later t :=
  ⟨valid, Nat.le_refl _, fun _ _ => rfl, fun _ _ => id⟩

theorem Table.Later.trans {a b c : Table} (first : a.Later b) (last : b.Later c) : a.Later c where
  valid := last.valid
  total := first.total.trans last.total
  object i used := (last.object i (used.trans_le first.total)).trans (first.object i used)
  live i used live := first.live i used (last.live i (used.trans_le first.total) live)

theorem Frees.later (freed : Frees t t') (valid : t.Valid) : t.Later t' where
  valid := preserved Free.valid freed valid
  total := Nat.le_of_eq freed.frame.2.symm
  object i _ := congrFun freed.frame.1 i
  live _ _ live := freed.live live

/-- The number of `_insert_object` calls an operation makes. -/
def Action.insertions : Action → Nat
  | .insertObject _ startAddr size => (Recorder.chunks startAddr size).length
  | _ => 0

def insertions (actions : List Action) : Nat := (actions.map Action.insertions).sum

theorem insertions_snoc (actions : List Action) (action : Action) :
    insertions (actions ++ [action]) = insertions actions + action.insertions := by
  rw [insertions, List.map_append, List.sum_append, List.map_singleton, List.sum_singleton, ← insertions]

namespace Recorder

theorem insertObjectSlot_store {pid : BitVec 32} {startAddr size : BitVec 64} {sliced : Int}
    (stored : insertObjectSlot p pid startAddr size sliced t = .ok t') : Store p t t' := by
  obtain ⟨slot, found, rfl⟩ := insertObjectSlot_ok.mp stored
  exact .store _ _ _ _ slot found

structure Holds (object : Object) (piece : Chunk) : Prop where
  startAddr : object.startAddr = piece.startAddr
  endAddr : object.endAddr = piece.startAddr + piece.size
  size : object.size = piece.size
  metrics : object.metrics = .zero
  lastDecision : object.lastDecision = -1

/-- The pieces went, in order, to the slots from `total_obj` on. -/
structure Inserted (t t' : Table) (pieces : List Chunk) : Prop where
  valid : t'.Valid
  total : t'.totalObj = t.totalObj + pieces.length
  old : ∀ i : Fin maxObjects, i.val < t.totalObj → t'.objVector i = t.objVector i ∧ t'.objAlloc i = t.objAlloc i
  new : ∀ (k : Nat) (piece : Chunk), pieces[k]? = some piece →
    ∃ i : Fin maxObjects, i.val = t.totalObj + k ∧ t'.objAlloc i = 1 ∧ Holds (t'.objVector i) piece

theorem insertObjectSlot_inserted {pid : BitVec 32} {piece : Chunk} (valid : t.Valid)
    (stored : insertObjectSlot p pid piece.startAddr piece.size piece.sliced t = .ok t') :
    Inserted t t' [piece] := by
  obtain ⟨after, total⟩ := (insertObjectSlot_store stored).valid valid
  obtain ⟨slot, found, rfl⟩ := insertObjectSlot_ok.mp stored
  have here := valid.found found
  refine ⟨after, total, ?_, ?_⟩
  · intro i below
    have apart : i ≠ slot := by intro same; subst same; omega
    simp [storeObject, bindOrder, writeOrder, getMyTimestamp, apart]
  · intro k held found
    have first : k = 0 ∧ held = piece := by
      cases k with
      | zero => simpa using found.symm
      | succ k => simp at found
    obtain ⟨rfl, rfl⟩ := first
    obtain ⟨_, metrics, decision⟩ := valid.unused slot (by omega)
    refine ⟨slot, here, ?_, ?_⟩
    · simp [storeObject, bindOrder, writeOrder, getMyTimestamp]
    · constructor <;> simp [storeObject, bindOrder, writeOrder, getMyTimestamp, metrics, decision]

theorem Inserted.cons {middle : Table} {piece : Chunk} {rest : List Chunk}
    (first : Inserted t middle [piece]) (remaining : Inserted middle t' rest) :
    Inserted t t' (piece :: rest) := by
  have total := first.total
  rw [List.length_singleton] at total
  refine ⟨remaining.valid, ?_, ?_, ?_⟩
  · rw [remaining.total, total, List.length_cons]
    omega
  · intro i below
    obtain ⟨object, alloc⟩ := remaining.old i (by omega)
    obtain ⟨object', alloc'⟩ := first.old i below
    exact ⟨object.trans object', alloc.trans alloc'⟩
  · intro k held found
    cases k with
    | zero =>
      obtain ⟨i, position, live, holds⟩ := first.new 0 held (by simpa using found)
      obtain ⟨object, alloc⟩ := remaining.old i (by omega)
      exact ⟨i, position, alloc.trans live, by rw [object]; exact holds⟩
    | succ k =>
      obtain ⟨i, position, live, holds⟩ := remaining.new k held (by simpa using found)
      exact ⟨i, by omega, live, holds⟩

theorem insertObject_inserted {pid : BitVec 32} {startAddr size : BitVec 64} (valid : t.Valid)
    (inserted : insertObject p pid startAddr size t = .ok t') : Inserted t t' (chunks startAddr size) := by
  rw [insertObject, splitObject_eq] at inserted
  generalize chunks startAddr size = pieces at inserted ⊢
  induction pieces generalizing t with
  | nil =>
    cases inserted
    exact ⟨valid, rfl, fun _ _ => ⟨rfl, rfl⟩, fun _ _ impossible => by simp at impossible⟩
  | cons piece rest ih =>
    obtain ⟨middle, stored, remaining⟩ := Runs.cons_ok.mp inserted
    have first := insertObjectSlot_inserted valid stored
    exact first.cons (ih first.valid remaining)

theorem Inserted.fresh {pieces : List Chunk} (inserted : Inserted t t' pieces) {i : Fin maxObjects}
    (free : t.objAlloc i ≠ 1) (live : t'.objAlloc i = 1) :
    ∃ k piece, i.val = t.totalObj + k ∧ pieces[k]? = some piece ∧ Holds (t'.objVector i) piece := by
  have above : t.totalObj ≤ i.val := by
    by_contra below
    exact free ((inserted.old i (by omega)).2.symm.trans live)
  have below := inserted.valid.live_below live
  have total := inserted.total
  have inside : i.val - t.totalObj < pieces.length := by omega
  obtain ⟨j, position, _, holds⟩ := inserted.new _ _ (List.getElem?_eq_getElem inside)
  have same : j = i := Fin.ext (by omega)
  subst same
  exact ⟨_, _, by omega, List.getElem?_eq_getElem inside, holds⟩

theorem Inserted.later {pieces : List Chunk} (inserted : Inserted t t' pieces) : t.Later t' where
  valid := inserted.valid
  total := by rw [inserted.total]; exact Nat.le_add_right _ _
  object i used := (inserted.old i used).1
  live i used live := (inserted.old i used).2.symm.trans live

theorem insertObject_room (p : Platform) (pid : BitVec 32) {startAddr size : BitVec 64} (valid : t.Valid)
    (room : t.totalObj + (chunks startAddr size).length ≤ maxObjects) :
    ∃ t', insertObject p pid startAddr size t = .ok t' := by
  rw [insertObject, splitObject_eq]
  generalize chunks startAddr size = pieces at room ⊢
  induction pieces generalizing t with
  | nil => exact ⟨t, rfl⟩
  | cons piece rest ih =>
    rw [List.length_cons] at room
    have stored : insertObjectSlot p pid piece.startAddr piece.size piece.sliced t = .ok _ :=
      insertObjectSlot_ok.mpr ⟨_, (valid.search (by omega)).2, rfl⟩
    obtain ⟨middleValid, total⟩ := (insertObjectSlot_store stored).valid valid
    obtain ⟨t', remaining⟩ := ih middleValid (by rw [total]; omega)
    exact ⟨t', Runs.cons_ok.mpr ⟨_, stored, remaining⟩⟩

end Recorder

namespace State

theorem step_valid {s s' : State} {action : Action} (executed : s.step p action = .ok s')
    (valid : s.table.Valid) :
    s'.table.Valid ∧ s'.table.totalObj = s.table.totalObj + action.insertions := by
  refine ⟨preserved Write.valid (step_writes executed) valid, ?_⟩
  have effect := step_effect executed
  cases action with
  | insertObject pid startAddr size =>
    exact (Recorder.insertObject_inserted valid (step_insert executed)).total
  | deallocateObject => exact (Frees.frame effect).2
  | updateMetrics => exact (Measures.same effect).total
  | _ => exact (Touches.same effect).total

theorem run_valid {statusMemoryPages : Nat → ℚ} {actions : List Action} {s : State}
    (executed : (start statusMemoryPages).run p actions = .ok s) :
    s.table.Valid ∧ s.table.totalObj = insertions actions := by
  obtain ⟨valid, total⟩ := Runs.counted (fun s => s.table.Valid) (fun s => s.table.totalObj)
    Action.insertions (fun _ _ _ => step_valid) executed start_valid
  exact ⟨valid, total.trans (Nat.zero_add _)⟩

end State

def slotsFrom (first count : Nat) : List (Fin maxObjects) :=
  (List.range count).filterMap (fun k => if inside : first + k < maxObjects then some ⟨first + k, inside⟩ else none)

theorem scan_add (first count : Nat) : scan (first + count) = scan first ++ slotsFrom first count := by
  simp only [scan, slotsFrom, List.range_add, List.filterMap_append, List.filterMap_map, Function.comp_def]

theorem slotsFrom_succ (i : Fin maxObjects) (count : Nat) :
    slotsFrom i.val (count + 1) = i :: slotsFrom (i.val + 1) count := by
  simp only [slotsFrom, List.range_succ_eq_map, List.filterMap_cons, Nat.add_zero, i.isLt, dite_true,
    List.filterMap_map, Function.comp_def, Nat.succ_eq_add_one, Fin.eta]
  congr 2
  funext k
  simp only [Nat.add_comm k 1, Nat.add_assoc]

theorem mem_slotsFrom {first count : Nat} {i : Fin maxObjects} :
    i ∈ slotsFrom first count ↔ first ≤ i.val ∧ i.val < first + count := by
  simp only [slotsFrom, List.mem_filterMap, List.mem_range]
  constructor
  · rintro ⟨k, below, found⟩
    split at found
    · cases found
      simp only
      omega
    · cases found
  · rintro ⟨above, below⟩
    refine ⟨i.val - first, by omega, ?_⟩
    have same : first + (i.val - first) = i.val := by omega
    simp only [same, i.isLt, dite_true]

theorem scan_first {first bound : Nat} (below : first ≤ bound) : scan first <+: scan bound := by
  obtain ⟨count, rfl⟩ := Nat.exists_eq_add_of_le below
  exact ⟨_, (scan_add first count).symm⟩

theorem scan_succ (i : Fin maxObjects) : scan (i.val + 1) = scan i.val ++ [i] := by
  rw [scan_add, slotsFrom_succ]
  rfl

theorem scan_min (bound : Nat) : scan bound = scan (min bound maxObjects) := by
  rcases Nat.le_total bound maxObjects with inside | past
  · rw [Nat.min_eq_left inside]
  · obtain ⟨count, rfl⟩ := Nat.exists_eq_add_of_le past
    have none : slotsFrom maxObjects count = [] := by
      apply List.eq_nil_iff_forall_not_mem.mpr
      intro i member
      exact Nat.not_lt.mpr (mem_slotsFrom.mp member).1 i.isLt
    rw [Nat.min_eq_right past, scan_add, none, List.append_nil]

theorem scan_find {bound : Nat} {holds : Fin maxObjects → Bool} {i : Fin maxObjects} (inside : i.val < bound)
    (here : holds i = true) : (scan bound).find? holds = some i ↔ ∀ j < i, holds j = false := by
  obtain ⟨count, same⟩ := Nat.exists_eq_add_of_lt inside
  have split : scan bound = scan i.val ++ i :: slotsFrom (i.val + 1) count := by
    rw [same, Nat.add_assoc, scan_add, slotsFrom_succ]
  have before : (scan i.val).find? holds = none ↔ ∀ j < i, holds j = false := by
    simp only [List.find?_eq_none, mem_scan, Bool.not_eq_true, Fin.lt_def]
  rw [← before, split, List.find?_append, List.find?_cons, here]
  cases found : (scan i.val).find? holds with
  | none => simp
  | some j =>
    have apart : j ≠ i := by
      have below := mem_scan.mp (List.mem_of_find?_eq_some found)
      intro equal
      subst equal
      omega
    simp [apart]

/-- A scan bounded by `total_obj` meets the same live slots, in the same order,
as a scan over the whole array. -/
theorem Table.Valid.scan_live (valid : t.Valid) :
    (scan t.totalObj).filter (fun i => t.objAlloc i = 1) = (scan maxObjects).filter (fun i => t.objAlloc i = 1) := by
  obtain ⟨count, same⟩ := Nat.exists_eq_add_of_le valid.bounded
  have rest : (slotsFrom t.totalObj count).filter (fun i => t.objAlloc i = 1) = [] := by
    apply List.filter_eq_nil_iff.mpr
    intro i member
    have free := (valid.unused i (mem_slotsFrom.mp member).1).1
    simp [free]
  have whole : scan maxObjects = scan t.totalObj ++ slotsFrom t.totalObj count := by
    rw [← scan_add, ← same]
  rw [whole, List.filter_append, rest, List.append_nil]

theorem Table.Valid.vector_index (valid : t.Valid) (chave : BitVec 64) :
    Monitor.getVectorIndex chave t = (scan t.totalObj).find? (fun i =>
      (t.objVector i).startAddr ≤ chave ∧ chave ≤ (t.objVector i).endAddr ∧ t.objAlloc i = 1) := by
  have narrowed (slots : List (Fin maxObjects)) :
      slots.filter (fun i => (t.objVector i).startAddr ≤ chave ∧ chave ≤ (t.objVector i).endAddr ∧ t.objAlloc i = 1) =
        (slots.filter (fun i => t.objAlloc i = 1)).filter (fun i =>
          (t.objVector i).startAddr ≤ chave ∧ chave ≤ (t.objVector i).endAddr) := by
    rw [List.filter_filter]
    congr 1
    funext i
    simp [Bool.and_assoc]
  rw [Monitor.getVectorIndex, ← List.head?_filter, ← List.head?_filter, narrowed, narrowed, valid.scan_live]

/-- The object table in every state of every run. A run stops at the insertion
that finds no slot, so the states reached are those with room for all of them. -/
theorem object_table_invariant {statusMemoryPages : Nat → ℚ} {actions : List Action} {s : State}
    (executed : (State.start statusMemoryPages).run p actions = .ok s) :
    (s.table.index = s.table.totalObj ∧ s.table.totalObj = insertions actions) ∧
    (∀ i, s.table.objAlloc i = 1 → i.val < s.table.totalObj) ∧
    (∀ i : Fin maxObjects, s.table.totalObj ≤ i.val → s.table.objAlloc i = 0 ∧
      (s.table.objVector i).metrics = .zero ∧ (s.table.objVector i).lastDecision = -1) ∧
    ((scan s.table.totalObj).filter (fun i => s.table.objAlloc i = 1) =
        (scan maxObjects).filter (fun i => s.table.objAlloc i = 1) ∧
      ∀ chave, Monitor.getVectorIndex chave s.table = (scan s.table.totalObj).find? (fun i =>
        (s.table.objVector i).startAddr ≤ chave ∧ chave ≤ (s.table.objVector i).endAddr ∧ s.table.objAlloc i = 1)) ∧
    (∀ pid startAddr size s', s.step p (.insertObject pid startAddr size) = .ok s' →
      ∀ i, s.table.objAlloc i ≠ 1 → s'.table.objAlloc i = 1 →
        (s'.table.objVector i).metrics = .zero ∧ (s'.table.objVector i).lastDecision = -1) := by
  obtain ⟨valid, total⟩ := State.run_valid executed
  refine ⟨⟨valid.cursor, total⟩, fun i => valid.live_below, valid.unused,
    ⟨valid.scan_live, valid.vector_index⟩, ?_⟩
  intro pid startAddr size s' inserted i free live
  have filled := Recorder.insertObject_inserted valid (State.step_insert inserted)
  obtain ⟨_, piece, _, _, holds⟩ := filled.fresh free live
  exact ⟨holds.metrics, holds.lastDecision⟩

/-- A mapping of three pieces: the shared border of the first two goes to the
first, and the last is short. -/
theorem object_table_invariant_mapping : ∃ s,
    (State.start fun _ => 0).run machine [.insertObject 7 4096 3000000000, .updateMetrics fun _ => .zero] = .ok s ∧
    s.table.totalObj = 3 ∧
    (s.table.objVector 2).startAddr = 2000007168 ∧ (s.table.objVector 2).size = 999996928 ∧ s.table.objAlloc 2 = 1 ∧
    Monitor.getVectorIndex 1000005632 s.table = some 0 ∧ (s.table.objVector 3).metrics = .zero := by
  have passed : Runs.ends (fun s : State => (s.table.objVector 2).startAddr = 2000007168 ∧
      (s.table.objVector 2).size = 999996928 ∧ s.table.objAlloc 2 = 1 ∧
      (scan 3).find? (fun i => (s.table.objVector i).startAddr ≤ 1000005632 ∧
        1000005632 ≤ (s.table.objVector i).endAddr ∧ s.table.objAlloc i = 1) = some 0)
      ((State.start fun _ => 0).run machine
        [.insertObject 7 4096 3000000000, .updateMetrics fun _ => .zero]) = true := by decide +kernel
  obtain ⟨s, executed, reached⟩ := Runs.ends_ok passed
  obtain ⟨starts, sized, live, border⟩ := of_decide_eq_true reached
  obtain ⟨⟨_, total⟩, _, unused, ⟨_, found⟩, _⟩ := object_table_invariant executed
  have three : s.table.totalObj = 3 := total
  refine ⟨s, executed, three, starts, sized, live, ?_, ?_⟩
  · rw [found, three]
    exact border
  · exact (unused 3 three.le).2.1

end OnlineScheduler
