import OnlineScheduler.Proofs.TableInvariant
import OnlineScheduler.General.Slots

/-! What the object table is for: the multiset of live ranges. Insertion adds
the pieces of a mapping to it and deallocation takes them away, whichever slots
the pieces are in. -/

namespace OnlineScheduler

open Relation

variable {p : Platform} {t t' : Table}

abbrev Range := BitVec 64 × BitVec 64

/-- The slots as the recorder compares them: address and size of what is live. -/
def Table.slots (t : Table) (i : Fin maxObjects) : Option Range :=
  if t.objAlloc i = 1 then some ((t.objVector i).startAddr, (t.objVector i).size) else none

def Table.ranges (t : Table) : Multiset Range := Slots.bag t.slots

def Recorder.pieces (startAddr size : BitVec 64) : List Range :=
  (chunks startAddr size).map (fun piece => (piece.startAddr, piece.size))

/-- The abstract table: a multiset that only the recorder's two calls change. -/
def Action.onRanges (live : Multiset Range) : Action → Multiset Range
  | .insertObject _ startAddr size => live + ↑(Recorder.pieces startAddr size)
  | .deallocateObject _ startAddr size => live - ↑(Recorder.pieces startAddr size)
  | _ => live

theorem Table.slots_live {i : Fin maxObjects} (live : t.objAlloc i = 1) :
    t.slots i = some ((t.objVector i).startAddr, (t.objVector i).size) := if_pos live

theorem Table.slots_none {i : Fin maxObjects} : t.slots i = none ↔ t.objAlloc i ≠ 1 := by
  simp [Table.slots]

theorem Table.slots_some {i : Fin maxObjects} {range : Range} :
    t.slots i = some range ↔
      t.objAlloc i = 1 ∧ (t.objVector i).startAddr = range.1 ∧ (t.objVector i).size = range.2 := by
  simp only [Table.slots, Option.ite_none_right_eq_some, Option.some.injEq, Prod.ext_iff]

theorem Table.Same.slots (same : t.Same t') : t'.slots = t.slots := by
  funext i
  simp only [Table.slots, same.alloc, same.startAddr, same.size]

theorem Table.Later.slots {t t' : Table} (later : t.Later t') {i : Fin maxObjects} (live : t.objAlloc i = 1)
    (used : i.val < t.totalObj) (still : t'.objAlloc i = 1) : t'.slots i = t.slots i := by
  rw [Table.slots_live live, Table.slots_live still, later.object i used]

namespace Recorder

theorem pieces_nodup (startAddr size : BitVec 64) : (pieces startAddr size).Nodup := by
  apply List.Nodup.of_map Prod.fst
  rw [pieces, List.map_map]
  exact chunks_nodup startAddr size

theorem storeObject_slots (pid : BitVec 32) (startAddr size : BitVec 64) (sliced : Int)
    (slot : Fin maxObjects) (t : Table) :
    (storeObject p pid startAddr size sliced slot t).slots =
      Function.update t.slots slot (some (startAddr, size)) := by
  funext i
  by_cases same : i = slot
  · subst same
    simp [Table.slots, storeObject, bindOrder, writeOrder, getMyTimestamp]
  · simp [Table.slots, storeObject, bindOrder, writeOrder, getMyTimestamp, same]

theorem deallocateObjectSlot_slots (startAddr size : BitVec 64) (t : Table) :
    (deallocateObjectSlot startAddr size t).slots =
      Slots.removeFirst (scan t.totalObj) t.slots (startAddr, size) := by
  have matched : (fun i => decide ((t.objVector i).startAddr = startAddr ∧ (t.objVector i).size = size ∧
      t.objAlloc i = 1)) = fun i => decide (t.slots i = some (startAddr, size)) := by
    funext i
    rw [decide_eq_decide, Table.slots_some]
    exact ⟨fun ⟨first, second, live⟩ => ⟨live, first, second⟩, fun ⟨live, first, second⟩ => ⟨first, second, live⟩⟩
  unfold deallocateObjectSlot Slots.removeFirst
  rw [matched]
  cases (scan t.totalObj).find? (fun i => decide (t.slots i = some (startAddr, size))) with
  | none => rfl
  | some slot =>
    funext i
    by_cases same : i = slot
    · subst same
      simp [Table.slots]
    · simp [Table.slots, same]

theorem insertObjectSlot_ranges {pid : BitVec 32} {startAddr size : BitVec 64} {sliced : Int} (valid : t.Valid)
    (stored : insertObjectSlot p pid startAddr size sliced t = .ok t') :
    t'.ranges = (startAddr, size) ::ₘ t.ranges := by
  obtain ⟨slot, found, rfl⟩ := insertObjectSlot_ok.mp stored
  have unused := valid.unused slot (Nat.le_of_eq (valid.found found).symm)
  rw [Table.ranges, storeObject_slots]
  exact Slots.bag_store t.slots slot _ (Table.slots_none.mpr (by omega))

theorem Inserted.piece {t t' : Table} {startAddr size : BitVec 64} (inserted : Inserted t t' (chunks startAddr size))
    {i : Fin maxObjects} (free : t.objAlloc i ≠ 1) (live : t'.objAlloc i = 1) :
    ∃ piece ∈ pieces startAddr size, t'.slots i = some piece := by
  obtain ⟨k, chunk, _, found, holds⟩ := inserted.fresh free live
  refine ⟨_, List.mem_map_of_mem (List.mem_of_getElem? found), ?_⟩
  rw [Table.slots_live live, holds.startAddr, holds.size]

theorem insertObject_ranges {pid : BitVec 32} {startAddr size : BitVec 64} (valid : t.Valid)
    (inserted : insertObject p pid startAddr size t = .ok t') :
    t'.ranges = t.ranges + ↑(pieces startAddr size) := by
  rw [insertObject, splitObject_eq] at inserted
  rw [pieces]
  generalize chunks startAddr size = queue at inserted ⊢
  induction queue generalizing t with
  | nil => cases inserted; simp
  | cons piece rest ih =>
    obtain ⟨middle, stored, remaining⟩ := Runs.cons_ok.mp inserted
    have added := insertObjectSlot_ranges valid stored
    rw [ih (insertObjectSlot_inserted valid stored).valid remaining, added, List.map_cons, ← Multiset.cons_coe,
      Multiset.add_cons, Multiset.cons_add]

theorem deallocateObject_slots (pid : BitVec 32) (startAddr size : BitVec 64) (t : Table) :
    (deallocateObject pid startAddr size t).slots =
      (pieces startAddr size).foldl (Slots.removeFirst (scan t.totalObj)) t.slots := by
  rw [deallocateObject_eq, pieces]
  generalize chunks startAddr size = queue
  induction queue generalizing t with
  | nil => rfl
  | cons piece rest ih =>
    have total := (deallocateObjectSlot_frees piece.startAddr piece.size t).frame.2
    rw [List.foldl_cons, ih, total, deallocateObjectSlot_slots, List.map_cons, List.foldl_cons]

theorem deallocateObject_ranges (pid : BitVec 32) (startAddr size : BitVec 64) (valid : t.Valid) :
    (deallocateObject pid startAddr size t).ranges = t.ranges - ↑(pieces startAddr size) := by
  rw [Table.ranges, deallocateObject_slots]
  apply Slots.bag_removeAll
  intro i used
  have live : t.objAlloc i = 1 := by
    by_contra free
    exact used (Table.slots_none.mpr free)
  exact mem_scan.mpr (valid.live_below live)

end Recorder

theorem State.step_ranges {s s' : State} {action : Action} (executed : s.step p action = .ok s')
    (valid : s.table.Valid) : s'.table.ranges = action.onRanges s.table.ranges := by
  have effect := step_effect executed
  cases action with
  | insertObject => exact Recorder.insertObject_ranges valid (step_insert executed)
  | deallocateObject pid startAddr size =>
    rw [step_deallocate executed]
    exact Recorder.deallocateObject_ranges pid startAddr size valid
  | updateMetrics => exact congrArg Slots.bag (Measures.same effect).slots
  | _ => exact congrArg Slots.bag (Touches.same effect).slots

theorem State.run_ranges {s s' : State} {actions : List Action} (executed : s.run p actions = .ok s')
    (valid : s.table.Valid) : s'.table.ranges = actions.foldl Action.onRanges s.table.ranges := by
  induction actions generalizing s with
  | nil => cases executed; rfl
  | cons action rest ih =>
    obtain ⟨middle, first, remaining⟩ := Runs.cons_ok.mp executed
    rw [ih remaining (step_valid first valid).1, step_ranges first valid, List.foldl_cons]

theorem start_ranges : Table.start.ranges = 0 := by
  apply Multiset.eq_zero_of_forall_notMem
  intro range member
  obtain ⟨i, held⟩ := Slots.mem_bag.mp member
  cases held

/-- The table refines the multiset: along every run the live ranges are those
of the abstract table, and freeing what was just inserted undoes the insertion. -/
theorem table_refines_ranges {statusMemoryPages : Nat → ℚ} {actions : List Action} {s : State}
    (executed : (State.start statusMemoryPages).run p actions = .ok s) :
    s.table.ranges = actions.foldl Action.onRanges 0 ∧
    (∀ pid startAddr size, insertions (actions ++ [.insertObject pid startAddr size]) ≤ maxObjects →
      ∃ inserted, s.step p (.insertObject pid startAddr size) = .ok inserted ∧
        inserted.table.ranges = s.table.ranges + ↑(Recorder.pieces startAddr size) ∧
        ∃ restored, inserted.step p (.deallocateObject pid startAddr size) = .ok restored ∧
          restored.table.ranges = s.table.ranges) ∧
    (∀ pid startAddr size, ∃ removed, s.step p (.deallocateObject pid startAddr size) = .ok removed ∧
      removed.table.ranges = s.table.ranges - ↑(Recorder.pieces startAddr size)) := by
  obtain ⟨valid, total⟩ := State.run_valid executed
  refine ⟨?_, ?_, fun pid startAddr size => ⟨_, rfl, Recorder.deallocateObject_ranges pid startAddr size valid⟩⟩
  · rw [State.run_ranges executed start_valid]
    exact congrArg (actions.foldl Action.onRanges) start_ranges
  · intro pid startAddr size room
    have fits : s.table.totalObj + (Recorder.chunks startAddr size).length ≤ maxObjects := by
      rwa [insertions_snoc, ← total] at room
    obtain ⟨table, stored⟩ := Recorder.insertObject_room p pid valid fits
    have executed := State.insert_step stored
    have added := Recorder.insertObject_ranges valid stored
    have restored := Recorder.deallocateObject_ranges pid startAddr size (State.step_valid executed valid).1
    refine ⟨_, executed, added, _, rfl, ?_⟩
    calc (Recorder.deallocateObject pid startAddr size table).ranges
        = table.ranges - ↑(Recorder.pieces startAddr size) := restored
      _ = s.table.ranges := by rw [added]; exact Multiset.add_sub_cancel_right

/-- One mapping recorded twice and freed once leaves its three pieces, once each. -/
theorem table_refines_ranges_mapping : ∃ s,
    (State.start fun _ => 0).run machine
      [.insertObject 7 4096 3000000000, .insertObject 7 4096 3000000000, .deallocateObject 7 4096 3000000000] = .ok s ∧
    s.table.ranges = {(4096, 1000001536), (1000005632, 1000001536), (2000007168, 999996928)} := by
  obtain ⟨s, executed⟩ : ∃ s, (State.start fun _ => 0).run machine
      [.insertObject 7 4096 3000000000, .insertObject 7 4096 3000000000, .deallocateObject 7 4096 3000000000] = .ok s :=
    ⟨_, rfl⟩
  refine ⟨s, executed, (table_refines_ranges executed).1.trans ?_⟩
  have pieces : Recorder.pieces 4096 3000000000 =
      [(4096, 1000001536), (1000005632, 1000001536), (2000007168, 999996928)] := by decide
  simp only [List.foldl_cons, List.foldl_nil, Action.onRanges, zero_add, Multiset.add_sub_cancel_right, pieces]
  rfl

end OnlineScheduler
