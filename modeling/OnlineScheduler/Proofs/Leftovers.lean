import OnlineScheduler.Proofs.Attribution
import OnlineScheduler.Proofs.Demotions
import OnlineScheduler.Proofs.Promotions
import OnlineScheduler.Proofs.Ranges

/-! What a deallocation leaves behind in the unmapped range. The range is cut
into pieces anew, and a slot is freed when it holds exactly one of them. -/

namespace OnlineScheduler

variable {p : Platform} {t : Table} {addr len : BitVec 64} {i : Fin maxObjects}

def Covers (addr len a : BitVec 64) : Prop := addr.toNat ≤ a.toNat ∧ a.toNat < addr.toNat + len.toNat

instance decidableCovers (addr len a : BitVec 64) : Decidable (Covers addr len a) := inferInstanceAs (Decidable (_ ∧ _))

/-- A live object of the slot owns an address of the range. -/
def Table.Meets (t : Table) (addr len : BitVec 64) (i : Fin maxObjects) : Prop := ∃ a, Covers addr len a ∧ t.Owns i a

/-- The deallocation of the range frees the slot. -/
def Table.Matched (t : Table) (addr len : BitVec 64) (i : Fin maxObjects) : Prop :=
  ∃ piece ∈ Recorder.pieces addr len, t.slots i = some piece ∧ ∀ j < i, t.slots j ≠ some piece

theorem Table.Meets.live (meets : t.Meets addr len i) : t.objAlloc i = 1 := by
  obtain ⟨_, _, owns⟩ := meets
  exact owns.1

namespace Recorder

theorem deallocateObject_live (pid : BitVec 32) (valid : t.Valid) (live : t.objAlloc i = 1) :
    (deallocateObject pid addr len t).objAlloc i = 1 ↔ ¬ t.Matched addr len i := by
  have held : t.slots i = some ((t.objVector i).startAddr, (t.objVector i).size) := Table.slots_live live
  have cleared : (pieces addr len).foldl (Slots.removeFirst (scan t.totalObj)) t.slots i = none ↔ _ :=
    Slots.removeAll_clears (pieces_nodup addr len) held
  rw [← deallocateObject_slots pid, Table.slots_none,
    scan_find (valid.live_below live) (decide_eq_true held)] at cleared
  refine not_iff_not.mp (cleared.trans ⟨?_, ?_⟩)
  · rintro ⟨member, first⟩ unmatched
    exact unmatched ⟨_, member, held, fun j below => of_decide_eq_false (first j below)⟩
  · intro matched
    obtain ⟨piece, member, same, first⟩ := not_not.mp matched
    obtain rfl := Option.some.inj (held.symm.trans same)
    exact ⟨member, fun j below => decide_eq_false (first j below)⟩

theorem deallocateObject_meets (pid : BitVec 32) (startAddr size : BitVec 64) :
    (deallocateObject pid startAddr size t).Meets addr len i ↔
      (deallocateObject pid startAddr size t).objAlloc i = 1 ∧ t.Meets addr len i := by
  have freed := deallocateObject_frees pid startAddr size t
  simp only [Table.Meets, Table.Owns, freed.frame.1]
  constructor
  · rintro ⟨a, covers, live, inside⟩
    exact ⟨live, a, covers, freed.live live, inside⟩
  · rintro ⟨live, a, covers, _, inside⟩
    exact ⟨a, covers, live, inside⟩

end Recorder

/-- A range in which no live object has an address is left alone. -/
def Table.Clear (t : Table) (addr len : BitVec 64) : Prop := ∀ i, ¬ t.Meets addr len i

theorem Table.Clear.attributed (clear : t.Clear addr len) (ends : t.Ends) {a : BitVec 64} (covers : Covers addr len a)
    (owner : Monitor.getVectorIndex a t = some i) : a = (t.objVector i).endAddr := by
  obtain ⟨⟨above, below, live⟩, _⟩ := Monitor.getVectorIndex_some.mp owner
  have unowned : ¬ t.Owns i a := fun owns => clear i ⟨a, covers, owns⟩
  have past : (t.objVector i).startAddr.toNat + (t.objVector i).size.toNat ≤ a.toNat := by
    by_contra inside
    exact unowned ⟨live, BitVec.le_def.mp above, not_le.mp inside⟩
  have bound := a.isLt
  have reached := BitVec.le_def.mp below
  rw [← BitVec.toNat_inj, ends i live, BitVec.toNat_add, Nat.mod_eq_of_lt (by omega)]
  rw [ends i live, BitVec.toNat_add, Nat.mod_eq_of_lt (by omega)] at reached
  omega

/-- The two ranges have an address in common. -/
def Shares (addr len : BitVec 64) (range : Range) : Prop := ∃ a, Covers addr len a ∧ Covers range.1 range.2 a

theorem Table.clear_iff : t.Clear addr len ↔ ∀ range, Shares addr len range → t.ranges.count range = 0 := by
  constructor
  · intro clear range shares
    obtain ⟨a, covers, above, below⟩ := shares
    apply Multiset.count_eq_zero.mpr
    intro member
    obtain ⟨i, held⟩ := Slots.mem_bag.mp member
    obtain ⟨live, starts, sized⟩ := Table.slots_some.mp held
    apply clear i
    refine ⟨a, covers, live, ?_, ?_⟩
    · rwa [starts]
    · rwa [starts, sized]
  · rintro apart i ⟨a, covers, live, inside⟩
    have shares : Shares addr len ((t.objVector i).startAddr, (t.objVector i).size) := ⟨a, covers, inside⟩
    exact Multiset.count_eq_zero.mp (apart _ shares) (Slots.mem_bag.mpr ⟨i, Table.slots_live live⟩)

/-- A call of the recorder none of whose pieces shares an address with the range. -/
def Action.Avoids (addr len : BitVec 64) : Action → Prop
  | .insertObject _ startAddr size | .deallocateObject _ startAddr size =>
    ∀ piece ∈ Recorder.pieces startAddr size, ¬ Shares addr len piece
  | _ => True

theorem Action.Avoids.count {action : Action} (apart : action.Avoids addr len) (live : Multiset Range) {range : Range}
    (shares : Shares addr len range) : (action.onRanges live).count range = live.count range := by
  have absent {startAddr size : BitVec 64} (apart : ∀ piece ∈ Recorder.pieces startAddr size, ¬ Shares addr len piece) :
      (Recorder.pieces startAddr size : Multiset Range).count range = 0 :=
    Multiset.count_eq_zero.mpr fun member => apart range (Multiset.mem_coe.mp member) shares
  cases action with
  | insertObject pid startAddr size => rw [Action.onRanges, Multiset.count_add, absent apart, Nat.add_zero]
  | deallocateObject pid startAddr size => rw [Action.onRanges, Multiset.count_sub, absent apart, Nat.sub_zero]
  | _ => rfl

theorem Action.avoids_count {actions : List Action} (apart : ∀ action ∈ actions, action.Avoids addr len)
    (live : Multiset Range) {range : Range} (shares : Shares addr len range) :
    (actions.foldl Action.onRanges live).count range = live.count range := by
  induction actions generalizing live with
  | nil => rfl
  | cons action rest ih =>
    obtain ⟨first, remaining⟩ := List.forall_mem_cons.mp apart
    rw [List.foldl_cons, ih remaining, first.count live shares]

/-- A mapping of clear memory that is unmapped as it was mapped leaves nothing
behind, whatever else is recorded in between apart from it. -/
theorem Table.Clear.unmapped {s mapped later : State} {actions : List Action} {pid : BitVec 32}
    (clear : s.table.Clear addr len) (valid : s.table.Valid) (inserted : s.step p (.insertObject pid addr len) = .ok mapped)
    (executed : mapped.run p actions = .ok later) (apart : ∀ action ∈ actions, action.Avoids addr len) :
    (Recorder.deallocateObject pid addr len later.table).Clear addr len := by
  have stored := (State.step_valid inserted valid).1
  have kept : later.table.Valid :=
    Runs.invariant (fun s : State => s.table.Valid) (fun _ _ _ _ stepped valid => (State.step_valid stepped valid).1)
      executed stored
  apply Table.clear_iff.mpr
  intro range shares
  rw [Recorder.deallocateObject_ranges pid addr len kept, State.run_ranges executed stored,
    State.step_ranges inserted valid, Multiset.count_sub, Action.avoids_count apart _ shares, Action.onRanges,
    Multiset.count_add, Table.clear_iff.mp clear range shares, Nat.zero_add, Nat.sub_self]

/-- An order for a range that shares an address with this one. -/
def Event.Hits (addr len : BitVec 64) : Event → Prop
  | .order data => ∃ a, Covers addr len a ∧ Covers data.startAddr data.size a
  | .undone _ => False

theorem Table.Clear.ordered (clear : t.Clear addr len) (live : t.objAlloc i = 1) {order : Event}
    (own : order = Actuator.promotionOrder t i ∨ order = Actuator.demotionOrder t i) : ¬ order.Hits addr len := by
  have apart : ¬ ∃ a, Covers addr len a ∧ Covers (t.objVector i).startAddr (t.objVector i).size a := by
    rintro ⟨a, covers, above, below⟩
    exact clear i ⟨a, covers, live, above, below⟩
  rcases own with rfl | rfl
  · exact apart
  · exact apart

theorem Table.Clear.promotions (clear : t.Clear addr len) (currentFreeDram : ℚ) (ranked : List KeyValue) :
    ∃ orders, (Actuator.policyPromotion p currentFreeDram ranked t).trace = t.trace ++ orders ∧
      ∀ order ∈ orders, ¬ order.Hits addr len := by
  obtain ⟨slots, written, live⟩ := Actuator.policyPromotion_live p currentFreeDram ranked t
  refine ⟨_, written, fun order member => ?_⟩
  obtain ⟨i, ordered, rfl⟩ := List.mem_map.mp member
  exact clear.ordered (live i ordered) (.inl rfl)

theorem Table.Clear.demotions (clear : t.Clear addr len) (ranked : List KeyValue) :
    ∃ orders, (Actuator.policyDemotion p ranked t).1.trace = t.trace ++ orders ∧
      ∀ order ∈ orders, ¬ order.Hits addr len := by
  obtain ⟨slots, written, live⟩ := Actuator.policyDemotion_live p ranked t
  refine ⟨_, written, fun order member => ?_⟩
  obtain ⟨i, ordered, rfl⟩ := List.mem_map.mp member
  exact clear.ordered (live i ordered) (.inr rfl)

/-- A deallocation clears its range exactly when every live object in it is one
of the pieces the range is cut into, recorded once. Then the monitor attributes
none of its addresses, save an end address, and the actuator orders none. -/
theorem unmapped_cleared {statusMemoryPages : Nat → ℚ} {actions : List Action} {s : State}
    (executed : (State.start statusMemoryPages).run p actions = .ok s) (pid : BitVec 32) (addr len : BitVec 64) :
    let left := Recorder.deallocateObject pid addr len s.table
    (left.Clear addr len ↔ ∀ i, s.table.Meets addr len i → s.table.Matched addr len i) ∧
    (left.Clear addr len →
      (∀ a i, Covers addr len a → Monitor.getVectorIndex a left = some i → a = (left.objVector i).endAddr) ∧
      (∀ currentFreeDram ranked, ∃ orders,
        (Actuator.policyPromotion p currentFreeDram ranked left).trace = left.trace ++ orders ∧
          ∀ order ∈ orders, ¬ order.Hits addr len) ∧
      ∀ ranked, ∃ orders, (Actuator.policyDemotion p ranked left).1.trace = left.trace ++ orders ∧
        ∀ order ∈ orders, ¬ order.Hits addr len) := by
  intro left
  obtain ⟨valid, _⟩ := State.run_valid executed
  have freed := Recorder.deallocateObject_frees pid addr len s.table
  have ends : left.Ends := by
    intro i live
    rw [freed.frame.1]
    exact State.run_ends executed i (freed.live live)
  refine ⟨?_, fun clear => ⟨fun a i => clear.attributed ends, clear.promotions, clear.demotions⟩⟩
  constructor
  · intro clear i meets
    by_contra unmatched
    have live := (Recorder.deallocateObject_live pid valid meets.live).mpr unmatched
    exact clear i ((Recorder.deallocateObject_meets pid addr len).mpr ⟨live, meets⟩)
  · intro matched i meets
    obtain ⟨live, before⟩ := (Recorder.deallocateObject_meets pid addr len).mp meets
    exact (Recorder.deallocateObject_live pid valid before.live).mp live (matched i before)

theorem unmapped_cleared_mapping : ∃ s,
    (State.start fun _ => 0).run machine [.insertObject 7 4096 3000000000] = .ok s ∧
    s.table.Meets 4096 3000000000 2 ∧ (∀ i, s.table.Meets 4096 3000000000 i → s.table.Matched 4096 3000000000 i) ∧
    let left := Recorder.deallocateObject 7 4096 3000000000 s.table
    left.Clear 4096 3000000000 ∧ ∀ a i, Covers 4096 3000000000 a → Monitor.getVectorIndex a left = some i →
      a = (left.objVector i).endAddr := by
  have passed : Runs.ends (fun s => s.table.Owns 2 2000007168)
      ((State.start fun _ => 0).run machine [.insertObject 7 4096 3000000000]) = true := by decide +kernel
  obtain ⟨s, executed, owns⟩ := Runs.ends_ok passed
  obtain ⟨mapped, inserted, rest⟩ := Runs.cons_ok.mp executed
  have free : Table.start.Clear 4096 3000000000 := by
    intro i meets
    cases meets.live
  have clear : (Recorder.deallocateObject 7 4096 3000000000 s.table).Clear 4096 3000000000 :=
    Table.Clear.unmapped free start_valid inserted rest (List.forall_mem_nil _)
  obtain ⟨clears, left⟩ := unmapped_cleared executed 7 4096 3000000000
  exact ⟨s, executed, ⟨2000007168, by decide, of_decide_eq_true owns⟩, clears.mp clear, clear, (left clear).1⟩

/-- Only the first page of a mapping is unmapped. -/
theorem unmapped_cleared_page : ∃ s,
    (State.start fun _ => 0).run machine [.insertObject 7 4096 2000000] = .ok s ∧
    (Recorder.deallocateObject 7 4096 4096 s.table).Meets 4096 4096 0 := by
  have passed : Runs.ends (fun s => (Recorder.deallocateObject 7 4096 4096 s.table).Owns 0 4096)
      ((State.start fun _ => 0).run machine [.insertObject 7 4096 2000000]) = true := by decide +kernel
  obtain ⟨s, executed, owns⟩ := Runs.ends_ok passed
  exact ⟨s, executed, 4096, by decide, of_decide_eq_true owns⟩

end OnlineScheduler
