import OnlineScheduler.Memory
import OnlineScheduler.Proofs.Deliveries
import OnlineScheduler.Proofs.Leftovers
import OnlineScheduler.Proofs.Splitting

/-! Where the memory of a live object is. As long as no piece of a mapping meets
a live object, the last order over any address of an object is about that
object, so once the pipe is empty its memory is where the table says. -/

namespace OnlineScheduler

open Relation Recorder

variable {p : Platform} {t t' : Table}

/-- The node that the table has an object on. -/
def Object.target (object : Object) : Nat := if object.lastDecision = -1 then node0Dram else object.lastDecision.toNat

/-- The last order over an address of an object, with where it leaves it. -/
structure Table.Placed (t : Table) (i : Fin maxObjects) (data : DataBind) : Prop where
  about : data.objIndex = i.val
  startAddr : data.startAddr = (t.objVector i).startAddr
  size : data.size = (t.objVector i).size
  node : .undone i.val ∉ t.trace → data.nodemaskTargetNode = 1 <<< (t.objVector i).target

abbrev bindings : List DataBind → Memory := Overlay.layers DataBind.Binds

/-- Live objects share no address, and each of their addresses is bound by an
order about the object. -/
structure Table.Mirrored (t : Table) : Prop where
  disjoint : ∀ i j a, t.Owns i a → t.Owns j a → i = j
  placed : ∀ i a, t.Owns i a → ∃ data, bindings t.orders a = some data ∧ t.Placed i data

theorem start_mirrored : Table.start.Mirrored :=
  ⟨fun _ _ _ owns => (nomatch owns.1), fun _ _ owns => (nomatch owns.1)⟩

theorem Table.Placed.kept {i : Fin maxObjects} {data : DataBind} (placed : t.Placed i data)
    (object : t'.objVector i = t.objVector i) (trace : ∀ event ∈ t.trace, event ∈ t'.trace) : t'.Placed i data := by
  refine ⟨placed.about, ?_, ?_, fun kept => ?_⟩
  · rw [object]; exact placed.startAddr
  · rw [object]; exact placed.size
  · rw [object]; exact placed.node fun undone => kept (trace _ undone)

theorem Table.Same.owns (same : t.Same t') (i : Fin maxObjects) (a : BitVec 64) : t'.Owns i a ↔ t.Owns i a := by
  simp only [Table.Owns, same.alloc, same.startAddr, same.size]

/-- A write that orders nothing and gives no object an address. -/
private theorem Table.Mirrored.silent (mirrored : t.Mirrored) (orders : t'.orders = t.orders)
    (trace : ∀ event ∈ t.trace, event ∈ t'.trace) (owns : ∀ i a, t'.Owns i a → t.Owns i a)
    (startAddr : ∀ i, (t'.objVector i).startAddr = (t.objVector i).startAddr)
    (size : ∀ i, (t'.objVector i).size = (t.objVector i).size)
    (decision : ∀ i : Fin maxObjects, .undone i.val ∉ t'.trace →
      (t'.objVector i).lastDecision = (t.objVector i).lastDecision) : t'.Mirrored := by
  refine ⟨fun i j a first second => mirrored.disjoint i j a (owns i a first) (owns j a second), ?_⟩
  intro i a owned
  obtain ⟨data, last, placed⟩ := mirrored.placed i a (owns i a owned)
  rw [orders]
  refine ⟨data, last, placed.about, ?_, ?_, ?_⟩
  · rw [startAddr]; exact placed.startAddr
  · rw [size]; exact placed.size
  · intro kept
    rw [Object.target, decision i kept]
    exact placed.node fun undone => kept (trace _ undone)

/-- A write that orders an object to be bound over its whole range. -/
private theorem Table.Mirrored.order {slot : Fin maxObjects} {data : DataBind} (orders : t'.orders = t.orders ++ [data])
    (disjoint : ∀ i j a, t'.Owns i a → t'.Owns j a → i = j) (placed : t'.Placed slot data)
    (live : t'.objAlloc slot = 1)
    (others : ∀ i a, i ≠ slot → t'.Owns i a → ∃ data, bindings t.orders a = some data ∧ t'.Placed i data) :
    t'.Mirrored := by
  refine ⟨disjoint, fun i a owned => ?_⟩
  rw [bindings, orders, Overlay.layers_snoc]
  by_cases same : i = slot
  · subst same
    have inside : data.Binds a := by
      rw [DataBind.Binds, placed.startAddr, placed.size]
      exact owned.2
    exact ⟨data, Overlay.lay_inside inside, placed⟩
  · have outside : ¬ data.Binds a := by
      rw [DataBind.Binds, placed.startAddr, placed.size]
      exact fun inside => same (disjoint i slot a owned ⟨live, inside⟩)
    rw [Overlay.lay_outside outside]
    exact others i a same owned

theorem Free.mirrored (freed : Free t t') (mirrored : t.Mirrored) : t'.Mirrored := by
  cases freed with
  | free slot scanned live =>
    refine mirrored.silent rfl (fun _ => id) ?_ (fun _ => rfl) (fun _ => rfl) (fun _ _ => rfl)
    intro i a owns
    by_cases same : i = slot
    · subst same
      have freed := owns.1
      simp at freed
    · exact ⟨(Function.update_of_ne same _ _).symm.trans owns.1, owns.2⟩

theorem Measure.mirrored (measured : Measure t t') (mirrored : t.Mirrored) : t'.Mirrored := by
  have same := measured.same
  cases measured with
  | measure slot metrics scanned live =>
    refine mirrored.silent rfl (fun _ => id) (fun i a => (same.owns i a).mp) same.startAddr same.size ?_
    exact fun i _ => update_field Object.lastDecision (by rfl) i

/-- An order about an object that it moves, and what it leaves alone. -/
private theorem Table.Mirrored.moved {slot : Fin maxObjects} {data : DataBind} (mirrored : t.Mirrored) (same : t.Same t')
    (orders : t'.orders = t.orders ++ [data]) (live : t.objAlloc slot = 1) (placed : t'.Placed slot data)
    (trace : ∀ event ∈ t.trace, event ∈ t'.trace) (kept : ∀ i, i ≠ slot → t'.objVector i = t.objVector i) :
    t'.Mirrored := by
  refine Table.Mirrored.order orders ?_ placed ?_ ?_
  · intro i j a first second
    exact mirrored.disjoint i j a ((same.owns i a).mp first) ((same.owns j a).mp second)
  · rw [same.alloc]; exact live
  · intro i a apart owned
    obtain ⟨other, last, before⟩ := mirrored.placed i a ((same.owns i a).mp owned)
    exact ⟨other, last, before.kept (kept i apart) trace⟩

theorem Touch.mirrored (touched : Touch p t t') (mirrored : t.Mirrored) : t'.Mirrored := by
  have same := touched.same
  cases touched with
  | status slot pageStatus scanned live =>
    refine mirrored.silent rfl (fun _ => id) (fun i a => (same.owns i a).mp) same.startAddr same.size ?_
    exact fun i _ => update_field Object.lastDecision (by rfl) i
  | promote slot live undecided =>
    refine mirrored.moved same (orders_emit rfl) live ?_ (fun _ => List.mem_append_left _)
      (fun i apart => Function.update_of_ne apart _ _)
    constructor
    all_goals simp [Actuator.promote, Actuator.bindOrder, writeOrder, getMyTimestamp, Object.target, node0Dram]
  | demote slot live undecided aged =>
    refine mirrored.moved same (orders_emit rfl) live ?_ (fun _ => List.mem_append_left _)
      (fun i apart => Function.update_of_ne apart _ _)
    constructor
    all_goals simp [Actuator.demote, Actuator.bindOrder, writeOrder, getMyTimestamp, Object.target, node0Pmem]
  | undo slot live =>
    refine mirrored.silent (orders_undo slot t) (fun _ => List.mem_append_left _) (fun i a => (same.owns i a).mp)
      same.startAddr same.size ?_
    intro i kept
    by_cases here : i = slot
    · subst here
      exact absurd (List.mem_append_right _ (List.mem_singleton_self _)) kept
    · exact congrArg Object.lastDecision (Function.update_of_ne here _ _)
  | readClock => exact mirrored.silent rfl (fun _ => id) (fun _ _ => id) (fun _ => rfl) (fun _ => rfl) (fun _ _ => rfl)

/-! Insertions. -/

theorem storeObject_owns (pid : BitVec 32) (startAddr size : BitVec 64) (sliced : Int) (slot i : Fin maxObjects)
    (a : BitVec 64) :
    (storeObject p pid startAddr size sliced slot t).Owns i a ↔ if i = slot then Covers startAddr size a else t.Owns i a := by
  split
  next same => subst same; simp [Table.Owns, Covers, storeObject, bindOrder, writeOrder, getMyTimestamp]
  next apart => simp [Table.Owns, storeObject, bindOrder, writeOrder, getMyTimestamp, apart]

theorem insertObjectSlot_mirrored {pid : BitVec 32} {startAddr size : BitVec 64} {sliced : Int} (valid : t.Valid)
    (clear : t.Clear startAddr size) (stored : insertObjectSlot p pid startAddr size sliced t = .ok t')
    (mirrored : t.Mirrored) : t'.Mirrored := by
  obtain ⟨slot, found, rfl⟩ := insertObjectSlot_ok.mp stored
  have fresh := (valid.unused slot (valid.found found).ge).2.2
  have elsewhere (i : Fin maxObjects) (a : BitVec 64) (covers : Covers startAddr size a) : ¬ t.Owns i a :=
    fun owns => clear i ⟨a, covers, owns⟩
  have placed : (storeObject p pid startAddr size sliced slot t).Placed slot
      ⟨startAddr, size, 1 <<< node0Dram, slot.val, .initialDataplacement, 1 <<< 0⟩ := by
    constructor
    all_goals simp [storeObject, bindOrder, writeOrder, getMyTimestamp, Object.target, fresh]
  refine Table.Mirrored.order (orders_emit rfl) ?_ placed ?_ ?_
  · intro i j a first second
    rw [storeObject_owns] at first second
    split at first
    next here =>
      split at second
      next there => exact here.trans there.symm
      next => exact absurd second (elsewhere j a first)
    next =>
      split at second
      next => exact absurd first (elsewhere i a second)
      next => exact mirrored.disjoint i j a first second
  · simp [storeObject, bindOrder, writeOrder, getMyTimestamp]
  · intro i a apart owned
    rw [storeObject_owns, if_neg apart] at owned
    obtain ⟨data, last, placed⟩ := mirrored.placed i a owned
    refine ⟨data, last, placed.kept ?_ (fun _ => List.mem_append_left _)⟩
    simp [storeObject, bindOrder, writeOrder, getMyTimestamp, apart]

/-- A range below the addresses of the kernel. -/
def Low (startAddr size : BitVec 64) : Prop := startAddr.toNat + size.toNat ≤ 2 ^ 47

instance (startAddr size : BitVec 64) : Decidable (Low startAddr size) := inferInstanceAs (Decidable (_ ≤ _))

theorem chunks_apart {startAddr size : BitVec 64} (low : Low startAddr size) :
    (chunks startAddr size).Pairwise fun first last =>
      first.startAddr.toNat + first.size.toNat ≤ last.startAddr.toNat := by
  rw [Low] at low
  by_cases large : chunkSize < size
  · have few : size.toNat / 1000001536 < 2 ^ 31 := by omega
    have count := fullChunks_small few
    have start (i : Nat) (inside : i ≤ fullChunks size) :
        (startAddr + BitVec.ofNat 64 i * chunkSize).toNat = startAddr.toNat + i * 1000001536 := by
      apply address_toNat
      · omega
      · omega
    rw [chunks_large large, List.pairwise_append, List.pairwise_map]
    refine ⟨List.pairwise_lt_range.imp_of_mem ?_, List.pairwise_singleton _ _, ?_⟩
    · intro i j first last below
      rw [List.mem_range] at first last
      rw [start i first.le, start j last.le, chunkSize_toNat]
      omega
    · intro piece member last only
      obtain ⟨i, inside, rfl⟩ := List.mem_map.mp member
      rw [List.mem_range] at inside
      rw [List.mem_singleton.mp only, start i inside.le, start _ le_rfl, chunkSize_toNat]
      omega
  · rw [chunks_small large]
    exact List.pairwise_singleton _ _

theorem insertObject_mirrored {pid : BitVec 32} {startAddr size : BitVec 64} (valid : t.Valid) (low : Low startAddr size)
    (clear : ∀ piece ∈ chunks startAddr size, t.Clear piece.startAddr piece.size)
    (inserted : insertObject p pid startAddr size t = .ok t') (mirrored : t.Mirrored) : t'.Mirrored := by
  have apart := chunks_apart low
  rw [insertObject, splitObject_eq] at inserted
  generalize chunks startAddr size = pieces at inserted clear apart
  induction pieces generalizing t with
  | nil => cases inserted; exact mirrored
  | cons piece rest ih =>
    obtain ⟨middle, stored, remaining⟩ := Runs.cons_ok.mp inserted
    rw [List.pairwise_cons] at apart
    have after := insertObjectSlot_mirrored valid (clear piece List.mem_cons_self) stored mirrored
    refine ih ((insertObjectSlot_store stored).valid valid).1 after remaining ?_ apart.2
    rintro later member i ⟨a, covers, owns⟩
    obtain ⟨slot, _, rfl⟩ := insertObjectSlot_ok.mp stored
    rw [storeObject_owns] at owns
    split at owns
    next =>
      have past := apart.1 later member
      have reached := owns.2
      have start := covers.1
      omega
    next => exact clear later (List.mem_cons_of_mem _ member) i ⟨a, covers, owns⟩

/-! Along a run. -/

/-- The pieces of a mapping meet no live object. -/
def Action.Apart (t : Table) : Action → Prop
  | .insertObject _ startAddr size =>
    Low startAddr size ∧ ∀ piece ∈ chunks startAddr size, t.Clear piece.startAddr piece.size
  | _ => True

theorem State.step_mirrored {s s' : State} {action : Action} (apart : action.Apart s.table)
    (executed : s.step p action = .ok s') (valid : s.table.Valid) (mirrored : s.table.Mirrored) : s'.table.Mirrored := by
  have effect := step_effect executed
  cases action with
  | insertObject pid startAddr size =>
    exact insertObject_mirrored valid apart.1 apart.2 (step_insert executed) mirrored
  | deallocateObject => exact preserved Free.mirrored effect mirrored
  | updateMetrics => exact preserved Measure.mirrored effect mirrored
  | _ => exact preserved Touch.mirrored effect mirrored

namespace Preload

variable {capacity : Nat} {s s' : State}

/-- The records that `mbind` has failed on, the one not yet reported included. -/
def State.refusals (s : State) : List DataBind := s.migrationError.written ++ s.refused.toList

theorem report_refusals (ok : s.step capacity .report = .ok s') :
    s'.executed = s.executed ∧ s'.refusals = s.refusals := by
  simp only [State.step] at ok
  split at ok
  next data waiting =>
    split at ok
    next =>
      cases ok
      refine ⟨rfl, ?_⟩
      simp only [State.refusals, waiting, Fifo.written_put, Option.toList, List.append_nil]
    next => cases ok
  next => cases ok

theorem iterate_refusals {outcome : ReadOutcome} {bound : Bool} (ok : s.step capacity (.iterate outcome bound) = .ok s') :
    s'.executed = s.executed ∧ s'.refusals = s.refusals ∨
      ∃ data, s'.executed = s.executed ++ [data] ∧ s'.refusals = s.refusals ++ if bound then [] else [data] := by
  obtain ⟨idle, _⟩ := step_iterate ok
  rw [State.step, idle] at ok
  obtain ⟨⟨ret, buf, after⟩, answered, done⟩ := Runs.bind_ok.mp ok
  have same : after.executed = s.executed ∧ after.refused = s.refused ∧ after.migrationError = s.migrationError := by
    cases outcome with
    | error => cases answered; exact ⟨rfl, rfl, rfl⟩
    | _ =>
      simp only [State.read] at answered
      split at answered
      next => cases answered; exact ⟨rfl, rfl, rfl⟩
      next => cases answered
  obtain ⟨executed, refused, migrationError⟩ := same
  cases done
  split
  next =>
    refine .inl ⟨executed, ?_⟩
    rw [State.refusals, refused, migrationError, State.refusals]
  next =>
    refine .inr ⟨buf, ?_, ?_⟩
    · rw [State.executeMbind, executed]
    · simp only [State.refusals, State.executeMbind, migrationError, idle, Option.toList, List.append_nil]
      cases bound with
      | true => rfl
      | false => rfl

end Preload

variable {capacity : Nat} {action : WorldAction} {actions : List WorldAction}

def WorldAction.Apart (w : World) : WorldAction → Prop
  | .scheduler (.other action) => action.Apart w.loop.system.table
  | _ => True

/-- No mapping of the run meets a live object where it is inserted. -/
def World.Apart (p : Platform) (capacity : Nat) (w : World) (actions : List WorldAction) : Prop :=
  ∀ first action rest reached, actions = first ++ action :: rest → w.run p capacity first = .ok reached →
    action.Apart reached

theorem World.step_mirrored {w w' : World} (sourced : action.Sourced p) (apart : action.Apart w)
    (ok : w.step p capacity action = .ok w') (valid : w.loop.system.table.Valid)
    (mirrored : w.loop.system.table.Mirrored) : w'.loop.system.table.Mirrored := by
  cases action with
  | scheduler action =>
    obtain ⟨stepped, _⟩ := step_scheduler ok
    cases action with
    | other action =>
      obtain ⟨system, executed, done⟩ := Runs.bind_ok.mp stepped
      have same : w'.loop.system = system := congrArg Loop.system (Except.ok.inj done).symm
      subst same
      exact State.step_mirrored apart executed valid mirrored
    | advance routines freeDram =>
      obtain ⟨objIndex, q, pages, rfl⟩ := sourced
      exact preserved Touch.mirrored (Loop.advance_touches stepped) mirrored
  | iterate outcome bound =>
    obtain ⟨preload, _, rfl⟩ := ofPreload_ok ok
    exact mirrored
  | report =>
    obtain ⟨preload, _, rfl⟩ := ofPreload_ok ok
    exact mirrored

namespace Host

variable {h h' : Host}

/-- The orders tell where the objects are, and the memory follows the orders. -/
structure Follows (h : Host) : Prop where
  mirrored : h.world.loop.system.table.Mirrored
  shows : Overlay.Shows DataBind.Binds h.memory h.world.preload.executed h.world.preload.refusals

theorem step_world (ok : h.step p capacity action = .ok h') : h.world.step p capacity action = .ok h'.world := by
  obtain ⟨world, stepped, done⟩ := Runs.bind_ok.mp ok
  cases done
  exact stepped

theorem run_world (ok : h.run p capacity actions = .ok h') : h.world.run p capacity actions = .ok h'.world := by
  induction actions generalizing h with
  | nil => cases ok; rfl
  | cons action rest ih =>
    obtain ⟨middle, first, remaining⟩ := Runs.cons_ok.mp ok
    exact Runs.cons_ok.mpr ⟨middle.world, step_world first, ih remaining⟩

theorem step_shows (ok : h.step p capacity action = .ok h')
    (shows : Overlay.Shows DataBind.Binds h.memory h.world.preload.executed h.world.preload.refusals) :
    Overlay.Shows DataBind.Binds h'.memory h'.world.preload.executed h'.world.preload.refusals := by
  obtain ⟨world, stepped, done⟩ := Runs.bind_ok.mp ok
  cases done
  cases action with
  | scheduler action =>
    obtain ⟨_, delivered⟩ := World.step_scheduler stepped
    dsimp only
    rw [delivered]
    exact shows
  | report =>
    obtain ⟨preload, reported, rfl⟩ := World.ofPreload_ok stepped
    obtain ⟨executed, refusals⟩ := Preload.report_refusals reported
    dsimp only
    rw [executed, refusals]
    exact shows
  | iterate outcome bound =>
    obtain ⟨preload, iterated, rfl⟩ := World.ofPreload_ok stepped
    have handled := Preload.iterate_refusals iterated
    cases bound with
    | true =>
      change Overlay.Shows _ ((preload.executed.drop h.world.preload.executed.length).foldl mbind h.memory) _ _
      rcases handled with ⟨executed, refusals⟩ | ⟨data, executed, refusals⟩
      · rw [executed, refusals, List.drop_length]
        exact shows
      · rw [executed, refusals, List.drop_left, if_pos rfl, List.append_nil]
        exact shows.accept data
    | false =>
      change Overlay.Shows _ h.memory preload.executed preload.refusals
      rcases handled with ⟨executed, refusals⟩ | ⟨data, executed, refusals⟩
      · rw [executed, refusals]
        exact shows
      · rw [executed, refusals]
        exact shows.refuse data

theorem run_follows {statusMemoryPages : Nat → ℚ} (sourced : ∀ action ∈ actions, action.Sourced p)
    (apart : (World.start statusMemoryPages).Apart p capacity actions)
    (ok : (start statusMemoryPages).run p capacity actions = .ok h) : h.Follows := by
  induction actions using List.reverseRecOn generalizing h with
  | nil => cases ok; exact ⟨start_mirrored, .start⟩
  | append_singleton first action ih =>
    obtain ⟨middle, before, last⟩ := Runs.snoc_ok.mp ok
    have earlier : ∀ action ∈ first, action.Sourced p := fun action member => sourced action (by simp [member])
    have follows : middle.Follows := by
      apply ih earlier ?_ before
      intro before action rest reached split executed
      exact apart before action (rest ++ _) reached (by rw [split, List.append_assoc, List.cons_append]) executed
    have valid := (World.run_delivers earlier (run_world before)).valid
    have spaced := apart first action [] middle.world rfl (run_world before)
    have source := sourced action (List.mem_append_right _ (List.mem_singleton_self _))
    exact ⟨World.step_mirrored source spaced (step_world last) valid follows.mirrored, step_shows last follows.shows⟩

/-- Once the pipe is empty, every address of a live object none of whose orders
was refused is bound by an order about the object, to the node that its
`last_decision` names, or to DRAM if that is -1 and nothing was undone. -/
theorem memory_follows_table {statusMemoryPages : Nat → ℚ} (sourced : ∀ action ∈ actions, action.Sourced p)
    (sound : ∀ action ∈ actions, ¬ action.FailedRead)
    (apart : (World.start statusMemoryPages).Apart p capacity actions)
    (ok : (start statusMemoryPages).run p capacity actions = .ok h) (drained : h.world.preload.migration.queued = [])
    {i : Fin maxObjects} (accepted : ∀ data ∈ h.world.preload.refusals, data.objIndex ≠ i.val)
    {a : BitVec 64} (owns : h.world.loop.system.table.Owns i a) :
    ∃ data, h.memory a = some data ∧ h.world.loop.system.table.Placed i data := by
  have follows := run_follows sourced apart ok
  have all := World.run_orders sourced sound (run_world ok)
  rw [drained, List.append_nil] at all
  obtain ⟨data, last, placed⟩ := follows.mirrored.placed i a owns
  refine ⟨data, ?_, placed⟩
  rw [bindings, ← all] at last
  rcases follows.shows a with same | ⟨refused, member, shown⟩
  · exact same.trans last
  · obtain rfl : data = refused := Option.some.inj (last.symm.trans shown)
    exact absurd placed.about (accepted data member)

private theorem movedPage_apart : (World.start fun _ => 0).Apart machine 1638 World.movedPage := by
  intro first action rest reached split executed
  cases first with
  | nil =>
    cases executed
    cases split
    refine ⟨by decide, ?_⟩
    rintro piece _ i ⟨a, _, live, _⟩
    cases live
  | cons head first =>
    have quiet : ∀ action ∈ World.movedPage.tail, action.Apart reached := by
      simp only [World.movedPage, World.promotedPage, List.cons_append, List.nil_append, List.tail_cons,
        List.forall_mem_append, List.forall_mem_cons, List.mem_replicate]
      refine ⟨trivial, trivial, trivial, ?_, trivial, List.forall_mem_nil _⟩
      rintro action ⟨_, rfl⟩
      trivial
    rw [split] at quiet
    exact quiet action (by simp)

theorem memory_follows_table_page : ∃ h, (start fun _ => 0).run machine 1638 World.movedPage = .ok h ∧
    ∃ data, h.memory 5000 = some data ∧ h.world.loop.system.table.Placed 0 data := by
  have passed : Runs.ends (fun h => decide (h.world.preload.migration.queued = []) &&
      decide (h.world.preload.refusals = []) && decide (h.world.loop.system.table.Owns 0 5000))
      ((start fun _ => 0).run machine 1638 World.movedPage) = true := by decide +kernel
  obtain ⟨h, executed, ended⟩ := Runs.ends_ok passed
  simp only [Bool.and_eq_true, decide_eq_true_eq] at ended
  obtain ⟨⟨drained, none⟩, owns⟩ := ended
  refine ⟨h, executed, ?_⟩
  apply memory_follows_table World.movedPage_sourced (by decide) movedPage_apart executed drained _ owns
  rw [none]
  exact nofun

end Host

end OnlineScheduler
