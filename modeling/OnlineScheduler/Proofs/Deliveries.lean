import OnlineScheduler.Proofs.Refusals

/-! From the table to the application's memory: what the threads order is what
the mbind thread executes, so the initial placements it has executed are the
pieces of the mappings, and `last_decision` is the last move it has made. -/

namespace OnlineScheduler

open Relation Recorder

variable {p : Platform} {t t' : Table}

def Table.orders (t : Table) : List DataBind := t.trace.filterMap Event.order?

theorem Write.trace_grows (written : Write p t t') : t.trace <+: t'.trace := by
  cases written with
  | store stored => cases stored; exact List.prefix_append _ _
  | free freed => cases freed; exact List.prefix_refl _
  | measure measured => cases measured; exact List.prefix_refl _
  | touch touched =>
    cases touched with
    | status => exact List.prefix_refl _
    | promote => exact List.prefix_append _ _
    | demote => exact List.prefix_append _ _
    | undo => exact List.prefix_append _ _
    | readClock => exact List.prefix_refl _

theorem Writes.trace_grows (writes : Writes p t t') : t.trace <+: t'.trace := by
  induction writes with
  | refl => exact List.prefix_refl _
  | tail _ last ih => exact ih.trans last.trace_grows

theorem Writes.orders_added (writes : Writes p t t') :
    t'.orders = t.orders ++ (t'.trace.drop t.trace.length).filterMap Event.order? := by
  obtain ⟨added, extended⟩ := writes.trace_grows
  rw [Table.orders, ← extended, List.drop_left, List.filterMap_append, Table.orders]

/-! The placements. -/

def Action.pieces : Action → List Chunk
  | .insertObject _ startAddr size => chunks startAddr size
  | _ => []

/-- The order that places the piece with a number in DRAM. -/
def placement (number : Nat) (piece : Chunk) : DataBind where
  startAddr := piece.startAddr
  size := piece.size
  nodemaskTargetNode := 1 <<< node0Dram
  objIndex := number
  type := .initialDataplacement
  flag := 1 <<< 0

def placements (orders : List DataBind) : List DataBind := orders.filter (·.type = .initialDataplacement)

theorem placements_append (first last : List DataBind) : placements (first ++ last) = placements first ++ placements last :=
  List.filter_append ..

theorem orders_emit {data : DataBind} (trace : t'.trace = t.trace ++ [.order data]) :
    t'.orders = t.orders ++ [data] := by
  rw [Table.orders, trace, List.filterMap_append]
  rfl

theorem orders_undo (slot : Fin maxObjects) (t : Table) : (Actuator.undo slot t).orders = t.orders := by
  rw [Table.orders, Actuator.undo, List.filterMap_append]
  exact List.append_nil _

private theorem placements_move {data : DataBind} (trace : t'.trace = t.trace ++ [.order data])
    (moves : data.type ≠ .initialDataplacement) : placements t'.orders = placements t.orders := by
  rw [orders_emit trace, placements_append]
  simp [placements, moves]

theorem Touch.placements (touched : Touch p t t') : placements t'.orders = placements t.orders := by
  cases touched with
  | status => rfl
  | promote => exact placements_move rfl nofun
  | demote => exact placements_move rfl nofun
  | undo slot => rw [orders_undo]
  | readClock => rfl

theorem insertObject_placements {pid : BitVec 32} {startAddr size : BitVec 64} (valid : t.Valid)
    (inserted : insertObject p pid startAddr size t = .ok t') :
    placements t'.orders =
      placements t.orders ++ (chunks startAddr size).mapIdx fun k => placement (k + t.totalObj) := by
  rw [insertObject, splitObject_eq] at inserted
  generalize chunks startAddr size = pieces at inserted ⊢
  induction pieces generalizing t with
  | nil => cases inserted; exact (List.append_nil _).symm
  | cons piece rest ih =>
    obtain ⟨middle, stored, remaining⟩ := Runs.cons_ok.mp inserted
    obtain ⟨after, total⟩ := (insertObjectSlot_store stored).valid valid
    obtain ⟨slot, found, rfl⟩ := insertObjectSlot_ok.mp stored
    have first : placements (storeObject p pid piece.startAddr piece.size piece.sliced slot t).orders =
        placements t.orders ++ [placement t.totalObj piece] := by
      rw [orders_emit rfl, placements_append, valid.found found]
      rfl
    rw [ih after remaining, first, List.mapIdx_cons, Nat.zero_add, List.append_assoc, List.singleton_append, total]
    simp only [Nat.add_assoc, Nat.add_comm 1]

theorem State.step_placements {s s' : State} {action : Action} (executed : s.step p action = .ok s')
    (valid : s.table.Valid) :
    placements s'.table.orders =
      placements s.table.orders ++ action.pieces.mapIdx fun k => placement (k + s.table.totalObj) := by
  have effect := State.step_effect executed
  cases action with
  | insertObject => exact insertObject_placements valid (State.step_insert executed)
  | deallocateObject =>
    have quiet := unchanged (fun t => placements t.orders) (fun freed => by cases freed; rfl) effect
    exact quiet.trans (List.append_nil _).symm
  | updateMetrics =>
    have quiet := unchanged (fun t => placements t.orders) (fun measured => by cases measured; rfl) effect
    exact quiet.trans (List.append_nil _).symm
  | _ =>
    have quiet := unchanged (fun t => placements t.orders) Touch.placements effect
    exact quiet.trans (List.append_nil _).symm

/-! The moves. -/

/-- The last order that moves an object. -/
def lastMove (objIndex : Int) (orders : List DataBind) : Option DataBind :=
  (orders.filter fun data => data.objIndex = objIndex ∧ data.type ≠ .initialDataplacement).getLast?

/-- What stands in the table about an object is what its last move was ordered
to do. -/
structure Table.Reflects (t : Table) (i : Fin maxObjects) (data : DataBind) : Prop where
  target : data.type.decision = some (t.objVector i).lastDecision
  node : data.nodemaskTargetNode = 1 <<< (t.objVector i).lastDecision.toNat
  startAddr : data.startAddr = (t.objVector i).startAddr
  size : data.size = (t.objVector i).size

def Table.Moved (t : Table) : Prop :=
  ∀ i : Fin maxObjects, (t.objVector i).lastDecision ≠ -1 → ∃ data, lastMove i.val t.orders = some data ∧ t.Reflects i data

private theorem Table.Moved.silent (moved : t.Moved) (orders : ∀ i : Fin maxObjects, lastMove i.val t'.orders = lastMove i.val t.orders)
    (kept : ∀ i, (t'.objVector i).lastDecision ≠ -1 →
      (t'.objVector i).lastDecision = (t.objVector i).lastDecision ∧
      (t'.objVector i).startAddr = (t.objVector i).startAddr ∧ (t'.objVector i).size = (t.objVector i).size) :
    t'.Moved := by
  intro i decided
  obtain ⟨same, startAddr, size⟩ := kept i decided
  obtain ⟨data, last, reflects⟩ := moved i (same ▸ decided)
  refine ⟨data, (orders i).trans last, ?_, ?_, ?_, ?_⟩
  · rw [same]; exact reflects.target
  · rw [same]; exact reflects.node
  · rw [startAddr]; exact reflects.startAddr
  · rw [size]; exact reflects.size

theorem lastMove_snoc (objIndex : Int) (orders : List DataBind) (data : DataBind) :
    lastMove objIndex (orders ++ [data]) =
      if data.objIndex = objIndex ∧ data.type ≠ .initialDataplacement then some data else lastMove objIndex orders := by
  rw [lastMove, List.filter_append]
  by_cases moves : data.objIndex = objIndex ∧ data.type ≠ .initialDataplacement
  · simp [moves]
  · simp [moves, lastMove]

private theorem Table.Moved.order (moved : t.Moved) {slot : Fin maxObjects} {data : DataBind}
    (orders : t'.orders = t.orders ++ [data]) (target : data.objIndex = slot.val)
    (reflects : t'.Reflects slot data) (kept : ∀ i, i ≠ slot → t'.objVector i = t.objVector i) : t'.Moved := by
  have moves : data.type ≠ .initialDataplacement := by
    intro initial
    have decision := reflects.target
    rw [initial] at decision
    cases decision
  intro i decided
  rw [orders, lastMove_snoc]
  by_cases same : i = slot
  · subst same
    rw [if_pos ⟨target, moves⟩]
    exact ⟨data, rfl, reflects⟩
  · have apart : ¬ (data.objIndex = i.val ∧ data.type ≠ .initialDataplacement) := by
      rintro ⟨here, _⟩
      exact same (Fin.ext (Int.ofNat.inj (here.symm.trans target)))
    rw [if_neg apart]
    rw [kept i same] at decided
    obtain ⟨earlier, last, before⟩ := moved i decided
    refine ⟨earlier, last, ?_, ?_, ?_, ?_⟩
    · rw [kept i same]; exact before.target
    · rw [kept i same]; exact before.node
    · rw [kept i same]; exact before.startAddr
    · rw [kept i same]; exact before.size

theorem Store.moved (stored : Store p t t') (valid : t.Valid) (moved : t.Moved) : t'.Moved := by
  cases stored with
  | store pid startAddr size sliced slot found =>
    have placed : (storeObject p pid startAddr size sliced slot t).orders = t.orders ++ [_] := orders_emit rfl
    apply moved.silent
    · intro i
      rw [placed, lastMove_snoc, if_neg]
      exact fun initial => initial.2 rfl
    · intro i decided
      by_cases same : i = slot
      · -- a slot that is filled was never used, so nothing has been decided about it
        subst same
        have fresh := (valid.unused i (valid.found found).ge).2.2
        simp only [storeObject, bindOrder, writeOrder, getMyTimestamp, Function.update_self] at decided
        exact absurd fresh decided
      · simp [storeObject, bindOrder, writeOrder, getMyTimestamp, same]

theorem Touch.moved (touched : Touch p t t') (moved : t.Moved) : t'.Moved := by
  cases touched with
  | status slot pageStatus scanned live =>
    refine moved.silent (fun _ => rfl) (fun i _ => ⟨?_, ?_, ?_⟩)
    · exact update_field Object.lastDecision (by rfl) i
    · exact update_field Object.startAddr (by rfl) i
    · exact update_field Object.size (by rfl) i
  | promote slot live undecided =>
    refine moved.order (orders_emit rfl) rfl ?_ (fun i apart => Function.update_of_ne apart _ _)
    constructor
    all_goals simp [Actuator.promote, Actuator.bindOrder, writeOrder, getMyTimestamp, BindType.decision, node0Dram]
  | demote slot live undecided aged =>
    refine moved.order (orders_emit rfl) rfl ?_ (fun i apart => Function.update_of_ne apart _ _)
    constructor
    all_goals simp [Actuator.demote, Actuator.bindOrder, writeOrder, getMyTimestamp, BindType.decision, node0Pmem]
  | undo slot live =>
    apply moved.silent
    · exact fun i => by rw [orders_undo]
    · intro i decided
      by_cases same : i = slot
      · subst same
        simp [Actuator.undo] at decided
      · simp [Actuator.undo, same]
  | readClock => exact moved.silent (fun _ => rfl) (fun _ _ => ⟨rfl, rfl, rfl⟩)

theorem Write.moved (written : Write p t t') (valid : t.Valid) (moved : t.Moved) : t'.Moved := by
  cases written with
  | store stored => exact stored.moved valid moved
  | free freed => cases freed; exact moved.silent (fun _ => rfl) (fun _ _ => ⟨rfl, rfl, rfl⟩)
  | measure measured =>
    cases measured
    refine moved.silent (fun _ => rfl) (fun i _ => ⟨?_, ?_, ?_⟩)
    · exact update_field Object.lastDecision (by rfl) i
    · exact update_field Object.startAddr (by rfl) i
    · exact update_field Object.size (by rfl) i
  | touch touched => exact touched.moved moved

theorem Writes.moved (writes : Writes p t t') (valid : t.Valid) (moved : t.Moved) : t'.Moved := by
  have both : t'.Valid ∧ t'.Moved := by
    apply preserved _ writes ⟨valid, moved⟩
    intro before after written held
    exact ⟨written.valid held.1, written.moved held.1 held.2⟩
  exact both.2

/-! Along a run. -/

/-- The loop of the actuator runs the routines of the source. -/
def WorldAction.Sourced (p : Platform) : WorldAction → Prop
  | .scheduler (.advance routines _) => ∃ objIndex q pages, routines = .source p objIndex q pages
  | _ => True

def WorldAction.FailedRead : WorldAction → Prop
  | .iterate (.error _) _ => True
  | _ => False

instance : DecidablePred WorldAction.FailedRead
  | .iterate (.error _) _ => .isTrue trivial
  | .iterate .record _ | .iterate (.endOfFile _) _ | .scheduler _ | .report => .isFalse id

def WorldAction.pieces : WorldAction → List Chunk
  | .scheduler (.other action) => action.pieces
  | _ => []

theorem Loop.advance_touches {l l' : Loop} {objIndex : Int} {q : Actuator.Qsort} {pages : BitVec 64 → Int} {freeDram : ℚ}
    (ok : l.advance p (.source p objIndex q pages) freeDram = .ok l') : Touches p l.system.table l'.system.table := by
  unfold Loop.advance at ok
  split at ok
  next =>
    cases ok
    split
    next => exact .refl
    next => exact .refl
  next =>
    obtain ⟨globals, _, done⟩ := Runs.bind_ok.mp ok
    cases done
    exact .refl
  next =>
    cases ok
    simp only [Loop.testDemotion]
    split
    next =>
      split
      next => exact .refl
      next => exact .refl
    next => exact .refl
  next =>
    obtain ⟨⟨table, counters⟩, read, done⟩ := Runs.bind_ok.mp ok
    cases done
    exact Actuator.readAllocationStatus_touches read
  next => cases ok; exact Actuator.demoteFrom_touches _ _ _ _
  next => cases ok; exact .refl
  next =>
    obtain ⟨⟨table, counters⟩, read, done⟩ := Runs.bind_ok.mp ok
    cases done
    exact Actuator.readAllocationStatus_touches read
  next => cases ok; exact Actuator.promoteFrom_touches _ _ _ _
  next => cases ok; exact .refl

namespace World

variable {capacity : Nat} {w w' : World} {action : WorldAction} {actions : List WorldAction}

/-- The table, its orders and the pipe, after the pieces of some mappings. -/
structure Delivers (w : World) (pieces : List Chunk) : Prop where
  valid : w.loop.system.table.Valid
  total : w.loop.system.table.totalObj = pieces.length
  placed : placements w.loop.system.table.orders = pieces.mapIdx placement
  moved : w.loop.system.table.Moved
  written : w.preload.migration.written = w.loop.system.table.orders

theorem step_scheduler {action : LoopAction} (ok : w.step p capacity (.scheduler action) = .ok w') :
    w.loop.step p action = .ok w'.loop ∧ w'.preload = deliver w.loop.system.table w'.loop.system.table w.preload := by
  simp only [World.step] at ok
  split at ok
  next loop stepped => cases ok; exact ⟨stepped, rfl⟩
  next => cases ok

private theorem Delivers.writes {pieces : List Chunk} (delivers : w.Delivers pieces) {new : List Chunk}
    (writes : Writes p w.loop.system.table w'.loop.system.table)
    (total : w'.loop.system.table.totalObj = w.loop.system.table.totalObj + new.length)
    (placed : placements w'.loop.system.table.orders = placements w.loop.system.table.orders ++
      new.mapIdx fun k => placement (k + w.loop.system.table.totalObj))
    (delivered : w'.preload = deliver w.loop.system.table w'.loop.system.table w.preload) :
    w'.Delivers (pieces ++ new) where
  valid := preserved Write.valid writes delivers.valid
  total := by rw [total, delivers.total, List.length_append]
  placed := by rw [placed, delivers.placed, delivers.total, List.mapIdx_append]
  moved := writes.moved delivers.valid delivers.moved
  written := by
    rw [delivered, deliver, writes.orders_added, ← delivers.written]
    exact (Fifo.put_all _ _).2

private theorem Delivers.quiet {pieces : List Chunk} (delivers : w.Delivers pieces) (loop : w'.loop = w.loop)
    (written : w'.preload.migration.written = w.preload.migration.written) : w'.Delivers (pieces ++ []) := by
  rw [List.append_nil]
  refine ⟨?_, ?_, ?_, ?_, ?_⟩
  · rw [loop]; exact delivers.valid
  · rw [loop]; exact delivers.total
  · rw [loop]; exact delivers.placed
  · rw [loop]; exact delivers.moved
  · rw [loop, written]; exact delivers.written

theorem step_delivers {pieces : List Chunk} (sourced : action.Sourced p) (ok : w.step p capacity action = .ok w')
    (delivers : w.Delivers pieces) : w'.Delivers (pieces ++ action.pieces) := by
  cases action with
  | scheduler action =>
    obtain ⟨stepped, delivered⟩ := step_scheduler ok
    cases action with
    | other action =>
      obtain ⟨system, executed, done⟩ := Runs.bind_ok.mp stepped
      have table : w'.loop.system = system := congrArg Loop.system (Except.ok.inj done).symm
      subst table
      refine delivers.writes (State.step_writes executed) ?_ (State.step_placements executed delivers.valid) delivered
      rw [(State.step_valid executed delivers.valid).2]
      cases action <;> rfl
    | advance routines freeDram =>
      obtain ⟨objIndex, q, pages, rfl⟩ := sourced
      have touches := Loop.advance_touches stepped
      refine delivers.writes (ReflTransGen.mono (fun _ _ => Write.touch) _ _ touches) touches.same.total ?_ delivered
      have quiet := unchanged (fun t => placements t.orders) Touch.placements touches
      exact quiet.trans (List.append_nil _).symm
  | iterate outcome bound =>
    obtain ⟨preload, stepped, rfl⟩ := ofPreload_ok ok
    apply delivers.quiet
    · rfl
    · exact (Preload.step_handles stepped).written.trans (List.append_nil _)
  | report =>
    obtain ⟨preload, stepped, rfl⟩ := ofPreload_ok ok
    apply delivers.quiet
    · rfl
    · exact (Preload.step_handles stepped).written.trans (List.append_nil _)

theorem run_delivers {statusMemoryPages : Nat → ℚ} (sourced : ∀ action ∈ actions, action.Sourced p)
    (ok : (start statusMemoryPages).run p capacity actions = .ok w) : w.Delivers (actions.flatMap WorldAction.pieces) := by
  induction actions using List.reverseRecOn generalizing w with
  | nil =>
    cases ok
    exact ⟨start_valid, rfl, rfl, fun _ decided => absurd rfl decided, rfl⟩
  | append_singleton first action ih =>
    obtain ⟨middle, before, last⟩ := Runs.snoc_ok.mp ok
    rw [List.flatMap_append, List.flatMap_singleton]
    apply step_delivers (sourced action (by simp)) last
    exact ih (fun earlier member => sourced earlier (by simp [member])) before

private theorem step_executed (sound : ¬ action.FailedRead) (ok : w.step p capacity action = .ok w')
    (same : w.preload.executed = w.preload.migration.taken) : w'.preload.executed = w'.preload.migration.taken := by
  cases action with
  | scheduler action =>
    obtain ⟨_, delivered⟩ := step_scheduler ok
    rw [delivered]
    exact same.trans (Fifo.put_all _ _).1.symm
  | iterate outcome bound =>
    obtain ⟨preload, stepped, rfl⟩ := ofPreload_ok ok
    apply (Preload.step_handles stepped).delivered ?_ same
    cases outcome with
    | error => exact absurd trivial sound
    | _ => exact id
  | report =>
    obtain ⟨preload, stepped, rfl⟩ := ofPreload_ok ok
    exact (Preload.step_handles stepped).delivered id same

private theorem run_executed {statusMemoryPages : Nat → ℚ} (sound : ∀ action ∈ actions, ¬ action.FailedRead)
    (ok : (start statusMemoryPages).run p capacity actions = .ok w) : w.preload.executed = w.preload.migration.taken :=
  Runs.invariant (fun w => w.preload.executed = w.preload.migration.taken)
    (fun action member _ _ => step_executed (sound action member)) ok rfl

/-- Every order has been executed or waits in the pipe. -/
theorem run_orders {statusMemoryPages : Nat → ℚ} (sourced : ∀ action ∈ actions, action.Sourced p)
    (sound : ∀ action ∈ actions, ¬ action.FailedRead)
    (ok : (start statusMemoryPages).run p capacity actions = .ok w) :
    w.preload.executed ++ w.preload.migration.queued = w.loop.system.table.orders := by
  rw [run_executed sound ok]
  exact (run_delivers sourced ok).written

/-- Every order is executed once and in order, or waits in the pipe, and the
initial placements among them are the pieces of the mappings. -/
theorem placements_delivered {statusMemoryPages : Nat → ℚ} (sourced : ∀ action ∈ actions, action.Sourced p)
    (sound : ∀ action ∈ actions, ¬ action.FailedRead)
    (ok : (start statusMemoryPages).run p capacity actions = .ok w) :
    w.preload.executed ++ w.preload.migration.queued = w.loop.system.table.orders ∧
      placements (w.preload.executed ++ w.preload.migration.queued) =
        (actions.flatMap WorldAction.pieces).mapIdx placement := by
  have all := run_orders sourced sound ok
  exact ⟨all, by rw [all, (run_delivers sourced ok).placed]⟩

/-- The page is placed, found hot on PMEM and moved. -/
def movedPage : List WorldAction := promotedPage ++ [.iterate .record true]

theorem movedPage_sourced : ∀ action ∈ movedPage, action.Sourced machine := by
  simp only [movedPage, promotedPage, List.forall_mem_append, List.forall_mem_cons, List.mem_replicate]
  refine ⟨⟨⟨trivial, trivial, trivial, ⟨_, _, _, rfl⟩, nofun⟩, ?_⟩, trivial, nofun⟩
  rintro action ⟨_, rfl⟩
  exact ⟨_, _, _, rfl⟩

theorem placements_delivered_page : ∃ w,
    (start fun _ => 0).run machine 1638 movedPage = .ok w ∧ w.preload.executed.length = 2 ∧
    placements (w.preload.executed ++ w.preload.migration.queued) =
      [⟨4096, 4096, 1, 0, .initialDataplacement, 1⟩] := by
  have passed : Runs.ends (fun w => w.preload.executed.length = 2)
      ((start fun _ => 0).run machine 1638 movedPage) = true := by decide +kernel
  obtain ⟨w, executed, ended⟩ := Runs.ends_ok passed
  refine ⟨w, executed, of_decide_eq_true ended, ?_⟩
  exact (placements_delivered movedPage_sourced (by decide) executed).2

/-- Once the pipe is empty, the last move executed on an object is the one that
its `last_decision` stands for. -/
theorem decisions_delivered {statusMemoryPages : Nat → ℚ} (sourced : ∀ action ∈ actions, action.Sourced p)
    (sound : ∀ action ∈ actions, ¬ action.FailedRead)
    (ok : (start statusMemoryPages).run p capacity actions = .ok w) (drained : w.preload.migration.queued = [])
    (i : Fin maxObjects) (decided : (w.loop.system.table.objVector i).lastDecision ≠ -1) :
    ∃ data, lastMove i.val w.preload.executed = some data ∧ w.loop.system.table.Reflects i data := by
  have all := run_orders sourced sound ok
  rw [drained, List.append_nil] at all
  rw [all]
  exact (run_delivers sourced ok).moved i decided

theorem decisions_delivered_page : ∃ w data,
    (start fun _ => 0).run machine 1638 movedPage = .ok w ∧ (w.loop.system.table.objVector 0).lastDecision = 0 ∧
    lastMove 0 w.preload.executed = some data ∧ w.loop.system.table.Reflects 0 data := by
  have passed : Runs.ends (fun w => w.preload.migration.queued = [] ∧
      (w.loop.system.table.objVector 0).lastDecision = 0)
      ((start fun _ => 0).run machine 1638 movedPage) = true := by decide +kernel
  obtain ⟨w, executed, ended⟩ := Runs.ends_ok passed
  obtain ⟨drained, decision⟩ := of_decide_eq_true ended
  obtain ⟨data, last, reflects⟩ :=
    decisions_delivered movedPage_sourced (by decide) executed drained 0 (by rw [decision]; decide)
  exact ⟨w, data, executed, decision, last, reflects⟩

end World
end OnlineScheduler
