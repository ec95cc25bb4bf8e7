import OnlineScheduler.Proofs.TableInvariant
import OnlineScheduler.General.Registers

/-! The decisions of the actuator as a register in its trace. `last_decision`
is the register's value for the slot, and an order is written only where it
changes that value. -/

namespace OnlineScheduler

variable {p : Platform} {t t' : Table}

def BindType.decision : BindType → Option Int
  | .promotion => some node0Dram
  | .demotion => some node0Pmem
  | .initialDataplacement => none

def Event.decides (slot : Int) : Event → Option Int
  | .order data => if data.objIndex = slot then data.type.decision else none
  | .undone objIndex => if objIndex = slot then some (-1) else none

def Event.Moves : Event → Prop
  | .order data => data.type ≠ .initialDataplacement
  | .undone _ => False

structure Table.Decided (t : Table) : Prop where
  last : ∀ i : Fin maxObjects, (t.objVector i).lastDecision = Register.value Event.decides (-1) t.trace i.val
  fresh : Register.Fresh Event.decides (-1) Event.Moves t.trace

theorem start_decided : Table.start.Decided := ⟨fun _ => rfl, .nil⟩

private theorem Table.Decided.silent (decided : t.Decided) (trace : t'.trace = t.trace)
    (kept : ∀ i, (t'.objVector i).lastDecision = (t.objVector i).lastDecision) : t'.Decided :=
  ⟨fun i => by rw [kept, trace]; exact decided.last i, by rw [trace]; exact decided.fresh⟩

private theorem Table.Decided.emit (decided : t.Decided) {event : Event} (trace : t'.trace = t.trace ++ [event])
    (set : ∀ i : Fin maxObjects,
      (t'.objVector i).lastDecision = (event.decides i.val).getD (t.objVector i).lastDecision)
    (changes : event.Moves → ∀ slot new, event.decides slot = some new →
      Register.value Event.decides (-1) t.trace slot ≠ new) : t'.Decided := by
  refine ⟨fun i => ?_, ?_⟩
  · rw [set, trace, Register.value_snoc, decided.last i]
  · rw [trace]
    exact .snoc event decided.fresh changes

private theorem update_decision {slot : Fin maxObjects} {object : Object} (decision : Option Int)
    (here : object.lastDecision = decision.getD (t.objVector slot).lastDecision) (i : Fin maxObjects) :
    (Function.update t.objVector slot object i).lastDecision =
      (if (slot.val : Int) = i.val then decision else none).getD (t.objVector i).lastDecision := by
  by_cases same : i = slot
  · subst same
    rw [Function.update_self, if_pos rfl, here]
  · have apart : ¬ (slot.val : Int) = i.val := fun equal => same (Fin.ext (Int.ofNat.inj equal).symm)
    rw [Function.update_of_ne same, if_neg apart, Option.getD_none]

theorem Store.decided (stored : Store p t t') (decided : t.Decided) : t'.Decided := by
  cases stored with
  | store pid startAddr size sliced slot found =>
    refine decided.emit rfl ?_ (fun moves => absurd rfl moves)
    exact update_decision none rfl

theorem Free.decided (freed : Free t t') (decided : t.Decided) : t'.Decided := by
  cases freed with
  | free slot scanned live => exact decided.silent rfl (fun _ => rfl)

theorem Measure.decided (measured : Measure t t') (decided : t.Decided) : t'.Decided := by
  cases measured with
  | measure slot metrics scanned live =>
    refine decided.silent ?_ (update_field Object.lastDecision ?_)
    · rfl
    · rfl

private theorem Table.Decided.order (decided : t.Decided) {slot : Fin maxObjects} {data : DataBind} {decision : Int}
    (target : data.objIndex = slot.val) (decides : (Event.order data).decides slot.val = some decision)
    (undecided : (t.objVector slot).lastDecision ≠ decision) (key new : Int)
    (found : (Event.order data).decides key = some new) :
    Register.value Event.decides (-1) t.trace key ≠ new := by
  by_cases same : data.objIndex = key
  · have here : key = slot.val := same.symm.trans target
    subst here
    cases decides.symm.trans found
    rwa [decided.last slot] at undecided
  · simp [Event.decides, same] at found

theorem Touch.decided (touched : Touch p t t') (decided : t.Decided) : t'.Decided := by
  cases touched with
  | status slot pageStatus scanned live =>
    refine decided.silent ?_ (update_field Object.lastDecision ?_)
    · rfl
    · rfl
  | promote slot live undecided =>
    refine decided.emit rfl (update_decision (some node0Dram) rfl) (fun _ => ?_)
    exact decided.order rfl (if_pos rfl) undecided
  | demote slot live undecided aged =>
    refine decided.emit rfl (update_decision (some node0Pmem) rfl) (fun _ => ?_)
    exact decided.order rfl (if_pos rfl) undecided
  | undo slot live =>
    exact decided.emit rfl (update_decision (some (-1)) rfl) (fun moves => moves.elim)
  | readClock => exact decided.silent rfl (fun _ => rfl)

theorem Write.decided (written : Write p t t') (decided : t.Decided) : t'.Decided := by
  cases written with
  | store stored => exact stored.decided decided
  | free freed => exact freed.decided decided
  | measure measured => exact measured.decided decided
  | touch touched => exact touched.decided decided

/-- Along every run `last_decision` is the last word of the trace on its slot. -/
theorem State.run_decided {statusMemoryPages : Nat → ℚ} {actions : List Action} {s : State}
    (executed : (start statusMemoryPages).run p actions = .ok s) : s.table.Decided :=
  preserved Write.decided (run_writes executed) start_decided

def Event.IsOrder (type : BindType) (objIndex : Int) : Event → Prop
  | .order data => data.type = type ∧ data.objIndex = objIndex
  | .undone _ => False

theorem Event.IsOrder.decides {type : BindType} {objIndex : Int} {event : Event}
    (order : event.IsOrder type objIndex) : event.decides objIndex = type.decision := by
  cases event with
  | order data =>
    obtain ⟨rfl, rfl⟩ := order
    exact if_pos rfl
  | undone => exact order.elim

theorem Event.IsOrder.moves {type : BindType} {objIndex : Int} {event : Event}
    (order : event.IsOrder type objIndex) (proper : type ≠ .initialDataplacement) : event.Moves := by
  cases event with
  | order data => exact fun initial => proper (order.1.symm.trans initial)
  | undone => exact order.elim

def BindType.opposite : BindType → BindType
  | .promotion => .demotion
  | .demotion => .promotion
  | .initialDataplacement => .initialDataplacement

theorem Event.decides_other {type : BindType} {objIndex decision : Int} {event : Event}
    (proper : type ≠ .initialDataplacement) (found : event.decides objIndex = some decision)
    (different : type.decision ≠ some decision) : event.IsOrder type.opposite objIndex ∨ event = .undone objIndex := by
  cases event with
  | order data =>
    obtain ⟨target, found⟩ := Option.ite_none_right_eq_some.mp found
    have other : data.type ≠ type := fun same => different (same ▸ found)
    refine Or.inl ⟨?_, target⟩
    cases moved : data.type with
    | initialDataplacement => rw [moved] at found; cases found
    | promotion | demotion => cases type <;> simp_all [BindType.opposite]
  | undone index =>
    obtain ⟨target, _⟩ := Option.ite_none_right_eq_some.mp found
    exact Or.inr (by rw [target])

theorem Table.Decided.between (decided : t.Decided) {first between rest : List Event} {event event' : Event}
    (split : t.trace = first ++ event :: between ++ event' :: rest) {type : BindType} {decision objIndex : Int}
    (decides : type.decision = some decision) (order : event.IsOrder type objIndex)
    (again : event'.IsOrder type objIndex) :
    ∃ other ∈ between, other.IsOrder type.opposite objIndex ∨ other = .undone objIndex := by
  have proper : type ≠ .initialDataplacement := by
    rintro rfl
    cases decides
  obtain ⟨other, member, value, found, different⟩ := decided.fresh.between split (again.moves proper)
    (order.decides.trans decides) (again.decides.trans decides)
  refine ⟨other, member, Event.decides_other proper found ?_⟩
  rw [decides]
  exact fun same => different (Option.some.inj same).symm

/-- Between two promotions of one object it was demoted or its promotion
undone, and likewise between two demotions. -/
theorem no_redundant_migration {statusMemoryPages : Nat → ℚ} {actions : List Action} {s : State}
    (executed : (State.start statusMemoryPages).run p actions = .ok s) {first between rest : List Event}
    {event event' : Event} (split : s.table.trace = first ++ event :: between ++ event' :: rest) (objIndex : Int) :
    (event.IsOrder .promotion objIndex → event'.IsOrder .promotion objIndex →
      ∃ other ∈ between, other.IsOrder .demotion objIndex ∨ other = .undone objIndex) ∧
    (event.IsOrder .demotion objIndex → event'.IsOrder .demotion objIndex →
      ∃ other ∈ between, other.IsOrder .promotion objIndex ∨ other = .undone objIndex) := by
  have decided := State.run_decided executed
  exact ⟨decided.between split rfl, decided.between split rfl⟩

/-- A page promoted, the move refused, and promoted again; the doubled key of
the first ranking changes nothing. -/
def promotedTwice : List Action :=
  [.insertObject 7 4096 4096, .readAllocationStatus fun _ => 2,
    .policyPromotion 100 [⟨0, 2, 0, 0, 0⟩, ⟨0, 2, 0, 0, 0⟩],
    .checkMigrationError [⟨4096, 4096, 1, 0, .promotion, 2⟩], .policyPromotion 100 [⟨0, 2, 0, 0, 0⟩]]

def pageOrder (type : BindType) (flag : Int) : Event := .order ⟨4096, 4096, 1, 0, type, flag⟩

theorem no_redundant_migration_undone : ∃ s,
    (State.start fun _ => 0).run machine promotedTwice = .ok s ∧
    s.table.trace = [pageOrder .initialDataplacement 1] ++ pageOrder .promotion 2 :: [.undone 0] ++
      pageOrder .promotion 2 :: [] ∧
    ∃ other ∈ [Event.undone 0], other.IsOrder .demotion 0 ∨ other = .undone 0 := by
  obtain ⟨s, executed, split⟩ : ∃ s,
      (State.start fun _ => 0).run machine promotedTwice = .ok s ∧
      s.table.trace = [pageOrder .initialDataplacement 1] ++ pageOrder .promotion 2 :: [.undone 0] ++
        pageOrder .promotion 2 :: [] := ⟨_, rfl, by decide +kernel⟩
  exact ⟨s, executed, split, (no_redundant_migration executed split 0).1 ⟨rfl, rfl⟩ ⟨rfl, rfl⟩⟩

end OnlineScheduler
