import OnlineScheduler.Wire
import OnlineScheduler.General.Frames
import OnlineScheduler.Proofs.Orders
import OnlineScheduler.Proofs.Deliveries

/-! The pipes in bytes carry the records. No read ends inside a record, so the
mbind thread executes what was written, whatever stands in the padding. -/

namespace OnlineScheduler

/-- The two members that are no longs keep their values in an `int`. -/
structure DataBind.Fits (data : DataBind) : Prop where
  objIndex : -2 ^ 31 ≤ data.objIndex ∧ data.objIndex < 2 ^ 31
  flag : -2 ^ 31 ≤ data.flag ∧ data.flag < 2 ^ 31

private theorem int_read {value : Int} (fits : -2 ^ 31 ≤ value ∧ value < 2 ^ 31) :
    (BitVec.ofNat 32 ((BitVec.ofInt 32 value).toNat % 256 ^ 4)).toInt = value := by
  have same : BitVec.ofNat 32 ((BitVec.ofInt 32 value).toNat % 256 ^ 4) = BitVec.ofInt 32 value := by
    apply BitVec.eq_of_toNat_eq
    have bound := (BitVec.ofInt 32 value).isLt
    rw [BitVec.toNat_ofNat]
    omega
  rw [same, BitVec.toInt_ofInt]
  exact Int.bmod_eq_of_le (by omega) (by omega)

private theorem code_read (type : BindType) : BindType.ofCode (type.code % 256 ^ 4) = some type := by
  cases type <;> rfl

theorem DataBind.decode_encode {data : DataBind} (fits : data.Fits) (padding : BitVec 32) :
    DataBind.decode (data.encode padding) = some data := by
  have members : Bytes.split [8, 8, 8, 4, 4, 4, 4] (data.encode padding) = _ := Bytes.split_join (data.fields padding)
  rw [decode, members]
  simp only [fields, List.map_cons, List.map_nil, code_read, Option.map_some, Bytes.word_bytes, int_read fits.objIndex,
    int_read fits.flag]

theorem DataBind.length_encode (data : DataBind) (padding : BitVec 32) :
    (data.encode padding).length = Preload.Wired.recordSize := by
  rw [encode, Bytes.length_join]
  rfl

namespace Preload

open Frames

def Carries (data : DataBind) (raw : List Bytes.Byte) : Prop := data.Fits ∧ ∃ padding, raw = data.encode padding

theorem Carries.length {data : DataBind} {raw : List Bytes.Byte} (carries : Carries data raw) :
    raw.length = Wired.recordSize := by
  obtain ⟨_, padding, rfl⟩ := carries
  exact data.length_encode padding

theorem Carries.decoded {data : DataBind} {raw : List Bytes.Byte} (carries : Carries data raw) :
    DataBind.decode raw = some data := by
  obtain ⟨fits, padding, rfl⟩ := carries
  exact DataBind.decode_encode fits padding

theorem decoded_all {records : List DataBind} {raws : List (List Bytes.Byte)}
    (carried : List.Forall₂ Carries records raws) : raws.map DataBind.decode = records.map some := by
  induction carried with
  | nil => rfl
  | cons carries _ ih => rw [List.map_cons, List.map_cons, carries.decoded, ih]

/-- The same step on records. -/
def Wired.Action.record : Wired.Action → Preload.Action
  | .write data _ => .write data
  | .iterate .bytes _ _ bound => .iterate .record bound
  | .iterate .endOfFile buf _ bound => .iterate (.endOfFile buf) bound
  | .iterate .error buf _ bound => .iterate (.error buf) bound
  | .report => .report

def Wired.Action.Fits : Wired.Action → Prop
  | .write data _ => data.Fits
  | .iterate .error buf _ _ => buf.Fits
  | _ => True

/-- The bytes carry the records, wherever they are. -/
structure Wired.Refines (b : Wired) (s : State) : Prop where
  migration : Framed Carries s.migration.queued b.migration
  executed : List.Forall₂ Carries s.executed b.executed
  refused : Option.Rel Carries s.refused b.refused
  migrationError : Framed Carries s.migrationError.queued b.migrationError

namespace Wired

variable {b b' : Wired} {s : State} {capacity : Nat} {action : Action} {actions : List Action}

theorem send_ok {pipe raw after : List Bytes.Byte} (sent : send capacity pipe raw = .ok after) :
    pipe.length + recordSize ≤ capacity ∧ after = pipe ++ raw := by
  rw [send] at sent
  split at sent
  next room => cases sent; exact ⟨room, rfl⟩
  next => cases sent

theorem Refines.idle (refines : b.Refines s) : s.refused.isSome = b.refused.isSome := by
  have refused := refines.refused
  revert refused
  generalize s.refused = pending, b.refused = waiting
  intro refused
  cases refused with
  | some => rfl
  | none => rfl

theorem Refines.execute (refines : b.Refines s) {data : DataBind} {raw : List Bytes.Byte} (carries : Carries data raw)
    (bound : Bool) : (b.executeMbind raw bound).Refines (s.executeMbind data bound) := by
  refine ⟨refines.migration, ?_, ?_, refines.migrationError⟩
  · exact List.rel_append refines.executed (.cons carries .nil)
  · cases bound with
    | true => exact .none
    | false => exact .some carries

/-- A read that finds bytes finds a record, and nothing is left of `buf`. -/
theorem Refines.read (refines : b.Refines s) {buf : DataBind} {padding : BitVec 32} {ret : Int} {raw : List Bytes.Byte}
    (answered : b.read (buf.encode padding) .bytes = .ok (ret, raw, b')) : ret = recordSize ∧
      ∃ data s', s.read .record = .ok (sizeOfDataBind, data, s') ∧ Carries data raw ∧ b'.Refines s' := by
  simp only [Wired.read] at answered
  split at answered
  next => cases answered
  next filled =>
    obtain ⟨data, rest, queued, carries, remaining⟩ := refines.migration.read (fun _ _ => Carries.length) filled
    have whole : (buf.encode padding).drop (b.migration.take recordSize).length = [] := by
      rw [carries.length, ← buf.length_encode padding, List.drop_length]
    rw [whole, List.append_nil] at answered
    cases answered
    have took : s.migration.take = some (data, ⟨s.migration.taken ++ [data], rest⟩) := by rw [Fifo.take, queued]
    refine ⟨congrArg Nat.cast carries.length, data, { s with migration := ⟨s.migration.taken ++ [data], rest⟩ }, ?_,
      carries, ?_⟩
    · rw [State.read, took]
    · exact ⟨remaining, refines.executed, refines.refused, refines.migrationError⟩

theorem step_refines (fits : action.Fits) (ok : b.step capacity action = .ok b') (refines : b.Refines s) :
    ∃ s', s.step (capacity / recordSize) action.record = .ok s' ∧ b'.Refines s' := by
  cases action with
  | write data padding =>
    obtain ⟨migration, sent, done⟩ := Runs.bind_ok.mp ok
    obtain ⟨_, rfl⟩ := send_ok sent
    cases done
    refine ⟨_, rfl, ?_, refines.executed, refines.refused, refines.migrationError⟩
    exact refines.migration.snoc ⟨fits, padding, rfl⟩
  | report =>
    obtain ⟨migration, executed, refused, migrationError⟩ := refines
    simp only [step] at ok
    split at ok
    next raw waiting =>
      obtain ⟨after, sent, done⟩ := Runs.bind_ok.mp ok
      obtain ⟨room, rfl⟩ := send_ok sent
      cases done
      rw [waiting] at refused
      obtain ⟨data, pending, carries⟩ : ∃ data, s.refused = some data ∧ Carries data raw := by
        revert refused
        generalize s.refused = pending
        intro refused
        cases refused with
        | some carries => exact ⟨_, rfl, carries⟩
      have fewer : s.migrationError.queued.length < capacity / recordSize := by
        rw [migrationError.length fun _ _ => Carries.length] at room
        have width : recordSize = 40 := rfl
        rw [width] at room ⊢
        omega
      refine ⟨{ s with refused := none, migrationError := s.migrationError.put data }, ?_, migration, executed, .none,
        migrationError.snoc carries⟩
      simp only [Action.record, State.step, pending, if_pos fewer]
    next => cases ok
  | iterate answer buf padding bound =>
    rw [step, ← refines.idle] at ok
    split at ok
    next => cases ok
    next idle =>
      obtain ⟨⟨ret, raw, middle⟩, answered, done⟩ := Runs.bind_ok.mp ok
      cases answer with
      | bytes =>
        obtain ⟨rfl, data, s', took, carries, after⟩ := refines.read answered
        cases done
        refine ⟨s'.executeMbind data bound, ?_, after.execute carries bound⟩
        rw [Action.record, State.step, if_neg idle, took]
        rfl
      | endOfFile =>
        simp only [Wired.read] at answered
        split at answered
        next empty =>
          cases answered
          cases done
          refine ⟨s, ?_, refines⟩
          have none : s.migration.queued = [] := by
            have length := refines.migration.length fun _ _ => Carries.length
            rw [empty] at length
            cases queued : s.migration.queued with
            | nil => rfl
            | cons => rw [queued] at length; cases length
          simp only [Action.record, State.step, if_neg idle, State.read, none, if_true]
          rfl
        next => cases answered
      | error =>
        cases answered
        cases done
        refine ⟨s.executeMbind buf bound, ?_, refines.execute ⟨fits, padding, rfl⟩ bound⟩
        rw [Action.record, State.step, if_neg idle]
        rfl

theorem run_refines (fits : ∀ action ∈ actions, action.Fits) (ok : start.run capacity actions = .ok b) :
    ∃ s, State.start.run (capacity / recordSize) (actions.map Action.record) = .ok s ∧ b.Refines s := by
  induction actions using List.reverseRecOn generalizing b with
  | nil =>
    cases ok
    exact ⟨.start, rfl, .nil, .nil, .none, .nil⟩
  | append_singleton first action ih =>
    obtain ⟨middle, before, last⟩ := Runs.snoc_ok.mp ok
    obtain ⟨s, executed, refines⟩ := ih (fun earlier member => fits earlier (by simp [member])) before
    obtain ⟨s', stepped, after⟩ := step_refines (fits action (by simp)) last refines
    refine ⟨s', ?_, after⟩
    rw [List.map_append, List.map_singleton]
    exact Runs.snoc_ok.mpr ⟨s, executed, stepped⟩

/-- Bytes that are the given records, one after another and nothing else. -/
def Carried (records : List DataBind) (bytes : List Bytes.Byte) : Prop :=
  ∃ raws : List (List Bytes.Byte), bytes = raws.flatten ∧ (∀ raw ∈ raws, raw.length = recordSize) ∧
    raws.map DataBind.decode = records.map some

theorem carried {records : List DataBind} {bytes : List Bytes.Byte} (framed : Framed Carries records bytes) :
    Carried records bytes := by
  obtain ⟨raws, same, widths, frames⟩ := framed.frames fun _ _ => Carries.length
  exact ⟨raws, same, widths, decoded_all frames⟩

/-- The order for one page, read over a demotion that `buf` still holds, and
refused. -/
def refusedPage : List Action :=
  [.write page 1, .iterate .bytes ⟨8192, 8192, 2, 5, .demotion, 2⟩ 7 false, .report, .iterate .endOfFile page 0 true]

end Wired
end Preload

/-! The scheduler's own orders. -/

variable {p : Platform} {t t' : Table}

def Table.Fits (t : Table) : Prop := ∀ data ∈ t.orders, data.Fits

theorem Write.fits (written : Write p t t') (fits : t.Fits) : t'.Fits := by
  have added (slot : Fin maxObjects) (startAddr size node : BitVec 64) (type : BindType) (flag : Int)
      (flags : -2 ^ 31 ≤ flag ∧ flag < 2 ^ 31) : DataBind.Fits ⟨startAddr, size, node, slot.val, type, flag⟩ := by
    have bound := slot.isLt
    simp only [maxObjects] at bound
    refine ⟨⟨?_, ?_⟩, flags⟩
    · dsimp only; omega
    · dsimp only; omega
  have emitted {data : DataBind} (own : data.Fits) (trace : t'.trace = t.trace ++ [.order data]) : t'.Fits := by
    rw [Table.Fits, orders_emit trace]
    simpa only [List.forall_mem_append, List.forall_mem_singleton] using ⟨fits, own⟩
  cases written with
  | store stored =>
    cases stored with
    | store pid startAddr size sliced slot found => exact emitted (added slot _ _ _ _ _ (by decide)) rfl
  | free freed => cases freed; exact fits
  | measure measured => cases measured; exact fits
  | touch touched =>
    cases touched with
    | promote slot => exact emitted (added slot _ _ _ _ _ (by decide)) rfl
    | demote slot => exact emitted (added slot _ _ _ _ _ (by decide)) rfl
    | undo slot => rw [Table.Fits, orders_undo]; exact fits
    | status => exact fits
    | readClock => exact fits

namespace Preload.Wired

variable {b : Wired} {capacity : Nat} {actions : List Action}

/-- When the writers write the orders of a run of the scheduler, the mbind
thread has executed the first of them, and the pipe holds the others. -/
theorem orders_decoded {statusMemoryPages : Nat → ℚ} {operations : List OnlineScheduler.Action}
    {scheduler : OnlineScheduler.State} (ran : (OnlineScheduler.State.start statusMemoryPages).run p operations = .ok scheduler)
    (written : Preload.written (actions.map Action.record) = scheduler.table.orders)
    (sound : ∀ action ∈ actions, ¬ action.record.FailedRead) (ok : start.run capacity actions = .ok b) :
    ∃ done waiting, scheduler.table.orders = done ++ waiting ∧
      b.executed.map DataBind.decode = done.map some ∧ Carried waiting b.migration := by
  have orders : scheduler.table.Fits := preserved Write.fits (State.run_writes ran) (fun _ none => nomatch none)
  have fits : ∀ action ∈ actions, action.Fits := by
    intro action member
    cases action with
    | write data padding =>
      apply orders
      rw [← written, Preload.written, List.mem_flatten]
      exact ⟨[data], List.mem_map.mpr ⟨_, List.mem_map_of_mem member, rfl⟩, List.mem_singleton_self _⟩
    | iterate answer buf padding bound =>
      cases answer with
      | error => exact absurd trivial (sound _ member)
      | _ => trivial
    | report => trivial
  obtain ⟨s, executed, refines⟩ := run_refines fits ok
  have delivered : s.executed = s.migration.taken := by
    refine Runs.invariant (fun s => s.executed = s.migration.taken) ?_ executed rfl
    intro record member _ _ stepped
    obtain ⟨action, inside, rfl⟩ := List.mem_map.mp member
    exact (step_handles stepped).delivered (sound action inside)
  refine ⟨s.executed, s.migration.queued, ?_, decoded_all refines.executed, carried refines.migration⟩
  rw [delivered, ← written]
  exact ((run_written executed).trans (List.nil_append _)).symm

theorem orders_decoded_page : ∃ (scheduler : OnlineScheduler.State) (b : Wired) (done waiting : List DataBind),
    (OnlineScheduler.State.start fun _ => 0).run machine [.insertObject 7 4096 4096] = .ok scheduler ∧
    start.run 65536 refusedPage = .ok b ∧ scheduler.table.orders = done ++ waiting ∧
    b.executed.map DataBind.decode = done.map some := by
  have ran : (OnlineScheduler.State.start fun _ => 0).run machine [.insertObject 7 4096 4096] = .ok _ := rfl
  have wired : start.run 65536 refusedPage = .ok _ := rfl
  obtain ⟨done, waiting, split, decoded, _⟩ := orders_decoded ran (by decide +kernel) (by decide) wired
  exact ⟨_, _, done, waiting, ran, wired, split, decoded⟩

end Preload.Wired
end OnlineScheduler
