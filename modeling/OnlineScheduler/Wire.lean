import OnlineScheduler.Preload
import OnlineScheduler.General.Bytes

/-! The pipes in bytes. A record is a `data_bind_t` as it lies in memory. -/

namespace OnlineScheduler

def BindType.code : BindType → Nat
  | .initialDataplacement => 1
  | .promotion => 2
  | .demotion => 3

def BindType.ofCode : Nat → Option BindType
  | 1 => some .initialDataplacement
  | 2 => some .promotion
  | 3 => some .demotion
  | _ => none

/-- The members of the struct with their widths, and the padding at its end,
which nothing sets. -/
def DataBind.fields (data : DataBind) (padding : BitVec 32) : List (Nat × Nat) :=
  [(8, data.startAddr.toNat), (8, data.size.toNat), (8, data.nodemaskTargetNode.toNat),
    (4, (BitVec.ofInt 32 data.objIndex).toNat), (4, data.type.code), (4, (BitVec.ofInt 32 data.flag).toNat),
    (4, padding.toNat)]

def DataBind.encode (data : DataBind) (padding : BitVec 32) : List Bytes.Byte := Bytes.join (data.fields padding)

def DataBind.decode (raw : List Bytes.Byte) : Option DataBind :=
  match Bytes.split [8, 8, 8, 4, 4, 4, 4] raw with
  | [startAddr, size, nodemaskTargetNode, objIndex, code, flag, _] =>
    (BindType.ofCode code).map fun type => {
      startAddr := BitVec.ofNat 64 startAddr
      size := BitVec.ofNat 64 size
      nodemaskTargetNode := BitVec.ofNat 64 nodemaskTargetNode
      objIndex := (BitVec.ofNat 32 objIndex).toInt
      type
      flag := (BitVec.ofNat 32 flag).toInt }
  | _ => none

namespace Preload

open Bytes

/-- The pipes and the mbind thread, with the bytes that `buf` has held when
`execute_mbind` was called. -/
structure Wired where
  migration : List Byte
  executed : List (List Byte)
  refused : Option (List Byte)
  migrationError : List Byte

inductive Answer where
  | bytes
  | endOfFile
  | error
deriving DecidableEq

/-- As `Preload.Action`. `write` sets all but the padding; `buf` holds whatever
it held where `read` stores nothing. -/
inductive Wired.Action where
  | write (data : DataBind) (padding : BitVec 32)
  | iterate (answer : Answer) (buf : DataBind) (padding : BitVec 32) (bound : Bool)
  | report

namespace Wired

def start : Wired := ⟨[], [], none, []⟩

def recordSize : Nat := sizeOfDataBind.toNat

/-- `write` of a record. It is short enough to be written whole or wait. -/
def send (capacity : Nat) (pipe raw : List Byte) : Except Blocked (List Byte) :=
  if pipe.length + recordSize ≤ capacity then .ok (pipe ++ raw) else .error .blocked

/-- `read` of up to a record, over what `buf` holds. -/
def read (b : Wired) (buf : List Byte) : Answer → Except Blocked (Int × List Byte × Wired)
  | .bytes =>
    if b.migration = [] then .error .blocked
    else
      let got := b.migration.take recordSize
      .ok (got.length, got ++ buf.drop got.length, { b with migration := b.migration.drop recordSize })
  | .endOfFile => if b.migration = [] then .ok (0, buf, b) else .error .blocked
  | .error => .ok (-1, buf, b)

def executeMbind (raw : List Byte) (bound : Bool) (b : Wired) : Wired :=
  { b with
    executed := b.executed ++ [raw]
    refused := if bound then none else some raw }

def step (capacity : Nat) (b : Wired) : Action → Except Blocked Wired
  | .write data padding => do
    let migration ← send capacity b.migration (data.encode padding)
    return { b with migration }
  | .iterate answer buf padding bound =>
    if b.refused.isSome then .error .blocked
    else do
      let (ret, raw, b) ← b.read (buf.encode padding) answer
      let numRead := guard ret
      return if numRead = 0 then b else b.executeMbind raw bound
  | .report =>
    match b.refused with
    | some raw => do
      let migrationError ← send capacity b.migrationError raw
      return { b with refused := none, migrationError }
    | none => .error .blocked

def run (capacity : Nat) (b : Wired) (actions : List Action) : Except Blocked Wired :=
  actions.foldlM (step capacity) b

end Wired
end Preload
end OnlineScheduler
