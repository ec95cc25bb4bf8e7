import OnlineScheduler.General.Bytes

/-! The hash of the addresses. `none` stands for a read past the bytes given. -/

namespace OnlineScheduler.HashMap

open Bytes

/-- The macro `U8TO64_LE`. -/
def u8To64Le (data : List Byte) (p : Nat) : Option (BitVec 64) := do
  let p0 ← data[p]?
  let p1 ← data[p + 1]?
  let p2 ← data[p + 2]?
  let p3 ← data[p + 3]?
  let p4 ← data[p + 4]?
  let p5 ← data[p + 5]?
  let p6 ← data[p + 6]?
  let p7 ← data[p + 7]?
  return p0.setWidth 64 ||| p1.setWidth 64 <<< 8 ||| p2.setWidth 64 <<< 16 ||| p3.setWidth 64 <<< 24 |||
    p4.setWidth 64 <<< 32 ||| p5.setWidth 64 <<< 40 ||| p6.setWidth 64 <<< 48 ||| p7.setWidth 64 <<< 56

/-- The macro `U64TO8_LE`, with `U32TO8_LE` in it. -/
def u64To8Le (v : BitVec 64) : List Byte :=
  let u32To8Le (v : BitVec 32) : List Byte :=
    [v.setWidth 8, (v >>> 8).setWidth 8, (v >>> 16).setWidth 8, (v >>> 24).setWidth 8]
  u32To8Le (v.setWidth 32) ++ u32To8Le ((v >>> 32).setWidth 32)

def rotl (x : BitVec 64) (b : Nat) : BitVec 64 := x <<< b ||| x >>> (64 - b)

structure Sip where
  v0 : BitVec 64
  v1 : BitVec 64
  v2 : BitVec 64
  v3 : BitVec 64

/-- The macro `SIPROUND`. -/
def sipRound (s : Sip) : Sip :=
  let { v0, v1, v2, v3 } := s
  let v0 := v0 + v1
  let v1 := rotl v1 13
  let v1 := v1 ^^^ v0
  let v0 := rotl v0 32
  let v2 := v2 + v3
  let v3 := rotl v3 16
  let v3 := v3 ^^^ v2
  let v0 := v0 + v3
  let v3 := rotl v3 21
  let v3 := v3 ^^^ v0
  let v2 := v2 + v1
  let v1 := rotl v1 17
  let v1 := v1 ^^^ v2
  let v2 := rotl v2 32
  ⟨v0, v1, v2, v3⟩

def sipBlock (m : BitVec 64) (s : Sip) : Sip :=
  let s := { s with v3 := s.v3 ^^^ m }
  let s := sipRound (sipRound s)
  { s with v0 := s.v0 ^^^ m }

/-- The loop over whole words, with the number of them left before `end`. -/
def sipLoop (data : List Byte) : Nat → Nat → Sip → Option Sip
  | 0, _, s => some s
  | left + 1, p, s => do
    let m ← u8To64Le data p
    sipLoop data left (p + 8) (sipBlock m s)

/-- The `switch` on `left`: each case falls through to the next. -/
def sipTail (data : List Byte) (p : Nat) : Nat → BitVec 64 → Option (BitVec 64)
  | 0, b => some b
  | left + 1, b => do
    let byte ← data[p + left]?
    sipTail data p left (b ||| byte.setWidth 64 <<< (8 * left))

/-- `SIP64`, on a machine that stores the lowest byte of the seeds first. -/
def sip64 (data : List Byte) (inlen : BitVec 64) (seed0 seed1 : BitVec 64) : Option (BitVec 64) := do
  let k0 ← u8To64Le (ofNat 8 seed0.toNat) 0
  let k1 ← u8To64Le (ofNat 8 seed1.toNat) 0
  let s : Sip := {
    v3 := 0x7465646279746573 ^^^ k1
    v2 := 0x6c7967656e657261 ^^^ k0
    v1 := 0x646f72616e646f6d ^^^ k1
    v0 := 0x736f6d6570736575 ^^^ k0 }
  let end_ := inlen - inlen % 8
  let s ← sipLoop data (end_ / 8).toNat 0 s
  let left := inlen &&& 7
  let b ← sipTail data end_.toNat left.toNat (inlen <<< 56)
  let s := sipBlock b s
  let s := { s with v2 := s.v2 ^^^ 0xff }
  let s := sipRound (sipRound (sipRound (sipRound s)))
  let b := s.v0 ^^^ s.v1 ^^^ s.v2 ^^^ s.v3
  return BitVec.ofNat 64 (toNat (u64To8Le b))

def hashmapSip (data : List Byte) (len : BitVec 64) (seed0 seed1 : BitVec 64) : Option (BitVec 64) :=
  sip64 data len seed0 seed1

end OnlineScheduler.HashMap

namespace OnlineScheduler.Monitor

/-- The item is the address itself; `sizeof(addr)` is the size of a pointer. -/
def addressHash (item : BitVec 64) (seed0 seed1 : BitVec 64) : Option (BitVec 64) :=
  HashMap.hashmapSip (Bytes.ofNat 8 item.toNat) 8 seed0 seed1

end OnlineScheduler.Monitor
