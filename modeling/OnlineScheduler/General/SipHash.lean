import OnlineScheduler.General.Bytes

/-! SipHash: four words that take in a padded message eight bytes at a time. -/

namespace SipHash

open Bytes

structure State where
  v0 : BitVec 64
  v1 : BitVec 64
  v2 : BitVec 64
  v3 : BitVec 64
deriving DecidableEq

namespace State

def round (s : State) : State :=
  let v0 := s.v0 + s.v1
  let v1 := s.v1.rotateLeft 13 ^^^ v0
  let v0 := v0.rotateLeft 32
  let v2 := s.v2 + s.v3
  let v3 := s.v3.rotateLeft 16 ^^^ v2
  let v0 := v0 + v3
  let v3 := v3.rotateLeft 21 ^^^ v0
  let v2 := v2 + v1
  let v1 := v1.rotateLeft 17 ^^^ v2
  let v2 := v2.rotateLeft 32
  ⟨v0, v1, v2, v3⟩

def start (k0 k1 : BitVec 64) : State :=
  ⟨k0 ^^^ 0x736f6d6570736575, k1 ^^^ 0x646f72616e646f6d, k0 ^^^ 0x6c7967656e657261, k1 ^^^ 0x7465646279746573⟩

def compress (rounds : Nat) (s : State) (m : BitVec 64) : State :=
  let s := round^[rounds] { s with v3 := s.v3 ^^^ m }
  { s with v0 := s.v0 ^^^ m }

def finish (rounds : Nat) (s : State) : BitVec 64 :=
  let s := round^[rounds] { s with v2 := s.v2 ^^^ 0xff }
  s.v0 ^^^ s.v1 ^^^ s.v2 ^^^ s.v3

end State

/-- The message up to a multiple of eight, with its length modulo 256 in the
last byte. -/
def padded (message : List Byte) : List Byte :=
  message ++ List.replicate (7 - message.length % 8) 0 ++ [BitVec.ofNat 8 message.length]

def words (bytes : List Byte) : List (BitVec 64) :=
  (List.range (bytes.length / 8)).map fun k => BitVec.ofNat 64 (toNat ((bytes.drop (8 * k)).take 8))

/-- SipHash-c-d. -/
def hash (c d : Nat) (k0 k1 : BitVec 64) (message : List Byte) : BitVec 64 :=
  ((words (padded message)).foldl (State.compress c) (State.start k0 k1)).finish d

def final (message : List Byte) : List Byte :=
  message.drop (8 * (message.length / 8)) ++ List.replicate (7 - message.length % 8) 0 ++
    [BitVec.ofNat 8 message.length]

theorem length_padded (message : List Byte) : (padded message).length = 8 * (message.length / 8 + 1) := by
  simp only [padded, List.length_append, List.length_replicate, List.length_singleton]
  omega

/-- The whole words of the message, and a last one that is never missing. -/
theorem words_padded (message : List Byte) : words (padded message) =
    (List.range (message.length / 8)).map (fun k => BitVec.ofNat 64 (toNat ((message.drop (8 * k)).take 8))) ++
      [BitVec.ofNat 64 (toNat (final message))] := by
  have count : (padded message).length / 8 = message.length / 8 + 1 := by rw [length_padded]; omega
  rw [words, count, List.range_succ, List.map_append, List.map_singleton]
  congr 1
  · apply List.map_congr_left
    intro k member
    rw [List.mem_range] at member
    have inside : 8 ≤ (message.drop (8 * k)).length := by rw [List.length_drop]; omega
    rw [padded, List.append_assoc, List.drop_append_of_le_length (by omega), List.take_append_of_le_length inside]
  · have short : (final message).length ≤ 8 := by
      simp only [final, List.length_append, List.length_drop, List.length_replicate, List.length_singleton]
      omega
    have last : (padded message).drop (8 * (message.length / 8)) = final message := by
      rw [padded, List.append_assoc, List.drop_append_of_le_length (by omega), ← List.append_assoc, final]
    rw [last, List.take_of_length_le short]

end SipHash
