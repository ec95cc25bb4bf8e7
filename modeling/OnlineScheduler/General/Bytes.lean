import Mathlib.Data.BitVec
import Mathlib.Algebra.Order.Ring.Nat

/-! Numbers in bytes, the lowest byte first, and records of such numbers one
after another. -/

namespace Bytes

abbrev Byte := BitVec 8

def ofNat : Nat → Nat → List Byte
  | 0, _ => []
  | count + 1, value => BitVec.ofNat 8 value :: ofNat count (value / 256)

def toNat : List Byte → Nat
  | [] => 0
  | byte :: rest => byte.toNat + 256 * toNat rest

@[simp] theorem length_ofNat (count value : Nat) : (ofNat count value).length = count := by
  induction count generalizing value with
  | zero => rfl
  | succ count ih => rw [ofNat, List.length_cons, ih]

theorem toNat_ofNat (count value : Nat) : toNat (ofNat count value) = value % 256 ^ count := by
  induction count generalizing value with
  | zero => rw [ofNat, toNat, Nat.pow_zero, Nat.mod_one]
  | succ count ih =>
    rw [ofNat, toNat, ih, BitVec.toNat_ofNat]
    calc value % 2 ^ 8 + 256 * (value / 256 % 256 ^ count)
        = value % (256 * 256 ^ count) := Nat.mod_mul.symm
      _ = value % 256 ^ (count + 1) := by rw [Nat.pow_succ']

/-- The eight bytes of a word keep all of it. -/
theorem word_bytes (word : BitVec 64) : BitVec.ofNat 64 (word.toNat % 256 ^ 8) = word := by
  apply BitVec.eq_of_toNat_eq
  have bound := word.isLt
  rw [BitVec.toNat_ofNat]
  omega

/-- Each field with its width, and its value cut to that width. -/
def join (fields : List (Nat × Nat)) : List Byte := fields.flatMap fun field => ofNat field.1 field.2

def split : List Nat → List Byte → List Nat
  | [], _ => []
  | width :: rest, bytes => toNat (bytes.take width) :: split rest (bytes.drop width)

theorem length_join (fields : List (Nat × Nat)) : (join fields).length = (fields.map Prod.fst).sum := by
  simp only [join, List.length_flatMap, length_ofNat]

theorem split_join (fields : List (Nat × Nat)) :
    split (fields.map Prod.fst) (join fields) = fields.map fun field => field.2 % 256 ^ field.1 := by
  induction fields with
  | nil => rfl
  | cons field rest ih =>
    have width : field.1 = (ofNat field.1 field.2).length := (length_ofNat _ _).symm
    have first : (join (field :: rest)).take field.1 = ofNat field.1 field.2 := List.take_left' width.symm
    have last : (join (field :: rest)).drop field.1 = join rest := List.drop_left' width.symm
    rw [List.map_cons, split, first, last, ih, toNat_ofNat, List.map_cons]

/-- The bytes shifted to their places. -/
def merge (width : Nat) : List Byte → BitVec width
  | [] => 0
  | byte :: rest => byte.setWidth width ||| merge width rest <<< 8

theorem merge_eq (width : Nat) (bytes : List Byte) : merge width bytes = BitVec.ofNat width (toNat bytes) := by
  induction bytes with
  | nil => rfl
  | cons byte rest ih =>
    have apart : byte.setWidth width &&& merge width rest <<< 8 = 0 := by
      apply BitVec.eq_of_getLsbD_eq
      intro i inside
      rw [BitVec.getLsbD_and, BitVec.getLsbD_setWidth, BitVec.getLsbD_shiftLeft]
      by_cases low : i < 8
      · simp [low]
      · simp [BitVec.getLsbD_of_ge byte i (by omega)]
    rw [merge, ← BitVec.add_eq_or_of_and_eq_zero _ _ apart, ih, toNat, BitVec.ofNat_add]
    congr 1
    · apply BitVec.eq_of_toNat_eq
      rw [BitVec.toNat_setWidth, BitVec.toNat_ofNat]
    · apply BitVec.eq_of_toNat_eq
      rw [BitVec.toNat_shiftLeft, BitVec.toNat_ofNat, BitVec.toNat_ofNat, Nat.shiftLeft_eq, Nat.mod_mul_mod,
        Nat.mul_comm]

theorem merge_append (width : Nat) (low high : List Byte) :
    merge width (low ++ high) = merge width low ||| merge width high <<< (8 * low.length) := by
  induction low with
  | nil => simp [merge]
  | cons byte rest ih =>
    rw [List.cons_append, merge, ih, merge, BitVec.shiftLeft_or_distrib, ← BitVec.shiftLeft_add, List.length_cons,
      BitVec.or_assoc]
    rfl

theorem merge_zeros (width count : Nat) : merge width (List.replicate count 0) = 0 := by
  induction count with
  | zero => rfl
  | succ count ih => rw [List.replicate_succ, merge, ih]; simp

end Bytes
