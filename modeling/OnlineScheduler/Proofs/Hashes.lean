import OnlineScheduler.Hashing
import OnlineScheduler.General.SipHash
import Mathlib.Tactic.IntervalCases

/-! `hashmap_sip` is SipHash-2-4 of the bytes given, and reads no others. -/

namespace OnlineScheduler.HashMap

open Bytes

variable {data : List Byte} {p : Nat}

theorem u8To64Le_merge (inside : p + 8 ≤ data.length) : u8To64Le data p = some (merge 64 ((data.drop p).take 8)) := by
  have cells : (data.drop p).take 8 =
      [data[p], data[p + 1], data[p + 2], data[p + 3], data[p + 4], data[p + 5], data[p + 6], data[p + 7]] := by
    apply List.ext_getElem
    · simp only [List.length_take, List.length_drop, List.length_cons, List.length_nil]
      omega
    · intro i _ below
      simp only [List.length_cons, List.length_nil] at below
      interval_cases i <;> simp
  rw [cells, u8To64Le]
  simp (disch := omega) only [List.getElem?_eq_getElem, Option.bind_eq_bind, Option.bind_some, Option.pure_def]
  simp only [merge, BitVec.shiftLeft_or_distrib, ← BitVec.shiftLeft_add, BitVec.or_assoc]
  simp

theorem u8To64Le_word (inside : p + 8 ≤ data.length) :
    u8To64Le data p = some (BitVec.ofNat 64 (toNat ((data.drop p).take 8))) := by
  rw [u8To64Le_merge inside, merge_eq]

theorem u8To64Le_stored (v : BitVec 64) : u8To64Le (ofNat 8 v.toNat) 0 = some v := by
  have inside : 0 + 8 ≤ (ofNat 8 v.toNat).length := by rw [length_ofNat]
  have whole : (ofNat 8 v.toNat).take 8 = ofNat 8 v.toNat := List.take_of_length_le (by rw [length_ofNat])
  rw [u8To64Le_word inside, List.drop_zero, whole, toNat_ofNat, word_bytes]

theorem u64To8Le_stored (v : BitVec 64) : BitVec.ofNat 64 (toNat (u64To8Le v)) = v := by
  have bytes : u64To8Le v = ofNat 8 v.toNat := by
    simp only [u64To8Le, ofNat, List.cons_append, List.nil_append, List.cons.injEq, and_true]
    refine ⟨?_, ?_, ?_, ?_, ?_, ?_, ?_, ?_⟩
    all_goals
      apply BitVec.eq_of_toNat_eq
      simp only [BitVec.toNat_setWidth, BitVec.toNat_ushiftRight, BitVec.toNat_ofNat, Nat.shiftRight_eq_div_pow]
      omega
  rw [bytes, toNat_ofNat, word_bytes]

def Sip.state (s : Sip) : SipHash.State := ⟨s.v0, s.v1, s.v2, s.v3⟩

theorem sipBlock_state (m : BitVec 64) (s : Sip) : (sipBlock m s).state = s.state.compress 2 m := rfl

def seeded (seed0 seed1 : BitVec 64) : Sip where
  v3 := 0x7465646279746573 ^^^ seed1
  v2 := 0x6c7967656e657261 ^^^ seed0
  v1 := 0x646f72616e646f6d ^^^ seed1
  v0 := 0x736f6d6570736575 ^^^ seed0

theorem seeded_state (seed0 seed1 : BitVec 64) : (seeded seed0 seed1).state = .start seed0 seed1 := by
  simp only [Sip.state, seeded, SipHash.State.start, BitVec.xor_comm]

theorem finish_state (s : Sip) :
    let last := sipRound (sipRound (sipRound (sipRound { s with v2 := s.v2 ^^^ 0xff })))
    last.v0 ^^^ last.v1 ^^^ last.v2 ^^^ last.v3 = s.state.finish 4 := rfl

theorem sipLoop_takes {left : Nat} (s : Sip) (inside : p + 8 * left ≤ data.length) : ∃ s', sipLoop data left p s = some s' ∧
    s'.state = ((List.range left).map fun k => BitVec.ofNat 64 (toNat ((data.drop (p + 8 * k)).take 8))).foldl
      (SipHash.State.compress 2) s.state := by
  induction left generalizing p s with
  | zero => exact ⟨s, rfl, rfl⟩
  | succ left ih =>
    obtain ⟨s', looped, state⟩ := ih (p := p + 8) (sipBlock (BitVec.ofNat 64 (toNat ((data.drop p).take 8))) s) (by omega)
    refine ⟨s', ?_, ?_⟩
    · rw [sipLoop, u8To64Le_word (by omega)]
      exact looped
    · have next (k : Nat) : p + 8 + 8 * k = p + 8 * (k + 1) := by omega
      rw [state, List.range_succ_eq_map, List.map_cons, List.foldl_cons, List.map_map]
      simp only [Function.comp_def, next]
      rfl

theorem sipTail_takes {left : Nat} (b : BitVec 64) (inside : p + left ≤ data.length) :
    sipTail data p left b = some (b ||| merge 64 ((data.drop p).take left)) := by
  induction left generalizing b with
  | zero => simp [sipTail, merge]
  | succ left ih =>
    have present : data[p + left]? = some data[p + left] := List.getElem?_eq_getElem (by omega)
    have here : (data.drop p)[left]? = some data[p + left] := List.getElem?_drop.trans present
    have length : ((data.drop p).take left).length = left := by rw [List.length_take, List.length_drop]; omega
    rw [sipTail, present, List.take_add_one, here, Option.toList_some, merge_append, length]
    refine (ih _ (by omega)).trans (congrArg some ?_)
    rw [BitVec.or_assoc, BitVec.or_comm (merge 64 _)]
    simp [merge]

theorem final_word {message : List Byte} {inlen : BitVec 64} (length : message.length = inlen.toNat) :
    BitVec.ofNat 64 (toNat (SipHash.final message)) =
      inlen <<< 56 ||| merge 64 (message.drop (8 * (message.length / 8))) := by
  have whole :
      (message.drop (8 * (message.length / 8)) ++ List.replicate (7 - message.length % 8) (0 : Byte)).length = 7 := by
    rw [List.length_append, List.length_drop, List.length_replicate]
    omega
  have last : merge 64 [BitVec.ofNat 8 message.length] <<< (8 * 7) = inlen <<< 56 := by
    apply BitVec.eq_of_toNat_eq
    rw [merge, merge, length]
    simp [Nat.shiftLeft_eq]
    omega
  rw [← merge_eq, SipHash.final, merge_append, whole, last, merge_append, merge_zeros, BitVec.or_comm]
  simp

private theorem end_toNat (len : BitVec 64) : (len - len % 8).toNat = 8 * (len.toNat / 8) := by
  have below : len % 8 ≤ len := by rw [BitVec.le_def, BitVec.toNat_umod]; exact Nat.mod_le _ _
  rw [BitVec.toNat_sub_of_le below, BitVec.toNat_umod]
  simp
  omega

private theorem left_toNat (len : BitVec 64) : (len &&& 7).toNat = len.toNat % 8 := by
  rw [BitVec.toNat_and]
  exact Nat.and_two_pow_sub_one_eq_mod _ 3

/-- The last word closes the message. -/
private theorem last_state {len : BitVec 64} {s start : Sip} (enough : len.toNat ≤ data.length)
    (state : s.state = ((List.range (len.toNat / 8)).map fun k =>
      BitVec.ofNat 64 (toNat ((data.drop (0 + 8 * k)).take 8))).foldl (SipHash.State.compress 2) start.state) :
    (sipBlock (len <<< 56 ||| merge 64 ((data.drop (8 * (len.toNat / 8))).take (len.toNat % 8))) s).state =
      (SipHash.words (SipHash.padded (data.take len.toNat))).foldl (SipHash.State.compress 2) start.state := by
  have length : (data.take len.toNat).length = len.toNat := by rw [List.length_take]; omega
  have rest : (data.drop (8 * (len.toNat / 8))).take (len.toNat % 8) = (data.take len.toNat).drop (8 * (len.toNat / 8)) := by
    rw [List.drop_take]
    congr 1
    omega
  have whole : ((List.range (len.toNat / 8)).map fun k => BitVec.ofNat 64 (toNat ((data.drop (0 + 8 * k)).take 8))) =
      (List.range (len.toNat / 8)).map fun k => BitVec.ofNat 64 (toNat (((data.take len.toNat).drop (8 * k)).take 8)) := by
    apply List.map_congr_left
    intro k member
    rw [List.mem_range] at member
    rw [List.drop_take, List.take_take, Nat.zero_add, Nat.min_eq_left (by omega)]
  have final := final_word length
  rw [length] at final
  rw [sipBlock_state, state, whole, SipHash.words_padded, length, final, rest, List.foldl_append]
  rfl

theorem sip64_hash {len : BitVec 64} (seed0 seed1 : BitVec 64) (enough : len.toNat ≤ data.length) :
    sip64 data len seed0 seed1 = some (SipHash.hash 2 4 seed0 seed1 (data.take len.toNat)) := by
  have words := end_toNat len
  have count : ((len - len % 8) / 8).toNat = len.toNat / 8 := by
    rw [BitVec.toNat_udiv, words]
    simp
  have within : 0 + 8 * (len.toNat / 8) ≤ data.length := by omega
  obtain ⟨s, looped, state⟩ := sipLoop_takes (seeded seed0 seed1) within
  have tail : sipTail data (8 * (len.toNat / 8)) (len.toNat % 8) (len <<< 56) = _ := sipTail_takes _ (by omega)
  unfold seeded at looped
  simp only [sip64, u8To64Le_stored, Option.bind_eq_bind, Option.bind_some, words, count, left_toNat, looped, tail,
    u64To8Le_stored, Option.pure_def]
  rw [SipHash.hash, ← seeded_state, ← last_state enough state]
  exact congrArg some (finish_state _)

/-- For every number of bytes in front of `data`, what is hashed is the message
they make, padded. -/
theorem hashmap_sip_hashes (len seed0 seed1 : BitVec 64) (enough : len.toNat ≤ data.length) :
    hashmapSip data len seed0 seed1 = some (SipHash.hash 2 4 seed0 seed1 (data.take len.toNat)) :=
  sip64_hash seed0 seed1 enough

def hello : List Byte := [104, 101, 108, 108, 111]

theorem hashmap_sip_hashes_hello : hashmapSip hello 5 1 2 = some (SipHash.hash 2 4 1 2 hello) :=
  hashmap_sip_hashes 5 1 2 (by decide)

example : hashmapSip hello 5 1 2 = some 2957200328589801622 := by decide

end OnlineScheduler.HashMap

namespace OnlineScheduler.Monitor

/-- SipHash-2-4 of the eight bytes of an address. -/
def addressSip (item seed0 seed1 : BitVec 64) : BitVec 64 := SipHash.hash 2 4 seed0 seed1 (Bytes.ofNat 8 item.toNat)

theorem addressHash_sip (item seed0 seed1 : BitVec 64) :
    addressHash item seed0 seed1 = some (addressSip item seed0 seed1) :=
  HashMap.sip64_hash seed0 seed1 (Nat.le_of_eq (Bytes.length_ofNat _ _).symm)

end OnlineScheduler.Monitor
