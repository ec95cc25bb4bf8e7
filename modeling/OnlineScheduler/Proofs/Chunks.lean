import OnlineScheduler.Recorder
import Mathlib.Data.List.Nodup
import Mathlib.Data.BitVec

/-! The pieces into which a mapping is split. Insertion and deallocation derive
them separately but by one loop, so both are folds over the same list. -/

namespace OnlineScheduler.Recorder

structure Chunk where
  startAddr : BitVec 64
  size : BitVec 64
  sliced : Int
deriving DecidableEq

/-- What the splitting loop hands on, in order: the loop itself, run on a
callee that only records its arguments. -/
def chunks (startAddr size : BitVec 64) : List Chunk :=
  Id.run (splitObject (fun startAddr size sliced pieces => pure (pieces ++ [⟨startAddr, size, sliced⟩]))
    startAddr size [])

def fullChunks (size : BitVec 64) : Nat := (totalChunks size).toInt.toNat

def lastSize (size : BitVec 64) : BitVec 64 := if 0 < remnantSize size then remnantSize size else chunkSize

private theorem foldl_record {α β : Type} (items : List α) (f : α → β) (initial : List β) :
    items.foldl (fun pieces item => pieces ++ [f item]) initial = initial ++ items.map f := by
  induction items generalizing initial with
  | nil => simp
  | cons item rest ih => simp [ih]

theorem chunks_small {startAddr size : BitVec 64} (small : ¬ chunkSize < size) :
    chunks startAddr size = [⟨startAddr, size, 0⟩] := by
  simp [chunks, splitObject, small]

theorem chunks_large {startAddr size : BitVec 64} (large : chunkSize < size) :
    chunks startAddr size =
      (List.range (fullChunks size)).map (fun i => ⟨startAddr + BitVec.ofNat 64 i * chunkSize, chunkSize, 1⟩) ++
        [⟨startAddr + BitVec.ofNat 64 (fullChunks size) * chunkSize, lastSize size, 1⟩] := by
  simp only [chunks, splitObject, large, if_true, List.foldlM_pure, pure_bind, lastSize, fullChunks]
  split <;> simp only [foldl_record, List.nil_append, Id.run_pure]

/-- Every caller of the splitting loop is a fold over the pieces. -/
theorem splitObject_eq {m : Type → Type} [Monad m] [LawfulMonad m] {σ : Type}
    (call : BitVec 64 → BitVec 64 → Int → σ → m σ) (startAddr size : BitVec 64) (s : σ) :
    splitObject call startAddr size s =
      (chunks startAddr size).foldlM (fun s piece => call piece.startAddr piece.size piece.sliced s) s := by
  by_cases large : chunkSize < size
  · rw [chunks_large large, List.foldlM_append, List.foldlM_map]
    simp only [splitObject, large, if_true, lastSize, fullChunks]
    split <;> simp
  · simp [splitObject, chunks_small large, large]

theorem chunkSize_toNat : chunkSize.toNat = 1000001536 := rfl

theorem totalChunks_toNat (size : BitVec 64) :
    (totalChunks size).toNat = size.toNat / 1000001536 % 2 ^ 32 := by
  simp only [totalChunks, BitVec.toNat_setWidth, BitVec.toNat_udiv, chunkSize_toNat]

/-- Up to 2^31 chunks the quotient survives its conversion to `int`. Beyond it
loses its high bits, and where it comes out negative the loop does not run. -/
theorem fullChunks_eq (size : BitVec 64) :
    fullChunks size =
      if size.toNat / 1000001536 % 2 ^ 32 < 2 ^ 31 then size.toNat / 1000001536 % 2 ^ 32 else 0 := by
  have same := totalChunks_toNat size
  simp only [fullChunks, BitVec.toInt_eq_toNat_cond]
  split <;> split <;> omega

theorem fullChunks_small {size : BitVec 64} (small : size.toNat / 1000001536 < 2 ^ 31) :
    fullChunks size = size.toNat / 1000001536 := by
  rw [fullChunks_eq, if_pos (by omega), Nat.mod_eq_of_lt (by omega)]

theorem fullChunks_lt (size : BitVec 64) : fullChunks size < 2 ^ 31 := by
  rw [fullChunks_eq]
  split <;> omega

theorem fullChunks_below {size : BitVec 64} (remnant : size.toNat % 1000001536 ≠ 0) :
    fullChunks size * 1000001536 < size.toNat := by
  have bound : fullChunks size ≤ size.toNat / 1000001536 := by
    rw [fullChunks_eq]
    split
    · exact Nat.mod_le _ _
    · exact Nat.zero_le _
  calc fullChunks size * 1000001536
      ≤ size.toNat / 1000001536 * 1000001536 := Nat.mul_le_mul_right _ bound
    _ < size.toNat := by omega

theorem remnantSize_small {size : BitVec 64} (small : size.toNat / 1000001536 < 2 ^ 31) :
    (remnantSize size).toNat = size.toNat % 1000001536 := by
  have same := totalChunks_toNat size
  have positive : (totalChunks size).msb = false := by
    rw [BitVec.msb_eq_decide]
    simp only [decide_eq_false_iff_not]
    omega
  have extended : ((totalChunks size).signExtend 64).toNat = size.toNat / 1000001536 := by
    rw [BitVec.signExtend_eq_setWidth_of_msb_false positive, BitVec.toNat_setWidth]
    omega
  have bound := size.isLt
  have product : ((totalChunks size).signExtend 64 * chunkSize).toNat =
      size.toNat / 1000001536 * 1000001536 := by
    rw [BitVec.toNat_mul, extended, chunkSize_toNat]
    omega
  rw [remnantSize, BitVec.toNat_sub, product]
  omega

theorem chunks_size {startAddr size : BitVec 64} (small : size.toNat < 2 ^ 47) {piece : Chunk}
    (member : piece ∈ chunks startAddr size) : piece.size.toNat ≤ chunkSize.toNat := by
  by_cases large : chunkSize < size
  · rw [chunks_large large] at member
    rcases List.mem_append.mp member with full | last
    · obtain ⟨i, _, rfl⟩ := List.mem_map.mp full
      exact Nat.le_refl _
    · rw [List.mem_singleton.mp last]
      change (lastSize size).toNat ≤ _
      rw [lastSize]
      split
      next =>
        have few : size.toNat / 1000001536 < 2 ^ 31 := by omega
        rw [remnantSize_small few, chunkSize_toNat]
        omega
      next => exact Nat.le_refl _
  · rw [chunks_small large, List.mem_singleton] at member
    rw [member]
    exact Nat.le_of_not_lt large

theorem chunks_pos (startAddr size : BitVec 64) : 0 < (chunks startAddr size).length := by
  by_cases large : chunkSize < size
  · simp [chunks_large large]
  · simp [chunks_small large]

theorem offset_toNat {i : Nat} (small : i < 2 ^ 32) :
    (BitVec.ofNat 64 i * chunkSize).toNat = i * 1000001536 := by
  rw [BitVec.toNat_mul, BitVec.toNat_ofNat, chunkSize_toNat, Nat.mod_eq_of_lt (by omega),
    Nat.mod_eq_of_lt (by omega)]

theorem chunks_starts (startAddr size : BitVec 64) :
    ∃ count < 2 ^ 32, (chunks startAddr size).map Chunk.startAddr =
      (List.range count).map (fun i => startAddr + BitVec.ofNat 64 i * chunkSize) := by
  by_cases large : chunkSize < size
  · have bound := fullChunks_lt size
    refine ⟨fullChunks size + 1, by omega, ?_⟩
    simp [chunks_large large, List.range_succ]
  · exact ⟨1, by decide, by simp [chunks_small large]⟩

/-- The pieces start at distinct addresses: an offset of fewer than 2^32 chunks
does not wrap around. -/
theorem chunks_nodup (startAddr size : BitVec 64) : ((chunks startAddr size).map Chunk.startAddr).Nodup := by
  obtain ⟨count, bound, same⟩ := chunks_starts startAddr size
  rw [same]
  refine List.Nodup.map_on ?_ List.nodup_range
  intro i first j second equal
  have offsets := congrArg BitVec.toNat (add_left_cancel equal)
  rw [List.mem_range] at first second
  rw [offset_toNat (by omega), offset_toNat (by omega)] at offsets
  omega

end OnlineScheduler.Recorder
