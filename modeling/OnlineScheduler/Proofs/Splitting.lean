import OnlineScheduler.Proofs.TableInvariant
import OnlineScheduler.General.Tiling

/-! Whether the pieces of a mapping are the mapping. They are unless the size
is a multiple of `CHUNK_SIZE` above it, when a full chunk too many is recorded,
or the number of chunks does not fit an `int`. -/

namespace OnlineScheduler

variable {p : Platform} {t t' : Table}

structure Extent where
  startAddr : BitVec 64
  endAddr : BitVec 64
  size : BitVec 64
deriving DecidableEq

def Object.extent (object : Object) : Extent := ⟨object.startAddr, object.endAddr, object.size⟩

def Extent.bytes (extent : Extent) : Nat × Nat := (extent.startAddr.toNat, extent.endAddr.toNat)

namespace Recorder

def Chunk.extent (piece : Chunk) : Extent := ⟨piece.startAddr, piece.startAddr + piece.size, piece.size⟩

def added (before after : Table) : List Extent :=
  ((scan maxObjects).filter (fun i => before.objAlloc i ≠ 1 ∧ after.objAlloc i = 1)).map
    (fun i => (after.objVector i).extent)

structure SplitsExactly (startAddr size : BitVec 64) (extents : List Extent) : Prop where
  tiles : Tiling.Tiles startAddr.toNat (extents.map Extent.bytes) (startAddr.toNat + size.toNat)
  bounded : ∀ extent ∈ extents, extent.size ≤ chunkSize
  total : (extents.map fun extent => extent.size.toNat).sum = size.toNat
  covered : ∀ byte, (extents.map Extent.bytes).countP (fun bytes => bytes.1 ≤ byte ∧ byte < bytes.2) =
    if startAddr.toNat ≤ byte ∧ byte < startAddr.toNat + size.toNat then 1 else 0

/-- When the loop and the branches after it come out even. -/
def Splittable (size : BitVec 64) : Prop :=
  size ≤ chunkSize ∨ size % chunkSize ≠ 0 ∧ (size / chunkSize).toNat < 2 ^ 31

instance (size : BitVec 64) : Decidable (Splittable size) := inferInstanceAs (Decidable (_ ∨ _))

theorem splittable_iff (size : BitVec 64) :
    Splittable size ↔ size.toNat ≤ 1000001536 ∨
      size.toNat % 1000001536 ≠ 0 ∧ size.toNat / 1000001536 < 2 ^ 31 := by
  simp [Splittable, BitVec.le_def, ← BitVec.toNat_inj, chunkSize_toNat]

theorem Splittable.large {size : BitVec 64} (splittable : Splittable size) (large : chunkSize < size) :
    size.toNat % 1000001536 ≠ 0 ∧ size.toNat / 1000001536 < 2 ^ 31 := by
  have long : 1000001536 < size.toNat := BitVec.lt_def.mp large
  exact ((splittable_iff size).mp splittable).resolve_left (by omega)

theorem slotsFrom_map {α β : Type} {first : Nat} {f : Fin maxObjects → β} {g : α → β} {items : List α}
    (filled : ∀ k item, items[k]? = some item → ∃ i : Fin maxObjects, i.val = first + k ∧ f i = g item) :
    (slotsFrom first items.length).map f = items.map g := by
  induction items generalizing first with
  | nil => rfl
  | cons item rest ih =>
    obtain ⟨i, position, same⟩ := filled 0 item rfl
    have remaining : (slotsFrom (first + 1) rest.length).map f = rest.map g := by
      apply ih
      intro k later found
      obtain ⟨j, position, same⟩ := filled (k + 1) later (by simpa using found)
      exact ⟨j, by omega, same⟩
    obtain rfl : first = i.val := position.symm
    rw [List.length_cons, slotsFrom_succ, List.map_cons, List.map_cons, remaining, same]

theorem Inserted.added {pieces : List Chunk} (inserted : Inserted t t' pieces) (valid : t.Valid) :
    added t t' = pieces.map Chunk.extent := by
  have total := inserted.total
  obtain ⟨count, whole⟩ := Nat.exists_eq_add_of_le inserted.valid.bounded
  have before : (scan t.totalObj).filter (fun i => t.objAlloc i ≠ 1 ∧ t'.objAlloc i = 1) = [] := by
    apply List.filter_eq_nil_iff.mpr
    intro i member
    have same := (inserted.old i (mem_scan.mp member)).2
    simp [same]
  have filled : (slotsFrom t.totalObj pieces.length).filter (fun i => t.objAlloc i ≠ 1 ∧ t'.objAlloc i = 1) =
      slotsFrom t.totalObj pieces.length := by
    apply List.filter_eq_self.mpr
    intro i member
    obtain ⟨above, below⟩ := mem_slotsFrom.mp member
    have inside : i.val - t.totalObj < pieces.length := by omega
    obtain ⟨j, position, live, _⟩ := inserted.new _ _ (List.getElem?_eq_getElem inside)
    have same : j = i := Fin.ext (by omega)
    subst same
    simp [(valid.unused j above).1, live]
  have past : (slotsFrom t'.totalObj count).filter (fun i => t.objAlloc i ≠ 1 ∧ t'.objAlloc i = 1) = [] := by
    apply List.filter_eq_nil_iff.mpr
    intro i member
    have free := (inserted.valid.unused i (mem_slotsFrom.mp member).1).1
    simp [free]
  have slots : scan maxObjects =
      scan t.totalObj ++ slotsFrom t.totalObj pieces.length ++ slotsFrom t'.totalObj count := by
    rw [← scan_add, ← total, ← scan_add, ← whole]
  rw [Recorder.added, slots, List.filter_append, List.filter_append, before, filled, past, List.nil_append,
    List.append_nil]
  apply slotsFrom_map
  intro k piece found
  obtain ⟨i, position, _, holds⟩ := inserted.new k piece found
  refine ⟨i, position, ?_⟩
  simp only [Object.extent, Chunk.extent, holds.startAddr, holds.endAddr, holds.size]

theorem address_toNat {startAddr : BitVec 64} {i : Nat} (small : i < 2 ^ 32)
    (fits : startAddr.toNat + i * 1000001536 < 2 ^ 64) :
    (startAddr + BitVec.ofNat 64 i * chunkSize).toNat = startAddr.toNat + i * 1000001536 := by
  rw [BitVec.toNat_add, offset_toNat small, Nat.mod_eq_of_lt fits]

theorem lastSize_small {size : BitVec 64} (small : size.toNat / 1000001536 < 2 ^ 31) :
    (lastSize size).toNat = if size.toNat % 1000001536 = 0 then 1000001536 else size.toNat % 1000001536 := by
  have remnant := remnantSize_small small
  have zero : (0 : BitVec 64).toNat = 0 := rfl
  simp only [lastSize, BitVec.lt_def, zero]
  split
  next some => rw [if_neg (by omega), remnant]
  next none => rw [if_pos (by omega), chunkSize_toNat]

theorem lastSize_pos (size : BitVec 64) : 0 < (lastSize size).toNat := by
  rw [lastSize]
  split
  next some => exact BitVec.lt_def.mp some
  next => rw [chunkSize_toNat]; omega

theorem chunks_total {startAddr size : BitVec 64} (large : chunkSize < size) :
    ((chunks startAddr size).map fun piece => piece.extent.size.toNat).sum =
      fullChunks size * 1000001536 + (lastSize size).toNat := by
  rw [chunks_large large, List.map_append, List.sum_append, List.map_map, List.map_singleton, List.sum_singleton]
  congr 1
  generalize fullChunks size = count
  induction count with
  | zero => rw [Nat.zero_mul, List.range_zero, List.map_nil, List.sum_nil]
  | succ count ih =>
    rw [List.range_succ, List.map_append, List.sum_append, ih, List.map_singleton, List.sum_singleton,
      Nat.add_one_mul]
    simp only [Function.comp_apply, Chunk.extent, chunkSize_toNat]

private theorem tiles_full {startAddr : BitVec 64} {count : Nat} (small : count < 2 ^ 31)
    (fits : startAddr.toNat + count * 1000001536 < 2 ^ 64) :
    (((List.range count).map fun i => (⟨startAddr + BitVec.ofNat 64 i * chunkSize, chunkSize, 1⟩ : Chunk)).map
        fun piece => piece.extent.bytes) =
      (List.range count).map fun i => (startAddr.toNat + i * 1000001536, startAddr.toNat + (i + 1) * 1000001536) := by
  rw [List.map_map]
  apply List.map_congr_left
  intro i member
  have below := List.mem_range.mp member
  have within {j : Nat} (below : j ≤ count) : startAddr.toNat + j * 1000001536 < 2 ^ 64 :=
    Nat.lt_of_le_of_lt (Nat.add_le_add_left (Nat.mul_le_mul_right _ below) _) fits
  have address : (startAddr + BitVec.ofNat 64 i * chunkSize).toNat = startAddr.toNat + i * 1000001536 :=
    address_toNat (by omega) (within (Nat.le_of_lt below))
  have next : (startAddr + BitVec.ofNat 64 i * chunkSize + chunkSize).toNat =
      startAddr.toNat + (i + 1) * 1000001536 := by
    rw [BitVec.toNat_add, address, chunkSize_toNat, Nat.add_assoc, ← Nat.add_one_mul, Nat.mod_eq_of_lt (within below)]
  exact Prod.ext address next

private theorem tiles_piece {piece : Chunk} {first last : Nat} (start : piece.startAddr.toNat = first)
    (finish : first + piece.size.toNat = last) (proper : 0 < piece.size.toNat) (fits : last < 2 ^ 64) :
    Tiling.Tiles first [piece.extent.bytes] last := by
  have ends : (piece.startAddr + piece.size).toNat = last := by
    rw [BitVec.toNat_add, start, finish, Nat.mod_eq_of_lt fits]
  have below : piece.startAddr.toNat < (piece.startAddr + piece.size).toNat := by omega
  exact ⟨start, below, ends⟩

theorem chunks_tiles {startAddr size : BitVec 64} (proper : 0 < size.toNat)
    (fits : startAddr.toNat + size.toNat < 2 ^ 64) (splittable : Splittable size) :
    Tiling.Tiles startAddr.toNat ((chunks startAddr size).map fun piece => piece.extent.bytes)
      (startAddr.toNat + size.toNat) := by
  by_cases large : chunkSize < size
  · obtain ⟨rest, small⟩ := splittable.large large
    have whole := Nat.div_add_mod' size.toNat 1000001536
    have last := lastSize_small small
    rw [if_neg rest] at last
    rw [chunks_large large, List.map_append, fullChunks_small small, tiles_full small (by omega)]
    refine (Tiling.tiles_equal startAddr.toNat (by omega) _).append ?_
    exact tiles_piece (address_toNat (by omega) (by omega)) (by simp only [last]; omega) (by simp only [last]; omega)
      fits
  · rw [chunks_small large]
    exact tiles_piece rfl rfl proper fits

theorem chunks_splits {startAddr size : BitVec 64} (proper : 0 < size.toNat)
    (fits : startAddr.toNat + size.toNat < 2 ^ 64) (splittable : Splittable size) :
    SplitsExactly startAddr size ((chunks startAddr size).map Chunk.extent) := by
  have tiles := chunks_tiles proper fits splittable
  rw [← Function.comp_def, ← List.map_map] at tiles
  by_cases large : chunkSize < size
  · obtain ⟨rest, small⟩ := splittable.large large
    have last := lastSize_small small
    rw [if_neg rest] at last
    refine ⟨tiles, ?_, ?_, tiles.covers⟩
    · intro extent member
      obtain ⟨piece, listed, rfl⟩ := List.mem_map.mp member
      rw [chunks_large large, List.mem_append, List.mem_singleton] at listed
      rcases listed with full | rfl
      · obtain ⟨i, _, rfl⟩ := List.mem_map.mp full
        exact BitVec.le_refl _
      · change (lastSize size).toNat ≤ 1000001536
        omega
    · rw [List.map_map, Function.comp_def, chunks_total large, fullChunks_small small, last]
      exact Nat.div_add_mod' _ _
  · rw [chunks_small large] at tiles ⊢
    refine ⟨tiles, ?_, ?_, tiles.covers⟩
    · intro extent member
      rw [List.map_singleton, List.mem_singleton] at member
      rw [member]
      exact BitVec.not_lt.mp large
    · simp [Chunk.extent]

/-- A multiple of `CHUNK_SIZE` gets a chunk too many; past 2^31 chunks the loop
drops most of them and the last piece is too large. -/
theorem splits_splittable {startAddr size : BitVec 64}
    (splits : SplitsExactly startAddr size ((chunks startAddr size).map Chunk.extent)) : Splittable size := by
  by_cases large : chunkSize < size
  · have listed : (⟨startAddr + BitVec.ofNat 64 (fullChunks size) * chunkSize, lastSize size, 1⟩ : Chunk) ∈
        chunks startAddr size := by
      rw [chunks_large large]
      exact List.mem_append_right _ List.mem_cons_self
    have last : (lastSize size).toNat ≤ 1000001536 := splits.bounded _ (List.mem_map_of_mem listed)
    have total := splits.total
    rw [List.map_map, Function.comp_def, chunks_total large] at total
    have some := lastSize_pos size
    rw [splittable_iff]
    right
    by_cases small : size.toNat / 1000001536 < 2 ^ 31
    · have exact := lastSize_small small
      have count := fullChunks_small small
      refine ⟨?_, small⟩
      intro even
      rw [if_pos even] at exact
      omega
    · have count := fullChunks_eq size
      split at count <;> omega
  · exact Or.inl (BitVec.not_lt.mp large)

end Recorder

/-- The objects an insertion adds are the mapping, byte for byte, exactly when
its size can be split. -/
theorem splitting_exact {statusMemoryPages : Nat → ℚ} {actions : List Action} {s s' : State} {pid : BitVec 32}
    {startAddr size : BitVec 64} (executed : (State.start statusMemoryPages).run p actions = .ok s)
    (proper : 0 < size.toNat) (fits : startAddr.toNat + size.toNat < 2 ^ 64)
    (inserted : s.step p (.insertObject pid startAddr size) = .ok s') :
    Recorder.SplitsExactly startAddr size (Recorder.added s.table s'.table) ↔ Recorder.Splittable size := by
  obtain ⟨valid, _⟩ := State.run_valid executed
  have filled := Recorder.insertObject_inserted valid (State.step_insert inserted)
  rw [filled.added valid]
  exact ⟨Recorder.splits_splittable, Recorder.chunks_splits proper fits⟩

theorem splitting_exact_remnant : ∃ s,
    (State.start fun _ => 0).step machine (.insertObject 7 4096 3000000000) = .ok s ∧
    Recorder.SplitsExactly 4096 3000000000 (Recorder.added Table.start s.table) := by
  have executed : (State.start fun _ => 0).run machine [] = .ok (.start fun _ => 0) := rfl
  have inserted : (State.start fun _ => 0).step machine (.insertObject 7 4096 3000000000) = .ok _ := rfl
  exact ⟨_, inserted, (splitting_exact executed (by decide) (by decide) inserted).mpr (by decide)⟩

/-- A mapping of two chunks is recorded as three, the last beyond its end. -/
theorem splitting_exact_multiple : ∃ s,
    (State.start fun _ => 0).step machine (.insertObject 7 4096 (2 * chunkSize)) = .ok s ∧
    Recorder.added Table.start s.table =
      [⟨4096, 4096 + chunkSize, chunkSize⟩, ⟨4096 + chunkSize, 4096 + 2 * chunkSize, chunkSize⟩,
        ⟨4096 + 2 * chunkSize, 4096 + 3 * chunkSize, chunkSize⟩] ∧
    ¬ Recorder.SplitsExactly 4096 (2 * chunkSize) (Recorder.added Table.start s.table) := by
  have inserted : (State.start fun _ => 0).step machine (.insertObject 7 4096 (2 * chunkSize)) = .ok _ := rfl
  have filled := (Recorder.insertObject_inserted start_valid (State.step_insert inserted)).added start_valid
  have pieces : (Recorder.chunks 4096 (2 * chunkSize)).map Recorder.Chunk.extent =
      [⟨4096, 4096 + chunkSize, chunkSize⟩, ⟨4096 + chunkSize, 4096 + 2 * chunkSize, chunkSize⟩,
        ⟨4096 + 2 * chunkSize, 4096 + 3 * chunkSize, chunkSize⟩] := by decide
  refine ⟨_, inserted, filled.trans pieces, ?_⟩
  intro splits
  have total := splits.total
  rw [filled.trans pieces] at total
  exact absurd total (by decide)

end OnlineScheduler
