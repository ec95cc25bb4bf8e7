import OnlineScheduler.Proofs.Operations

/-! What level 4 counts. The constant for persistent memory is a value of
`mem_lvl_num`; as bits of `mem_lvl` it contains the hit bit, so every hit that
no cache served passes for persistent memory, and without an operation bit
whatever passes for a load. -/

namespace OnlineScheduler.Monitor

variable {addressHash : BitVec 64 → BitVec 64} {t : Table} {window : Window} {i : Fin maxObjects} {dataSrc : DataSrc}

theorem Has.wider {w : Nat} {flags part whole : BitVec w} (inside : whole &&& part = part) (here : Has flags part) :
    Has flags whole := by
  intro absent
  apply here
  rw [← inside, ← BitVec.and_assoc, absent]
  exact BitVec.zero_and

theorem servedByLocalPmem_hit : IsServedByLocalPmem dataSrc ↔ Has dataSrc.memLvl perfMemLvlHit :=
  ⟨And.left, fun hit => ⟨hit, hit.wider (by decide)⟩⟩

/-- The load comes to the last two branches of the chain. -/
structure ReachesMemory (dataSrc : DataSrc) : Prop where
  served : ¬ IsServedByLocalNAMiss dataSrc
  cache1 : ¬ IsServedByLocalCache1 dataSrc
  lfb : ¬ IsServedByLocalLfb dataSrc
  cache2 : ¬ IsServedByLocalCache2 dataSrc
  cache3 : ¬ IsServedByLocalCache3 dataSrc

instance decidableReachesMemory : DecidablePred ReachesMemory := fun dataSrc =>
  decidable_of_iff (¬ IsServedByLocalNAMiss dataSrc ∧ ¬ IsServedByLocalCache1 dataSrc ∧ ¬ IsServedByLocalLfb dataSrc ∧
      ¬ IsServedByLocalCache2 dataSrc ∧ ¬ IsServedByLocalCache3 dataSrc)
    ⟨fun ⟨served, cache1, lfb, cache2, cache3⟩ => ⟨served, cache1, lfb, cache2, cache3⟩,
      fun reaches => ⟨reaches.served, reaches.cache1, reaches.lfb, reaches.cache2, reaches.cache3⟩⟩

theorem memLevel_memory : memLevel dataSrc = some 4 ↔ ReachesMemory dataSrc ∧ Has dataSrc.memLvl perfMemLvlHit := by
  unfold memLevel
  split
  next missed => exact iff_of_false nofun fun both => both.1.served missed
  next served =>
    split
    next hit => exact iff_of_false (by decide) fun both => both.1.cache1 hit
    next cache1 =>
      split
      next hit => exact iff_of_false (by decide) fun both => both.1.lfb hit
      next lfb =>
        split
        next hit => exact iff_of_false (by decide) fun both => both.1.cache2 hit
        next cache2 =>
          split
          next hit => exact iff_of_false (by decide) fun both => both.1.cache3 hit
          next cache3 =>
            split
            next memory => exact iff_of_true rfl ⟨⟨served, cache1, lfb, cache2, cache3⟩, memory.1⟩
            next =>
              split
              next pmem => exact iff_of_true rfl ⟨⟨served, cache1, lfb, cache2, cache3⟩, pmem.1⟩
              next other => exact iff_of_false nofun fun both => other (servedByLocalPmem_hit.mpr both.2)

/-- A hit in local DRAM or in persistent memory, with `mem_lvl_num` read for the
latter. -/
def FromMemory (dataSrc : DataSrc) : Prop :=
  Has dataSrc.memLvl perfMemLvlHit ∧
    (Has dataSrc.memLvl perfMemLvlLocRam ∨ dataSrc.memLvlNum = perfMemLvlnumPmem.setWidth 4)

instance : DecidablePred FromMemory := fun _ => inferInstanceAs (Decidable (_ ∧ (_ ∨ _)))

/-- A load of the object that no cache served. -/
def MemoryLoad (t : Table) (i : Fin maxObjects) (sample : MemorySample) : Prop :=
  getVectorIndex sample.sampleAddr t = some i ∧ sample.plain.opcode = 1 ∧ ReachesMemory sample.dataSrc

instance decidableMemoryLoad (t : Table) (i : Fin maxObjects) : DecidablePred (MemoryLoad t i) :=
  fun _ => inferInstanceAs (Decidable (_ ∧ _ ∧ _))

theorem loadAt_memory {sample : Reading} : LoadAt t i 4 sample ↔ getVectorIndex sample.sampleAddr t = some i ∧
    sample.opcode = 1 ∧ ReachesMemory sample.dataSrc ∧ Has sample.dataSrc.memLvl perfMemLvlHit := by
  rw [LoadAt, memLevel_memory]

/-- What a load from memory comes to, whatever the code takes other samples for. -/
private theorem memoryLoad_load {sample : Reading} (load : MemoryLoad t i sample.toMemorySample)
    (served : FromMemory sample.dataSrc) : LoadAt t i 4 sample := by
  obtain ⟨owner, loaded, reaches⟩ := load
  have operated : sample.dataSrc.memOp ≠ 0 := by
    intro bare
    rw [reading_unset bare 0] at loaded
    cases loaded
  exact loadAt_memory.mpr ⟨owner, (opcode_operated operated).trans loaded, reaches, served.1⟩

/-- Level 4 counts the memory accesses of an object exactly when every hit that
no cache served came from local DRAM or from persistent memory, and none of a
sample that has no operation bit. -/
theorem memory_loads_counted (addressHash : BitVec 64 → BitVec 64) (t : Table) (window : Window)
    (samples : List MemorySample) (i : Fin maxObjects) :
    (∀ readings : List Reading, readings.map Reading.toMemorySample = samples →
      ((readings.foldl (countSample addressHash t) window.clearMetrics).copy i).loadsCount 4 =
        (samples.filter (fun sample => MemoryLoad t i sample ∧ FromMemory sample.dataSrc)).length) ↔
      (∀ sample ∈ samples, MemoryLoad t i sample → Has sample.dataSrc.memLvl perfMemLvlHit →
        Has sample.dataSrc.memLvl perfMemLvlLocRam ∨ sample.dataSrc.memLvlNum = perfMemLvlnumPmem.setWidth 4) ∧
      ∀ sample ∈ samples, getVectorIndex sample.sampleAddr t = some i → sample.dataSrc.memOp = 0 →
        ReachesMemory sample.dataSrc → ¬ Has sample.dataSrc.memLvl perfMemLvlHit := by
  have counted (readings : List Reading) :
      ((readings.foldl (countSample addressHash t) window.clearMetrics).copy i).loadsCount 4 =
        (loads t readings i 4).length := (countSamples_loadsCount _ readings 4).trans (zero_add _)
  constructor
  · intro each
    -- the samples without an operation bit all pass for loads
    have passed := each _ (reading_read 1 samples)
    rw [counted, loads_reading, Nat.cast_inj] at passed
    have all := Tally.wider_length (fun sample both => memoryLoad_load both.1 both.2) passed
    constructor
    · intro sample member load hit
      have operated : sample.dataSrc.memOp ≠ 0 := by
        intro bare
        exact absurd ((reading_unset bare 0).symm.trans load.2.1) (by decide)
      have taken : (sample.reading 1).opcode = 1 := (opcode_operated operated).trans load.2.1
      exact (all sample member (loadAt_memory.mpr ⟨load.1, taken, load.2.2, hit⟩)).2.2
    · intro sample member owner bare reaches hit
      have load := (all sample member (loadAt_memory.mpr ⟨owner, reading_unset bare 1, reaches, hit⟩)).1
      exact absurd ((reading_unset bare 0).symm.trans load.2.1) (by decide)
  · rintro ⟨served, operated⟩ readings rfl
    rw [counted, loads, List.filter_map, List.length_map, Function.comp_def, Nat.cast_inj]
    refine congrArg List.length (List.filter_congr fun sample member => decide_eq_decide.mpr ?_)
    have here := List.mem_map_of_mem (f := Reading.toMemorySample) member
    constructor
    · intro load
      obtain ⟨owner, taken, reaches, hit⟩ := loadAt_memory.mp load
      have bits : sample.dataSrc.memOp ≠ 0 := fun bare => operated _ here owner bare reaches hit
      have memory : MemoryLoad t i sample.toMemorySample := ⟨owner, (opcode_operated bits).symm.trans taken, reaches⟩
      exact ⟨memory, hit, served _ here memory hit⟩
    · intro both
      exact memoryLoad_load both.1 both.2

/-- A load that the DRAM of a remote node served. -/
def remoteLoad : MemorySample := ⟨5000, 7, ⟨perfMemOpLoad, perfMemLvlHit ||| 0x100, perfMemTlbHit, 0x0d⟩⟩

theorem memory_loads_remote : ∃ t, Recorder.insertObject machine 7 4096 4096 .start = .ok t ∧
    (([remoteLoad.plain].foldl (countSample id t) Sampler.start.window.clearMetrics).copy 0).loadsCount 4 = 1 ∧
    ([remoteLoad].filter (fun sample => MemoryLoad t 0 sample ∧ FromMemory sample.dataSrc)).length = 0 := by
  have passed : Runs.ends (fun t =>
      (([remoteLoad.plain].foldl (countSample id t) Sampler.start.window.clearMetrics).copy 0).loadsCount 4 = 1 ∧
      ([remoteLoad].filter (fun sample => MemoryLoad t 0 sample ∧ FromMemory sample.dataSrc)).length = 0)
      (Recorder.insertObject machine 7 4096 4096 .start) = true := by decide +kernel
  obtain ⟨t, inserted, counted⟩ := Runs.ends_ok passed
  exact ⟨t, inserted, of_decide_eq_true counted⟩

end OnlineScheduler.Monitor
