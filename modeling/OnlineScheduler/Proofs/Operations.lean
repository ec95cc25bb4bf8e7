import OnlineScheduler.Proofs.Accounting

/-! What a window counts by the operation bits of its samples. A sample without
one may pass for any operation, so the counters are those of the bits, in
whatever order the buffers are drained, only where that makes no difference. -/

namespace OnlineScheduler.Monitor

variable {addressHash : BitVec 64 → BitVec 64} {t : Table} {window : Window} {i : Fin maxObjects}
  {seen : Hashmap} {samples : List MemorySample} {readings : List Reading} {level : Fin memLevels}

/-- No attributed sample without an operation bit can change a counter. -/
def Settled (t : Table) (seen : Hashmap) (samples : List MemorySample) : Prop :=
  ∀ sample ∈ samples, ∀ i, getVectorIndex sample.sampleAddr t = some i → sample.dataSrc.memOp = 0 →
    memLevel sample.dataSrc = none ∧
      (sample.sampleAddr ∈ seen ∨ sample.sampleAddr ∈ storeAddrs t (samples.map MemorySample.plain) i)

theorem Settled.operated (operated : ∀ sample ∈ samples, sample.dataSrc.memOp ≠ 0) : Settled t seen samples :=
  fun sample member _ _ unset => absurd unset (operated sample member)

theorem mem_storeAddrs {addr : BitVec 64} :
    addr ∈ storeAddrs t readings i ↔ ∃ sample ∈ readings, StoreOf t i sample ∧ sample.sampleAddr = addr := by
  simp only [storeAddrs, List.mem_dedup, List.mem_map, List.mem_filter, decide_eq_true_eq, and_assoc]

theorem nodup_storeAddrs : (storeAddrs t readings i).Nodup := List.nodup_dedup _

theorem Settled.perm {samples' : List MemorySample} (settled : Settled t seen samples) (perm : samples'.Perm samples) :
    Settled t seen samples' := by
  intro sample member i owner unset
  obtain ⟨unserved, old⟩ := settled sample (perm.subset member) i owner unset
  refine ⟨unserved, old.imp_right fun stored => ?_⟩
  obtain ⟨store, present, facts⟩ := mem_storeAddrs.mp stored
  exact mem_storeAddrs.mpr ⟨store, (perm.map MemorySample.plain).symm.subset present, facts⟩

theorem reading_unset {sample : MemorySample} (bare : sample.dataSrc.memOp = 0) (unset : Int) :
    (sample.reading unset).opcode = unset := opcode_unset bare

theorem loads_reading (unset : Int) : (loads t (samples.map (MemorySample.reading unset)) i level).length =
    (samples.filter (fun sample => LoadAt t i level (sample.reading unset))).length := by
  rw [loads, List.filter_map, List.length_map, Function.comp_def]

/-- A sample with an operation bit passes for what the bit says. -/
theorem loadAt_operated {sample : Reading} (operated : sample.dataSrc.memOp ≠ 0) :
    LoadAt t i level sample ↔ LoadAt t i level sample.plain := by
  rw [LoadAt, LoadAt, opcode_operated operated]
  rfl

theorem storeOf_operated {sample : Reading} (operated : sample.dataSrc.memOp ≠ 0) :
    StoreOf t i sample ↔ StoreOf t i sample.plain := by
  rw [StoreOf, StoreOf, opcode_operated operated]
  rfl

theorem StoreOf.operated {sample : MemorySample} (store : StoreOf t i sample.plain) : sample.dataSrc.memOp ≠ 0 := by
  intro unset
  have idle := reading_unset unset 0
  rw [store.2] at idle
  cases idle

/-- In place of a reading, the one of its bits. -/
abbrev Reading.bits (sample : Reading) : Reading := sample.plain

theorem Settled.same_loads (settled : Settled t seen (readings.map Reading.toMemorySample)) (i : Fin maxObjects)
    (level : Fin memLevels) :
    (loads t readings i level).map Reading.bits = loads t (readings.map Reading.bits) i level := by
  simp only [loads, List.filter_map, Function.comp_def]
  refine congrArg _ (List.filter_congr fun sample member => decide_eq_decide.mpr ?_)
  by_cases unset : sample.dataSrc.memOp = 0
  · have unserved (owner : getVectorIndex sample.sampleAddr t = some i) : memLevel sample.dataSrc = none :=
      (settled sample.toMemorySample (List.mem_map_of_mem member) i owner unset).1
    refine iff_of_false (fun load => ?_) fun load => ?_
    · exact absurd (load.2.2.symm.trans (unserved load.1)) (by simp)
    · exact absurd (load.2.2.symm.trans (unserved load.1)) (by simp)
  · exact loadAt_operated unset

theorem Settled.same_stores (settled : Settled t seen (readings.map Reading.toMemorySample)) (i : Fin maxObjects) :
    ((storeAddrs t readings i).filter (fun addr => addr ∉ seen)).Perm
      ((storeAddrs t (readings.map Reading.bits) i).filter (fun addr => addr ∉ seen)) := by
  refine (List.perm_ext_iff_of_nodup (nodup_storeAddrs.filter _) (nodup_storeAddrs.filter _)).mpr fun addr => ?_
  simp only [List.mem_filter, decide_eq_true_eq]
  refine and_congr_left fun new => ?_
  rw [mem_storeAddrs, mem_storeAddrs]
  constructor
  · rintro ⟨sample, member, store, rfl⟩
    by_cases unset : sample.dataSrc.memOp = 0
    · obtain ⟨-, old | stored⟩ := settled sample.toMemorySample (List.mem_map_of_mem member) i store.1 unset
      · exact absurd old new
      · rw [List.map_map] at stored
        exact mem_storeAddrs.mp stored
    · exact ⟨sample.bits, List.mem_map_of_mem member, (storeOf_operated unset).mp store, rfl⟩
  · rintro ⟨_, here, store, rfl⟩
    obtain ⟨sample, member, rfl⟩ := List.mem_map.mp here
    exact ⟨sample, member, (storeOf_operated store.operated).mpr store, rfl⟩

/-- Where no sample without an operation bit can change a counter, the counters
are those of the bits. -/
theorem Settled.accounted {metrics : Metrics} (settled : Settled t seen (readings.map Reading.toMemorySample))
    (accounted : Accounted t seen readings i metrics) :
    Accounted t seen (readings.map Reading.bits) i metrics := by
  have loaded (level : Fin memLevels) := settled.same_loads i level
  refine ⟨fun level => ?_, fun level => ?_, fun level => ?_, accounted.tlb, fun level => ?_, ?_⟩
  · rw [accounted.loadsCount, ← loaded level, List.length_map]
  · rw [accounted.tlbHit, ← loaded level, List.filter_map, List.length_map]
    rfl
  · rw [accounted.tlbMiss, ← loaded level, List.filter_map, List.length_map]
    rfl
  · rw [accounted.sumLatencyCost, ← loaded level, List.filter_map, List.map_map]
    rfl
  · rw [accounted.storesCount, (settled.same_stores i).length_eq]

/-- Addresses apart by their hashes stay so in whatever order the samples come. -/
private theorem distinct_perm {samples' : List MemorySample}
    (distinct : Set.InjOn (getHash addressHash) {addr | addr ∈ window.hashmap ++ samples.map (·.sampleAddr)})
    (perm : samples'.Perm samples) :
    Set.InjOn (getHash addressHash) {addr | addr ∈ window.hashmap ++ samples'.map (·.sampleAddr)} := by
  refine distinct.mono fun addr member => ?_
  exact ((perm.map (·.sampleAddr)).append_left window.hashmap).subset member

private theorem readings_accounted
    (distinct : Set.InjOn (getHash addressHash) {addr | addr ∈ window.hashmap ++ samples.map (·.sampleAddr)})
    (read : readings.map Reading.toMemorySample = samples) (i : Fin maxObjects) :
    Accounted t window.hashmap readings i
      ((readings.foldl (countSample addressHash t) window.clearMetrics).copy i) := by
  apply window_accounted
  rwa [← read, List.map_map] at distinct

theorem reading_read (unset : Int) (samples : List MemorySample) :
    (samples.map (MemorySample.reading unset)).map Reading.toMemorySample = samples := by
  rw [List.map_map]
  exact List.map_id samples

/-- What changes no counter as a load or as a store has no level and an address
that the hash map knows. -/
private theorem settled_accounted
    (accounted : ∀ unset i, ∃ metrics, Accounted t seen (samples.map (MemorySample.reading unset)) i metrics ∧
      Accounted t seen (samples.map MemorySample.plain) i metrics) : Settled t seen samples := by
  intro sample member i owner unset
  have idle := reading_unset unset 0
  constructor
  · cases served : memLevel sample.dataSrc with
    | none => rfl
    | some level =>
      obtain ⟨metrics, passed, settled⟩ := accounted 1 i
      have same := (passed.loadsCount level).symm.trans (settled.loadsCount level)
      rw [loads_reading, loads_reading, Nat.cast_inj] at same
      have wider (sample : MemorySample) (load : LoadAt t i level sample.plain) :
          LoadAt t i level (sample.reading 1) := by
        by_cases unset : sample.dataSrc.memOp = 0
        · exact absurd (load.2.1.symm.trans (reading_unset unset 0)) (by decide)
        · exact (loadAt_operated unset).mpr load
      have load := Tally.wider_length wider same sample member ⟨owner, opcode_unset unset, served⟩
      exact absurd (load.2.1.symm.trans idle) (by decide)
  · by_contra new
    rw [not_or] at new
    obtain ⟨metrics, passed, settled⟩ := accounted 2 i
    have same := passed.storesCount.symm.trans settled.storesCount
    rw [Nat.cast_inj] at same
    have inside : (storeAddrs t (samples.map MemorySample.plain) i).filter (fun addr => addr ∉ seen) ⊆
        (storeAddrs t (samples.map (MemorySample.reading 2)) i).filter (fun addr => addr ∉ seen) := by
      intro addr counted
      obtain ⟨stored, fresh⟩ := List.mem_filter.mp counted
      refine List.mem_filter.mpr ⟨?_, fresh⟩
      obtain ⟨_, here, store, rfl⟩ := mem_storeAddrs.mp stored
      obtain ⟨other, present, rfl⟩ := List.mem_map.mp here
      have taken : StoreOf t i (other.reading 2) := (storeOf_operated store.operated).mpr store
      exact mem_storeAddrs.mpr ⟨_, List.mem_map_of_mem present, taken, rfl⟩
    have perm := ((nodup_storeAddrs.filter _).subperm inside).perm_of_length_le same.le
    have taken : StoreOf t i (sample.reading 2) := ⟨owner, opcode_unset unset⟩
    have counted : sample.sampleAddr ∈
        (storeAddrs t (samples.map (MemorySample.reading 2)) i).filter (fun addr => addr ∉ seen) :=
      List.mem_filter.mpr ⟨mem_storeAddrs.mpr ⟨_, List.mem_map_of_mem member, taken, rfl⟩, decide_eq_true new.1⟩
    exact new.2 (List.mem_filter.mp (perm.symm.subset counted)).1

/-- The counters of a window are those of its samples' operation bits, in
whatever order they are drained, exactly when no attributed sample without an
operation bit can change a counter. -/
theorem window_conserves (t : Table)
    (distinct : Set.InjOn (getHash addressHash) {addr | addr ∈ window.hashmap ++ samples.map (·.sampleAddr)}) :
    ((∀ readings : List Reading, readings.map Reading.toMemorySample = samples →
        ∀ i, Accounted t window.hashmap (samples.map MemorySample.plain) i
          ((readings.foldl (countSample addressHash t) window.clearMetrics).copy i)) ∧
      ∀ readings readings' : List Reading, readings.map Reading.toMemorySample = samples →
        (readings'.map Reading.toMemorySample).Perm samples →
          (readings'.foldl (countSample addressHash t) window.clearMetrics).copy =
            (readings.foldl (countSample addressHash t) window.clearMetrics).copy) ↔
      Settled t window.hashmap samples := by
  constructor
  · intro ⟨accounted, _⟩
    apply settled_accounted
    intro unset i
    exact ⟨_, readings_accounted distinct (reading_read unset samples) i, accounted _ (reading_read unset samples) i⟩
  · intro settled
    have accounted (readings : List Reading) (perm : (readings.map Reading.toMemorySample).Perm samples)
        (i : Fin maxObjects) : Accounted t window.hashmap (samples.map MemorySample.plain) i
          ((readings.foldl (countSample addressHash t) window.clearMetrics).copy i) := by
      have counted := readings_accounted (t := t) (distinct_perm distinct perm) rfl i
      have bits := (settled.perm perm).accounted counted
      refine bits.perm ?_
      have reordered := perm.map MemorySample.plain
      rwa [List.map_map] at reordered
    refine ⟨fun readings read i => accounted readings (read ▸ .refl _) i, fun readings readings' read perm => ?_⟩
    exact funext fun i => (accounted readings' perm i).unique (accounted readings (read ▸ .refl _) i)

def pageLoad : MemorySample := ⟨5000, 7, ⟨perfMemOpLoad, perfMemLvlHit ||| perfMemLvlLocRam, perfMemTlbHit, 0⟩⟩

/-- A sample without an operation bit. -/
def bareSample : MemorySample := { pageLoad with dataSrc := { pageLoad.dataSrc with memOp := 0 } }

def pageSamples : List MemorySample := [pageLoad, Sampler.pageStore.toMemorySample]

theorem window_conserves_page : ∃ t, Recorder.insertObject machine 7 4096 4096 .start = .ok t ∧
    ((∀ readings : List Reading, readings.map Reading.toMemorySample = pageSamples → ∀ i,
        Accounted t Sampler.start.window.hashmap (pageSamples.map MemorySample.plain) i
          ((readings.foldl (countSample id t) Sampler.start.window.clearMetrics).copy i)) ∧
      ∀ readings readings' : List Reading, readings.map Reading.toMemorySample = pageSamples →
        (readings'.map Reading.toMemorySample).Perm pageSamples →
          (readings'.foldl (countSample id t) Sampler.start.window.clearMetrics).copy =
            (readings.foldl (countSample id t) Sampler.start.window.clearMetrics).copy) ∧
    loads t (pageSamples.map MemorySample.plain) 0 4 = [pageLoad.plain] ∧
    storeAddrs t (pageSamples.map MemorySample.plain) 0 = [5000] ∧
    let metrics := ((pageSamples.map MemorySample.plain).foldl (countSample id t) Sampler.start.window.clearMetrics).copy 0
    metrics.loadsCount 4 = 1 ∧ metrics.tlbHit 4 = 1 ∧ metrics.sumLatencyCost 4 = 7 ∧ metrics.storesCount = 1 := by
  have passed : Runs.ends (fun t => loads t (pageSamples.map MemorySample.plain) 0 4 = [pageLoad.plain] ∧
      storeAddrs t (pageSamples.map MemorySample.plain) 0 = [5000] ∧
      let metrics := ((pageSamples.map MemorySample.plain).foldl (countSample id t) Sampler.start.window.clearMetrics).copy 0
      metrics.loadsCount 4 = 1 ∧ metrics.tlbHit 4 = 1 ∧ metrics.sumLatencyCost 4 = 7 ∧ metrics.storesCount = 1)
      (Recorder.insertObject machine 7 4096 4096 .start) = true := by decide +kernel
  obtain ⟨t, inserted, counted⟩ := Runs.ends_ok passed
  have operated : ∀ sample ∈ pageSamples, sample.dataSrc.memOp ≠ 0 := by decide
  refine ⟨t, inserted, (window_conserves t fun first here second there _ => ?_).mpr (.operated operated),
    of_decide_eq_true counted⟩
  simp [Sampler.start, pageSamples, pageLoad, Sampler.pageStore] at here there
  rw [here, there]

theorem window_conserves_bare : ∃ t, Recorder.insertObject machine 7 4096 4096 .start = .ok t ∧
    Set.InjOn (getHash id) {addr | addr ∈ [pageLoad, bareSample].map (·.sampleAddr)} ∧
    loads t [pageLoad.plain, bareSample.plain] 0 4 = [pageLoad.plain] ∧
    (([pageLoad.plain, bareSample.reading 1].foldl (countSample id t) Sampler.start.window.clearMetrics).copy 0).loadsCount 4
      = 2 := by
  have passed : Runs.ends (fun t => loads t [pageLoad.plain, bareSample.plain] 0 4 = [pageLoad.plain] ∧
      (([pageLoad.plain, bareSample.reading 1].foldl (countSample id t)
        Sampler.start.window.clearMetrics).copy 0).loadsCount 4 = 2)
      (Recorder.insertObject machine 7 4096 4096 .start) = true := by decide +kernel
  obtain ⟨t, inserted, counted⟩ := Runs.ends_ok passed
  refine ⟨t, inserted, fun first here second there _ => ?_, of_decide_eq_true counted⟩
  simp [pageLoad, bareSample] at here there
  rw [here, there]

end OnlineScheduler.Monitor
