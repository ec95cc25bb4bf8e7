import OnlineScheduler.Proofs.Histories

/-! What a failed `mmap` leaves in the table. The exit handler never tests
`ret`, so the error is taken for an address whenever the entry it looks at
passes the filter. -/

namespace OnlineScheduler

variable {p : Platform} {appPid : BitVec 32}

/-- The exit carries the negative of an error number. -/
def Failed (ret : BitVec 64) : Prop := -4095 ≤ ret.toInt ∧ ret.toInt ≤ -1

instance decidableFailed (ret : BitVec 64) : Decidable (Failed ret) := inferInstanceAs (Decidable (_ ∧ _))

/-- Nothing is recorded and nothing ordered. -/
structure Table.Untouched (t t' : Table) : Prop where
  objVector : t'.objVector = t.objVector
  objAlloc : t'.objAlloc = t.objAlloc
  totalObj : t'.totalObj = t.totalObj
  index : t'.index = t.index
  trace : t'.trace = t.trace

namespace Interceptor

variable {s s' : State} {sample : Sample} {samples : List Sample} {ret len : BitVec 64}

/-- What a sample does to the table. -/
inductive Effect (p : Platform) (appPid : BitVec 32) (s : State) (sample : Sample) : Table → Prop where
  | none : Effect p appPid s sample s.table
  | insert {ret : BitVec 64} {seen : EnterSample} {table : Table} (exits : sample.data = .exitMmap ret)
      (monitored : sample.thread.pid = appPid) (there : s.enter = some seen) (recorded : Recorded seen.args)
      (inserted : Recorder.insertObject p sample.thread.pid ret seen.args.len s.table = .ok table) :
      Effect p appPid s sample table
  | deallocate (addr len : BitVec 64) :
      Effect p appPid s sample (Recorder.deallocateObject sample.thread.pid addr len s.table)

theorem step_exit (exits : sample.data = .exitMmap ret) : step p appPid s sample = .ok s' ↔
    ∃ seen, s.enter = some seen ∧ s'.enter = some seen ∧
      if sample.thread.pid = appPid ∧ Recorded seen.args then
        Recorder.insertObject p sample.thread.pid ret seen.args.len s.table = .ok s'.table
      else s'.table = s.table := by
  cases there : s.enter with
  | none =>
    have reads : Reads appPid sample := by
      rw [Reads, exits]
      trivial
    rw [step, there, handleSample_missing reads]
    constructor
    · intro impossible
      cases impossible
    · intro recorded
      obtain ⟨_, impossible, _⟩ := recorded
      cases impossible
  | some seen =>
    have called : handleSample appPid (some seen) sample = _ := handleSample_exit exits seen
    rw [← there] at called
    simp only [step_ok called, Option.some.injEq, exists_eq_left', there]
    split
    next => rw [Performs, performCall]
    next => rw [Performs]

theorem step_effect (executed : step p appPid s sample = .ok s') :
    s'.enter = sample.enterSample.or s.enter ∧ Effect p appPid s sample s'.table := by
  obtain ⟨⟨enter, call⟩, handled, _⟩ := Runs.bind_ok.mp executed
  obtain ⟨same, performed⟩ := (step_ok handled).mp executed
  have kept : enter = sample.enterSample.or s.enter := (handleSample_enter.mp (by rw [handled]; rfl)).2
  refine ⟨same.trans kept, ?_⟩
  rcases handleSample_call handled with rfl | ⟨ret, seen, exits, monitored, there, recorded, rfl⟩ | ⟨addr, len, rfl⟩
  · rw [performed]
    exact .none
  · exact .insert exits monitored there recorded performed
  · rw [← Except.ok.inj performed]
    exact .deallocate addr len

theorem Effect.later {table : Table} (effect : Effect p appPid s sample table) (valid : s.table.Valid) :
    s.table.Later table := by
  cases effect with
  | none => exact .refl valid
  | insert exits monitored there recorded inserted => exact (Recorder.insertObject_inserted valid inserted).later
  | deallocate addr len => exact (Recorder.deallocateObject_frees sample.thread.pid addr len s.table).later valid

/-- An exit leaves the table alone exactly when the entry it looks at does not
pass the filter, whatever the call returned. -/
theorem exit_untouched (valid : s.table.Valid) (exits : sample.data = .exitMmap ret)
    (monitored : sample.thread.pid = appPid) :
    (∃ s', step p appPid s sample = .ok s' ∧ s.table.Untouched s'.table) ↔
      ∃ seen, s.enter = some seen ∧ ¬ Recorded seen.args := by
  simp only [step_exit exits, monitored, true_and]
  constructor
  · rintro ⟨s', ⟨seen, there, _, table⟩, untouched⟩
    refine ⟨seen, there, fun recorded => ?_⟩
    rw [if_pos recorded] at table
    have total := (Recorder.insertObject_inserted valid table).total
    have some := Recorder.chunks_pos ret seen.args.len
    rw [untouched.totalObj] at total
    omega
  · rintro ⟨seen, there, ignored⟩
    refine ⟨⟨some seen, s.table⟩, ⟨seen, there, rfl, ?_⟩, ⟨rfl, rfl, rfl, rfl, rfl⟩⟩
    rw [if_neg ignored]

theorem run_enter (executed : samples.foldlM (step p appPid) State.start = .ok s) :
    s.enter = lastEnter samples ∧ s.table.Valid := by
  induction samples using List.reverseRecOn generalizing s with
  | nil =>
    cases executed
    exact ⟨rfl, start_valid⟩
  | append_singleton samples sample ih =>
    obtain ⟨middle, before, last⟩ := Runs.snoc_ok.mp executed
    obtain ⟨enter, valid⟩ := ih before
    obtain ⟨after, effect⟩ := step_effect last
    rw [lastEnter_snoc, after, enter]
    exact ⟨rfl, (effect.later valid).valid⟩

/-- An exit of the run is recorded as a mapping of this address and length. -/
def Returned (appPid : BitVec 32) (samples : List Sample) (ret len : BitVec 64) : Prop :=
  ∃ first sample rest seen, samples = first ++ sample :: rest ∧ sample.data = .exitMmap ret ∧
    sample.thread.pid = appPid ∧ lastEnter first = some seen ∧ Recorded seen.args ∧ len = seen.args.len

theorem Returned.snoc (returned : Returned appPid samples ret len) (sample : Sample) :
    Returned appPid (samples ++ [sample]) ret len := by
  obtain ⟨first, other, rest, seen, split, exits⟩ := returned
  exact ⟨first, other, rest ++ [sample], seen, Runs.snoc_split.mpr (.inr ⟨rest, rfl, split⟩), exits⟩

/-- Every live object is a piece of a mapping that was recorded. -/
theorem run_returned (executed : samples.foldlM (step p appPid) State.start = .ok s) {i : Fin maxObjects}
    (live : s.table.objAlloc i = 1) : ∃ ret len piece, Returned appPid samples ret len ∧
      piece ∈ Recorder.chunks ret len ∧ (s.table.objVector i).startAddr = piece.startAddr ∧
      (s.table.objVector i).size = piece.size ∧
      (s.table.objVector i).endAddr = piece.startAddr + piece.size := by
  induction samples using List.reverseRecOn generalizing s with
  | nil =>
    cases executed
    cases live
  | append_singleton samples sample ih =>
    obtain ⟨middle, before, last⟩ := Runs.snoc_ok.mp executed
    obtain ⟨enter, valid⟩ := run_enter before
    obtain ⟨_, effect⟩ := step_effect last
    by_cases still : middle.table.objAlloc i = 1
    · obtain ⟨ret, len, piece, returned, held⟩ := ih before still
      refine ⟨ret, len, piece, returned.snoc sample, ?_⟩
      rw [(effect.later valid).object i (valid.live_below still)]
      exact held
    · generalize s.table = table at effect live
      cases effect with
      | none => exact absurd live still
      | insert exits monitored there recorded inserted =>
        obtain ⟨k, piece, _, found, holds⟩ := (Recorder.insertObject_inserted valid inserted).fresh still live
        rw [enter] at there
        exact ⟨_, _, piece, ⟨samples, sample, [], _, rfl, exits, monitored, there, recorded, rfl⟩,
          List.mem_of_getElem? found, holds.startAddr, holds.size, holds.endAddr⟩
      | deallocate addr len =>
        exact absurd ((Recorder.deallocateObject_frees sample.thread.pid addr len middle.table).live live) still

/-- A piece of a mapping in user space does not reach the top of the address space. -/
theorem piece_inside {piece : Recorder.Chunk} (user : ret.toNat + len.toNat < 2 ^ 47)
    (member : piece ∈ Recorder.chunks ret len) :
    (piece.startAddr + piece.size).toNat = piece.startAddr.toNat + piece.size.toNat := by
  have size := Recorder.chunks_size (by omega) member
  rw [Recorder.chunkSize_toNat] at size
  suffices start : piece.startAddr.toNat < 2 ^ 47 by
    rw [BitVec.toNat_add]
    omega
  by_cases large : chunkSize < len
  · have few : len.toNat / 1000001536 < 2 ^ 31 := by omega
    have offset {i : Nat} (inside : i ≤ Recorder.fullChunks len) :
        (ret + BitVec.ofNat 64 i * chunkSize).toNat < 2 ^ 47 := by
      rw [Recorder.fullChunks_small few] at inside
      rw [BitVec.toNat_add, Recorder.offset_toNat (by omega)]
      omega
    rw [Recorder.chunks_large large, List.mem_append, List.mem_map, List.mem_singleton] at member
    rcases member with ⟨i, inside, rfl⟩ | rfl
    · exact offset (Nat.le_of_lt (List.mem_range.mp inside))
    · exact offset (Nat.le_refl _)
  · rw [Recorder.chunks_small large, List.mem_singleton] at member
    rw [member]
    change ret.toNat < _
    omega

end Interceptor

/-- Failed calls leave no trace exactly when the entry before each does not
pass the filter. In a run where that is so, every live object is a piece of a
mapping that succeeded, and ends above its start when that lies in user space. -/
theorem failed_mmap {samples : List Sample} {s : Interceptor.State}
    (executed : samples.foldlM (Interceptor.step p appPid) .start = .ok s) :
    (∀ sample ret, sample.data = .exitMmap ret → sample.thread.pid = appPid → Failed ret →
      ((∃ s', Interceptor.step p appPid s sample = .ok s' ∧ s.table.Untouched s'.table) ↔
        ∃ seen, lastEnter samples = some seen ∧ ¬ Interceptor.Recorded seen.args)) ∧
    ((∀ first sample rest ret, samples = first ++ sample :: rest → sample.data = .exitMmap ret →
        sample.thread.pid = appPid → Failed ret →
        ∃ seen, lastEnter first = some seen ∧ ¬ Interceptor.Recorded seen.args) →
      ∀ i, s.table.objAlloc i = 1 → ∃ ret len piece, Interceptor.Returned appPid samples ret len ∧ ¬ Failed ret ∧
        piece ∈ Recorder.pieces ret len ∧ s.table.slots i = some piece ∧
        (ret.toNat + len.toNat < 2 ^ 47 → (s.table.objVector i).endAddr.toNat =
          (s.table.objVector i).startAddr.toNat + (s.table.objVector i).size.toNat)) := by
  obtain ⟨enter, valid⟩ := Interceptor.run_enter executed
  refine ⟨fun sample ret exits monitored _ => ?_, fun ignored i live => ?_⟩
  · rw [← enter]
    exact Interceptor.exit_untouched valid exits monitored
  · obtain ⟨ret, len, piece, returned, member, startAddr, size, endAddr⟩ := Interceptor.run_returned executed live
    refine ⟨ret, len, (piece.startAddr, piece.size), returned, fun failed => ?_, List.mem_map_of_mem member, ?_, ?_⟩
    · obtain ⟨first, sample, rest, seen, split, exits, monitored, there, recorded, _⟩ := returned
      obtain ⟨other, same, unrecorded⟩ := ignored first sample rest ret split exits monitored failed
      obtain rfl := Option.some.inj (there.symm.trans same)
      exact unrecorded recorded
    · rw [Table.slots_live live, startAddr, size]
    · intro user
      rw [endAddr, startAddr, size]
      exact Interceptor.piece_inside user member

theorem failed_mmap_small : ∃ s,
    [⟨⟨7, 7⟩, .enterMmap ⟨0, 4096, 3, 34, -1, 0⟩⟩].foldlM (Interceptor.step machine 7) .start = .ok s ∧
    ∃ s', Interceptor.step machine 7 s ⟨⟨7, 7⟩, .exitMmap (-12)⟩ = .ok s' ∧ s.table.Untouched s'.table := by
  obtain ⟨s, executed⟩ : ∃ s,
      [⟨⟨7, 7⟩, .enterMmap ⟨0, 4096, 3, 34, -1, 0⟩⟩].foldlM (Interceptor.step machine 7) .start = .ok s := ⟨_, rfl⟩
  refine ⟨s, executed, ?_⟩
  exact ((failed_mmap executed).1 ⟨⟨7, 7⟩, .exitMmap (-12)⟩ (-12) rfl rfl (by decide)).mpr ⟨_, rfl, by decide⟩

/-- There is no memory for a mapping of two megabytes. -/
theorem failed_mmap_enomem : ∃ s,
    [⟨⟨7, 7⟩, .enterMmap ⟨0, 2000000, 3, 34, -1, 0⟩⟩, ⟨⟨7, 7⟩, .exitMmap (-12)⟩].foldlM
      (Interceptor.step machine 7) .start = .ok s ∧
    Failed (-12) ∧ s.table.objAlloc 0 = 1 ∧ (s.table.objVector 0).startAddr = -12 ∧
    (s.table.objVector 0).endAddr = 1999988 ∧ s.table.trace.length = 1 := by
  have passed : Runs.ends (fun s => Failed (-12) ∧ s.table.objAlloc 0 = 1 ∧ (s.table.objVector 0).startAddr = -12 ∧
      (s.table.objVector 0).endAddr = 1999988 ∧ s.table.trace.length = 1)
      ([⟨⟨7, 7⟩, .enterMmap ⟨0, 2000000, 3, 34, -1, 0⟩⟩, ⟨⟨7, 7⟩, .exitMmap (-12)⟩].foldlM
        (Interceptor.step machine 7) .start) = true := by decide +kernel
  obtain ⟨s, executed, ended⟩ := Runs.ends_ok passed
  exact ⟨s, executed, of_decide_eq_true ended⟩

end OnlineScheduler
