import OnlineScheduler.Interceptor
import OnlineScheduler.General.Runs
import Mathlib.Data.List.Induction

/-! Whose arguments an exit is given. The handler keeps one entry for all
threads, so an exit is paired with whatever thread entered `mmap` last. -/

namespace OnlineScheduler

def Sample.enterSample (sample : Sample) : Option EnterSample :=
  match sample.data with
  | .enterMmap args => some ⟨sample.thread, args⟩
  | _ => none

def lastEnter (history : List Sample) : Option EnterSample := history.reverse.findSome? Sample.enterSample

def ownEnter (thread : Thread) (history : List Sample) : Option EnterSample :=
  lastEnter (history.filter (fun sample => sample.thread = thread))

theorem lastEnter_snoc (history : List Sample) (sample : Sample) :
    lastEnter (history ++ [sample]) = sample.enterSample.or (lastEnter history) := by
  rw [lastEnter, List.reverse_append, List.reverse_singleton, List.singleton_append, List.findSome?_cons, ← lastEnter]
  cases sample.enterSample <;> rfl

namespace Interceptor

variable {appPid : BitVec 32}

def enterAfter (appPid : BitVec 32) (samples : List Sample) : Except Fault (Option EnterSample) :=
  samples.foldlM (fun enter sample => Prod.fst <$> handleSample appPid enter sample) none

/-- What pairing owes the recorder: every sample is handled, and an exit is
recorded only with the arguments its own thread entered last. -/
structure Pairs (appPid : BitVec 32) (samples : List Sample) : Prop where
  handled : ∃ enter, enterAfter appPid samples = .ok enter
  paired : ∀ first sample rest ret, samples = first ++ sample :: rest → sample.data = .exitMmap ret →
    ∃ enter call, enterAfter appPid first = .ok enter ∧ handleSample appPid enter sample = .ok (enter, call) ∧
      ∀ pid addr len, call = some (.insertObject pid addr len) →
        pid = sample.thread.pid ∧ addr = ret ∧
          ∃ own, ownEnter sample.thread first = some own ∧ Recorded own.args ∧ len = own.args.len

def Reads (appPid : BitVec 32) (sample : Sample) : Prop :=
  match sample.data with
  | .enterMmap _ => False
  | .exitMmap _ => True
  | .enterMunmap .. => sample.thread.pid = appPid

def Started (appPid : BitVec 32) (samples : List Sample) : Prop :=
  ∀ first sample rest, samples = first ++ sample :: rest → Reads appPid sample → lastEnter first ≠ none

/-- The orders in which one entry is enough: it is there when it is read, and
whenever an exit of the monitored process finds one that would be recorded, so
would its thread's own. -/
structure InOrder (appPid : BitVec 32) (samples : List Sample) : Prop where
  started : Started appPid samples
  own : ∀ first sample rest ret seen, samples = first ++ sample :: rest → sample.data = .exitMmap ret →
    sample.thread.pid = appPid → lastEnter first = some seen → Recorded seen.args →
      ∃ own, ownEnter sample.thread first = some own ∧ Recorded own.args ∧ own.args.len = seen.args.len

theorem started_snoc {samples : List Sample} {sample : Sample} :
    Started appPid (samples ++ [sample]) ↔
      Started appPid samples ∧ (Reads appPid sample → lastEnter samples ≠ none) := by
  constructor
  · intro started
    refine ⟨fun first other rest split => started first other (rest ++ [sample]) ?_, started samples sample [] rfl⟩
    exact Runs.snoc_split.mpr (Or.inr ⟨rest, rfl, split⟩)
  · rintro ⟨started, last⟩ first other rest split
    rcases Runs.snoc_split.mp split with ⟨_, rfl, rfl⟩ | ⟨earlier, _, before⟩
    · exact last
    · exact started first other earlier before

theorem handleSample_exit {sample : Sample} {ret : BitVec 64} (exits : sample.data = .exitMmap ret) (seen : EnterSample) :
    handleSample appPid (some seen) sample = .ok (some seen,
      if sample.thread.pid = appPid ∧ Recorded seen.args then
        some (.insertObject sample.thread.pid ret seen.args.len)
      else none) := by
  simp only [handleSample, exits]
  split <;> rfl

theorem handleSample_defined {enter : Option EnterSample} {sample : Sample} (there : Reads appPid sample → enter ≠ none) :
    ∃ call, handleSample appPid enter sample = .ok (sample.enterSample.or enter, call) := by
  obtain ⟨thread, data⟩ := sample
  cases data with
  | enterMmap args => exact ⟨none, rfl⟩
  | exitMmap ret =>
    obtain ⟨seen, rfl⟩ := Option.ne_none_iff_exists'.mp (there trivial)
    exact ⟨_, handleSample_exit rfl seen⟩
  | enterMunmap addr len =>
    by_cases monitored : thread.pid = appPid
    · obtain ⟨seen, rfl⟩ := Option.ne_none_iff_exists'.mp (there monitored)
      simp only [handleSample, monitored, if_true]
      split <;> exact ⟨_, rfl⟩
    · exact ⟨none, if_neg monitored⟩

theorem handleSample_missing {sample : Sample} (reads : Reads appPid sample) :
    handleSample appPid none sample = .error .uninitialized := by
  obtain ⟨thread, data⟩ := sample
  cases data with
  | enterMmap args => exact reads.elim
  | exitMmap ret => rfl
  | enterMunmap addr len => exact if_pos reads

/-- What a sample may call: nothing, the insertion of an exit or the
deallocation of a `munmap`. -/
theorem handleSample_call {enter after : Option EnterSample} {sample : Sample} {call : Option RecorderCall}
    (handled : handleSample appPid enter sample = .ok (after, call)) :
    call = none ∨
    (∃ ret seen, sample.data = .exitMmap ret ∧ sample.thread.pid = appPid ∧ enter = some seen ∧ Recorded seen.args ∧
      call = some (.insertObject sample.thread.pid ret seen.args.len)) ∨
    ∃ addr len, call = some (.deallocateObject sample.thread.pid addr len) := by
  obtain ⟨thread, data⟩ := sample
  cases data with
  | enterMmap args => cases handled; exact Or.inl rfl
  | exitMmap ret =>
    cases enter with
    | none => cases handled
    | some seen =>
      rw [handleSample_exit rfl] at handled
      cases handled
      split
      next both => exact Or.inr (Or.inl ⟨ret, seen, rfl, both.1, rfl, both.2, rfl⟩)
      next => exact Or.inl rfl
  | enterMunmap addr len =>
    simp only [handleSample] at handled
    split at handled
    next =>
      split at handled
      next => cases handled
      next =>
        split at handled
        next => cases handled; exact Or.inr (Or.inr ⟨addr, len, rfl⟩)
        next => cases handled; exact Or.inl rfl
    next => cases handled; exact Or.inl rfl

theorem handleSample_enter {enter after : Option EnterSample} {sample : Sample} :
    Prod.fst <$> handleSample appPid enter sample = .ok after ↔
      (Reads appPid sample → enter ≠ none) ∧ after = sample.enterSample.or enter := by
  by_cases there : Reads appPid sample → enter ≠ none
  · obtain ⟨call, handled⟩ := handleSample_defined there
    rw [handled]
    constructor
    · intro same
      cases same
      exact ⟨there, rfl⟩
    · rintro ⟨_, rfl⟩
      rfl
  · obtain ⟨reads, missing⟩ := Classical.not_imp.mp there
    obtain rfl := Classical.not_not.mp missing
    rw [handleSample_missing reads]
    constructor
    · intro impossible
      cases impossible
    · exact fun ⟨defined, _⟩ => absurd defined there

theorem enterAfter_snoc {samples : List Sample} {sample : Sample} {after : Option EnterSample} :
    enterAfter appPid (samples ++ [sample]) = .ok after ↔
      ∃ enter, enterAfter appPid samples = .ok enter ∧ Prod.fst <$> handleSample appPid enter sample = .ok after :=
  Runs.snoc_ok

theorem enterAfter_ok {samples : List Sample} {enter : Option EnterSample} :
    enterAfter appPid samples = .ok enter ↔ Started appPid samples ∧ enter = lastEnter samples := by
  induction samples using List.reverseRecOn generalizing enter with
  | nil =>
    constructor
    · intro done
      cases done
      exact ⟨fun first sample rest split => by simp at split, rfl⟩
    · rintro ⟨_, rfl⟩
      rfl
  | append_singleton samples sample ih =>
    simp only [enterAfter_snoc, started_snoc, lastEnter_snoc, ih, handleSample_enter]
    constructor
    · rintro ⟨middle, ⟨started, rfl⟩, defined, after⟩
      exact ⟨⟨started, defined⟩, after⟩
    · rintro ⟨⟨started, defined⟩, after⟩
      exact ⟨_, ⟨started, rfl⟩, defined, after⟩

theorem pairs_of_inOrder {samples : List Sample} (inOrder : InOrder appPid samples) : Pairs appPid samples := by
  refine ⟨⟨_, enterAfter_ok.mpr ⟨inOrder.started, rfl⟩⟩, ?_⟩
  intro first sample rest ret split exits
  have reads : Reads appPid sample := by
    rw [Reads, exits]
    trivial
  have before : Started appPid first := by
    intro earlier other between same
    exact inOrder.started earlier other (between ++ sample :: rest) (by rw [split, same]; simp)
  obtain ⟨seen, last⟩ := Option.ne_none_iff_exists'.mp (inOrder.started first sample rest split reads)
  refine ⟨some seen, _, enterAfter_ok.mpr ⟨before, last.symm⟩, handleSample_exit exits seen, ?_⟩
  intro pid addr len called
  obtain ⟨⟨monitored, recorded⟩, call⟩ := Option.ite_none_right_eq_some.mp called
  cases call
  obtain ⟨own, found, test, same⟩ := inOrder.own first sample rest ret seen split exits monitored last recorded
  exact ⟨rfl, rfl, own, found, test, same.symm⟩

theorem inOrder_of_pairs {samples : List Sample} (pairs : Pairs appPid samples) : InOrder appPid samples := by
  obtain ⟨_, handled⟩ := pairs.handled
  refine ⟨(enterAfter_ok.mp handled).1, ?_⟩
  intro first sample rest ret seen split exits monitored last recorded
  obtain ⟨enter, call, before, step, paired⟩ := pairs.paired first sample rest ret split exits
  obtain ⟨_, rfl⟩ := enterAfter_ok.mp before
  rw [last, handleSample_exit exits, if_pos ⟨monitored, recorded⟩] at step
  cases step
  obtain ⟨_, _, own, found, test, same⟩ := paired _ _ _ rfl
  exact ⟨own, found, test, same.symm⟩

end Interceptor

/-- The interceptor pairs exits with their own entries exactly when the samples
come in an order in which the last entry of all threads will do. -/
theorem interceptor_pairs (appPid : BitVec 32) (samples : List Sample) :
    Interceptor.Pairs appPid samples ↔ Interceptor.InOrder appPid samples :=
  ⟨Interceptor.inOrder_of_pairs, Interceptor.pairs_of_inOrder⟩

/-- Thread 8 enters between the entry and the exit of thread 7, which is then
recorded with the length of thread 8. -/
theorem interceptor_pairs_race :
    Interceptor.handleSample 7
        (some ⟨⟨7, 8⟩, ⟨0, 64000000, 3, 34, -1, 0⟩⟩) ⟨⟨7, 7⟩, .exitMmap 4096⟩ =
      .ok (some ⟨⟨7, 8⟩, ⟨0, 64000000, 3, 34, -1, 0⟩⟩, some (.insertObject 7 4096 64000000)) ∧
    ¬ Interceptor.Pairs 7
      [⟨⟨7, 7⟩, .enterMmap ⟨0, 2000000, 3, 34, -1, 0⟩⟩, ⟨⟨7, 8⟩, .enterMmap ⟨0, 64000000, 3, 34, -1, 0⟩⟩,
        ⟨⟨7, 7⟩, .exitMmap 4096⟩] := by
  refine ⟨by decide, ?_⟩
  intro pairs
  obtain ⟨enter, call, before, step, paired⟩ := pairs.paired
    [⟨⟨7, 7⟩, .enterMmap ⟨0, 2000000, 3, 34, -1, 0⟩⟩, ⟨⟨7, 8⟩, .enterMmap ⟨0, 64000000, 3, 34, -1, 0⟩⟩]
    ⟨⟨7, 7⟩, .exitMmap 4096⟩ [] 4096 rfl rfl
  cases before
  cases step
  obtain ⟨_, _, own, found, _, same⟩ := paired _ _ _ rfl
  cases found
  exact absurd same (by decide)

end OnlineScheduler
