import OnlineScheduler.Proofs.Pairing
import OnlineScheduler.Proofs.Ranges

/-! The interceptor on what one thread of the monitored process does to its
address space: the histories the kernel allows, what each event does to the
table and that a history whose objects fit is handled to its end. -/

namespace OnlineScheduler

variable {p : Platform}

/-- What the monitored process does to its address space. -/
inductive MapEvent where
  | mmap (args : MmapEnterArgs) (ret : BitVec 64)
  | munmap (addr len : BitVec 64)
deriving DecidableEq

def Apart (first second : Range) : Prop :=
  first.1.toNat + first.2.toNat ≤ second.1.toNat ∨ second.1.toNat + second.2.toNat ≤ first.1.toNat

instance (first second : Range) : Decidable (Apart first second) := inferInstanceAs (Decidable (_ ∨ _))

namespace MapEvent

def samples (thread : Thread) : MapEvent → List Sample
  | .mmap args ret => [⟨thread, .enterMmap args⟩, ⟨thread, .exitMmap ret⟩]
  | .munmap addr len => [⟨thread, .enterMunmap addr len⟩]

/-- What the kernel lets succeed: mappings without an address hint, apart from
what is mapped, and unmappings of exactly one mapped region. -/
def Allowed (mapped : List Range) : MapEvent → Prop
  | .mmap args ret =>
    args.addr = 0 ∧ 0 < args.len.toNat ∧ ret.toNat + args.len.toNat < 2 ^ 64 ∧
      ∀ region ∈ mapped, Apart (ret, args.len) region
  | .munmap addr len => (addr, len) ∈ mapped

def onMapped (mapped : List Range) : MapEvent → List Range
  | .mmap args ret => (ret, args.len) :: mapped
  | .munmap addr len => mapped.erase (addr, len)

def onLength (latest : BitVec 64) : MapEvent → BitVec 64
  | .mmap args _ => args.len
  | .munmap .. => latest

def insertions : MapEvent → Nat
  | .mmap args ret => if Interceptor.Recorded args then (Recorder.chunks ret args.len).length else 0
  | .munmap .. => 0

end MapEvent

def Legal : List Range → List MapEvent → Prop
  | _, [] => True
  | mapped, event :: rest => event.Allowed mapped ∧ Legal (event.onMapped mapped) rest

theorem Legal.known {mapped : List Range} {events : List MapEvent} (legal : Legal mapped events) (empty : mapped = []) (addr len : BitVec 64) :
    events.head? ≠ some (.munmap addr len) := by
  cases events with
  | nil => simp
  | cons event rest =>
    intro same
    cases Option.some.inj same
    rw [empty] at legal
    exact List.not_mem_nil legal.1

/-- The length of the last mapping, after one of the given length. -/
def lastLen (latest : BitVec 64) (events : List MapEvent) : BitVec 64 := events.foldl MapEvent.onLength latest

instance : ∀ mapped event, Decidable (MapEvent.Allowed mapped event)
  | mapped, .mmap args ret =>
    have : Decidable (∀ region ∈ mapped, Apart (ret, args.len) region) := List.decidableBAll _ mapped
    inferInstanceAs (Decidable (_ ∧ _ ∧ _ ∧ ∀ region ∈ mapped, Apart (ret, args.len) region))
  | mapped, .munmap addr len => inferInstanceAs (Decidable ((addr, len) ∈ mapped))

instance Legal.decidable : ∀ mapped events, Decidable (Legal mapped events)
  | _, [] => isTrue trivial
  | mapped, event :: rest =>
    have := Legal.decidable (event.onMapped mapped) rest
    inferInstanceAs (Decidable (event.Allowed mapped ∧ Legal (event.onMapped mapped) rest))

namespace Interceptor

variable {thread : Thread} {s s' : State} {args : MmapEnterArgs} {ret addr len : BitVec 64} {events : List MapEvent}

def handleEvent (p : Platform) (thread : Thread) (s : State) (event : MapEvent) : Except Fault State :=
  (event.samples thread).foldlM (step p thread.pid) s

def handleEvents (p : Platform) (thread : Thread) (s : State) (events : List MapEvent) : Except Fault State :=
  events.foldlM (handleEvent p thread) s

def State.start : State := ⟨none, .start⟩

def Performs (p : Platform) : Option RecorderCall → Table → Table → Prop
  | none, t, t' => t' = t
  | some call, t, t' => performCall p call t = .ok t'

theorem step_ok {appPid : BitVec 32} {sample : Sample} {enter : Option EnterSample} {call : Option RecorderCall}
    (called : handleSample appPid s.enter sample = .ok (enter, call)) :
    step p appPid s sample = .ok s' ↔ s'.enter = enter ∧ Performs p call s.table s'.table := by
  obtain ⟨enter', table'⟩ := s'
  rw [step, called]
  cases call with
  | none =>
    constructor
    · intro done
      cases done
      exact ⟨rfl, rfl⟩
    · rintro ⟨rfl, rfl⟩
      rfl
  | some call =>
    change (performCall p call s.table >>= fun table => pure (State.mk enter table)) = _ ↔ _
    constructor
    · intro performed
      obtain ⟨table, executed, done⟩ := Runs.bind_ok.mp performed
      cases done
      exact ⟨rfl, executed⟩
    · rintro ⟨rfl, executed⟩
      exact Runs.bind_ok.mpr ⟨table', executed, rfl⟩

theorem handleEvent_mmap : handleEvent p thread s (.mmap args ret) = .ok s' ↔
    s'.enter = some ⟨thread, args⟩ ∧
      if Recorded args then Recorder.insertObject p thread.pid ret args.len s.table = .ok s'.table
      else s'.table = s.table := by
  have exits : handleEvent p thread s (.mmap args ret) =
      step p thread.pid ⟨some ⟨thread, args⟩, s.table⟩ ⟨thread, .exitMmap ret⟩ := by
    simp only [handleEvent, MapEvent.samples, List.foldlM_cons, List.foldlM_nil, bind_pure]
    rfl
  rw [exits, step_ok (handleSample_exit rfl _)]
  by_cases recorded : Recorded args
  · rw [if_pos recorded, if_pos ⟨rfl, recorded⟩, Performs, performCall]
  · rw [if_neg recorded, if_neg (fun both => recorded both.2), Performs]

theorem handleEvent_munmap : handleEvent p thread s (.munmap addr len) = .ok s' ↔
    ∃ seen, s.enter = some seen ∧ s'.enter = some seen ∧
      s'.table = if 1000000 < seen.args.len then Recorder.deallocateObject thread.pid addr len s.table else s.table := by
  have enters : handleEvent p thread s (.munmap addr len) = step p thread.pid s ⟨thread, .enterMunmap addr len⟩ :=
    bind_pure _
  rw [enters]
  cases there : s.enter with
  | none =>
    rw [step, there, handleSample_missing (show Reads thread.pid ⟨thread, .enterMunmap addr len⟩ from rfl)]
    constructor
    · intro impossible; cases impossible
    · rintro ⟨seen, impossible, _⟩; cases impossible
  | some seen =>
    have called : handleSample thread.pid s.enter ⟨thread, .enterMunmap addr len⟩ = .ok (some seen,
        if 1000000 < seen.args.len then some (.deallocateObject thread.pid addr len) else none) := by
      simp only [handleSample, if_true, there]
      split <;> rfl
    simp only [step_ok called, Option.some.injEq, exists_eq_left']
    split
    next => rw [Performs, performCall, Except.ok.injEq, eq_comm (a := s'.table)]
    next => rw [Performs]

theorem handleEvent_enter {event : MapEvent} {seen : EnterSample} (handled : handleEvent p thread s event = .ok s')
    (there : s.enter = some seen) :
    ∃ seen', s'.enter = some seen' ∧ seen'.args.len = event.onLength seen.args.len := by
  cases event with
  | mmap args ret => exact ⟨_, (handleEvent_mmap.mp handled).1, rfl⟩
  | munmap addr len =>
    obtain ⟨seen', before, after, _⟩ := handleEvent_munmap.mp handled
    cases there.symm.trans before
    exact ⟨seen, after, rfl⟩

theorem handleEvents_enter {seen : EnterSample} (handled : handleEvents p thread s events = .ok s')
    (there : s.enter = some seen) : ∃ seen', s'.enter = some seen' ∧ seen'.args.len = lastLen seen.args.len events := by
  induction events generalizing s seen with
  | nil => cases handled; exact ⟨seen, there, rfl⟩
  | cons event rest ih =>
    obtain ⟨middle, first, remaining⟩ := Runs.cons_ok.mp handled
    obtain ⟨next, entered, length⟩ := handleEvent_enter first there
    rw [lastLen, List.foldl_cons, ← length]
    exact ih remaining entered

theorem handleEvent_later {event : MapEvent} (handled : handleEvent p thread s event = .ok s') (valid : s.table.Valid) :
    s.table.Later s'.table := by
  cases event with
  | mmap args ret =>
    obtain ⟨_, table⟩ := handleEvent_mmap.mp handled
    split at table
    next => exact (Recorder.insertObject_inserted valid table).later
    next => rw [table]; exact .refl valid
  | munmap addr len =>
    obtain ⟨_, _, _, table⟩ := handleEvent_munmap.mp handled
    rw [table]
    split
    next => exact (Recorder.deallocateObject_frees thread.pid addr len s.table).later valid
    next => exact .refl valid

theorem handleEvents_later (handled : handleEvents p thread s events = .ok s') (valid : s.table.Valid) :
    s.table.Later s'.table := by
  refine Runs.related (fun before after => before.table.Valid → before.table.Later after.table)
    (fun _ => .refl) (fun first last valid => (first valid).trans (last (first valid).valid)) ?_ handled valid
  exact fun _ _ _ _ => handleEvent_later

/-- An event is handled when its objects fit, unless it is a `munmap` without
an entry before it. -/
theorem handleEvent_defined (p : Platform) (thread : Thread) {event : MapEvent} (valid : s.table.Valid)
    (known : s.enter = none → ∀ addr len, event ≠ .munmap addr len)
    (room : s.table.totalObj + event.insertions ≤ maxObjects) : ∃ s', handleEvent p thread s event = .ok s' := by
  cases event with
  | mmap args ret =>
    simp only [MapEvent.insertions] at room
    split at room
    next recorded =>
      obtain ⟨table, inserted⟩ := Recorder.insertObject_room p thread.pid valid room
      refine ⟨⟨some ⟨thread, args⟩, table⟩, handleEvent_mmap.mpr ⟨rfl, ?_⟩⟩
      rw [if_pos recorded]
      exact inserted
    next ignored =>
      refine ⟨⟨some ⟨thread, args⟩, s.table⟩, handleEvent_mmap.mpr ⟨rfl, ?_⟩⟩
      rw [if_neg ignored]
  | munmap addr len =>
    obtain ⟨seen, entered⟩ : ∃ seen, s.enter = some seen := by
      apply Option.ne_none_iff_exists'.mp
      intro missing
      exact known missing addr len rfl
    exact ⟨⟨some seen, _⟩, handleEvent_munmap.mpr ⟨seen, entered, rfl, rfl⟩⟩

theorem handleEvent_counted {event : MapEvent} (handled : handleEvent p thread s event = .ok s')
    (valid : s.table.Valid) : s'.enter ≠ none ∧ s'.table.totalObj = s.table.totalObj + event.insertions := by
  cases event with
  | mmap args ret =>
    obtain ⟨entered, table⟩ := handleEvent_mmap.mp handled
    refine ⟨entered ▸ Option.some_ne_none _, ?_⟩
    rw [MapEvent.insertions]
    split at table
    next recorded => rw [if_pos recorded]; exact (Recorder.insertObject_inserted valid table).total
    next ignored => rw [if_neg ignored, table]; rfl
  | munmap addr len =>
    obtain ⟨_, _, entered, table⟩ := handleEvent_munmap.mp handled
    refine ⟨entered ▸ Option.some_ne_none _, ?_⟩
    rw [table]
    split
    next => exact (Recorder.deallocateObject_frees thread.pid addr len s.table).frame.2
    next => rfl

/-- Events are handled to their end exactly when their objects fit and no
`munmap` comes before every entry. -/
theorem handleEvents_defined (p : Platform) (thread : Thread) (valid : s.table.Valid) :
    (∃ s', handleEvents p thread s events = .ok s') ↔
      s.table.totalObj + (events.map MapEvent.insertions).sum ≤ maxObjects ∧
        (s.enter = none → ∀ addr len, events.head? ≠ some (.munmap addr len)) := by
  induction events generalizing s with
  | nil => simp [handleEvents, pure, Except.pure, valid.bounded]
  | cons event rest ih =>
    rw [List.map_cons, List.sum_cons, List.head?_cons]
    constructor
    · rintro ⟨s', handled⟩
      obtain ⟨middle, first, remaining⟩ := Runs.cons_ok.mp handled
      obtain ⟨_, total⟩ := handleEvent_counted first valid
      obtain ⟨room, _⟩ := (ih (handleEvent_later first valid).valid).mp ⟨s', remaining⟩
      refine ⟨by omega, fun missing addr len same => ?_⟩
      cases same
      obtain ⟨seen, there, _⟩ := handleEvent_munmap.mp first
      cases missing.symm.trans there
    · rintro ⟨room, known⟩
      obtain ⟨middle, first⟩ := handleEvent_defined p thread valid
        (fun missing addr len same => known missing addr len (congrArg some same)) (by omega)
      obtain ⟨entered, total⟩ := handleEvent_counted first valid
      obtain ⟨s', remaining⟩ := (ih (handleEvent_later first valid).valid).mpr
        ⟨by omega, fun missing => absurd missing entered⟩
      exact ⟨s', Runs.cons_ok.mpr ⟨middle, first, remaining⟩⟩

end Interceptor
end OnlineScheduler
