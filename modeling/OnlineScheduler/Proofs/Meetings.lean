import OnlineScheduler.Proofs.Moves

/-! Whom the start brings together. Whatever the order of the steps, one process
at most starts the mbind thread, and every end that an `open` has waited for is
there. -/

namespace OnlineScheduler.Startup

variable {n : Nat} {left : Pipe → Bool} {descriptors : Nat} {s s' : State n} {party : Party n} {parties : List (Party n)}

/-- At most one process makes the shared memory, and the others do nothing. -/
structure State.Exclusive (s : State n) : Prop where
  once : ∀ i j, (s.processes i).storage = some true → (s.processes j).storage = some true → i = j
  stored : ∀ i, (s.processes i).storage ≠ none → s.files.storage = true
  owner : s.files.storage = true → ∃ i, (s.processes i).storage = some true
  idle : ∀ i, (s.processes i).storage ≠ some true →
    (s.processes i).migration = .before ∧ (s.processes i).migrationError = .before ∧
      (s.processes i).threadMbind = false

private theorem State.Exclusive.asked (exclusive : s.Exclusive) {i : Fin (n + 1)}
    (untried : (s.processes i).storage = none) (stored : s'.files.storage = true)
    (set : s'.processes = Function.update s.processes i { s.processes i with storage := some (!s.files.storage) }) :
    s'.Exclusive := by
  have here : (s'.processes i).storage = some (!s.files.storage) := by rw [set, Function.update_self]
  have other {j : Fin (n + 1)} (apart : j ≠ i) : s'.processes j = s.processes j := by
    rw [set, Function.update_of_ne apart]
  have still {j : Fin (n + 1)} (won : (s'.processes j).storage = some true) :
      j = i ∧ s.files.storage = false ∨ (s.processes j).storage = some true := by
    by_cases same : j = i
    · subst same
      rw [here] at won
      exact Or.inl ⟨rfl, by simpa using won⟩
    · exact Or.inr (other same ▸ won)
  refine ⟨?_, fun _ _ => stored, fun _ => ?_, ?_⟩
  · intro j k first second
    rcases still first with ⟨rfl, free⟩ | earlier
    · rcases still second with ⟨rfl, _⟩ | taken
      · rfl
      · exact absurd (exclusive.stored k (by rw [taken]; nofun)) (by rw [free]; nofun)
    · rcases still second with ⟨rfl, free⟩ | taken
      · exact absurd (exclusive.stored j (by rw [earlier]; nofun)) (by rw [free]; nofun)
      · exact exclusive.once j k earlier taken
  · cases free : s.files.storage with
    | false => exact ⟨i, by rw [here, free]; rfl⟩
    | true =>
      obtain ⟨j, won⟩ := exclusive.owner free
      have apart : j ≠ i := by
        rintro rfl
        rw [untried] at won
        cases won
      exact ⟨j, by rw [other apart]; exact won⟩
  · intro j lost
    by_cases same : j = i
    · subst same
      obtain ⟨migration, migrationError, threadMbind⟩ := exclusive.idle j (by rw [untried]; nofun)
      rw [set, Function.update_self]
      exact ⟨migration, migrationError, threadMbind⟩
    · rw [other same] at lost ⊢
      exact exclusive.idle j lost

private theorem State.Exclusive.moved (exclusive : s.Exclusive) {i : Fin (n + 1)} {process : Process}
    (won : (s.processes i).storage = some true) (kept : process.storage = some true)
    (set : s'.processes = Function.update s.processes i process) (stored : s'.files.storage = s.files.storage) :
    s'.Exclusive := by
  have same (j : Fin (n + 1)) : (s'.processes j).storage = (s.processes j).storage := by
    rw [set]
    by_cases here : j = i
    · subst here; rw [Function.update_self, kept, won]
    · rw [Function.update_of_ne here]
  refine ⟨?_, ?_, ?_, ?_⟩
  · intro j k first second
    exact exclusive.once j k (same j ▸ first) (same k ▸ second)
  · intro j tried
    rw [stored]
    exact exclusive.stored j (same j ▸ tried)
  · intro taken
    obtain ⟨j, owns⟩ := exclusive.owner (stored ▸ taken)
    exact ⟨j, (same j).trans owns⟩
  · intro j lost
    rw [same] at lost
    have apart : j ≠ i := by
      rintro rfl
      exact lost won
    rw [set, Function.update_of_ne apart]
    exact exclusive.idle j lost

theorem Step.exclusive (step : Step s party s') (exclusive : s.Exclusive) : s'.Exclusive := by
  rcases step.processes with ⟨same, stored⟩ | ⟨i, untried, _, stored, set⟩ | ⟨i, process, won, kept, set, stored⟩
  · refine ⟨?_, ?_, ?_, ?_⟩
    · rw [same]; exact exclusive.once
    · rw [same, stored]; exact exclusive.stored
    · rw [same, stored]; exact exclusive.owner
    · rw [same]; exact exclusive.idle
  · exact exclusive.asked untried stored set
  · exact exclusive.moved won kept set stored

theorem start_exclusive (left : Pipe → Bool) (descriptors : Nat) : (State.start n left descriptors).Exclusive where
  once := nofun
  stored := fun _ tried => absurd rfl tried
  owner := nofun
  idle := fun _ _ => ⟨rfl, rfl, rfl⟩

theorem run_exclusive (executed : (State.start n left descriptors).run parties = .ok s) : s.Exclusive :=
  Runs.invariant State.Exclusive (fun _ _ _ _ stepped => (step_steps stepped).exclusive) executed
    (start_exclusive left descriptors)

/-- The registered ends are those that calls hold, and a call that has come back
from waiting has the other end there. -/
structure State.Meeting (s : State n) : Prop where
  registered : ∀ (call : Call n) inode, (s.opening call).Holds inode →
    s.files.registered call.pipe inode call.side = true
  held : ∀ pipe side inode, s.files.registered pipe inode side = true →
    ∃ call : Call n, call.pipe = pipe ∧ call.side = side ∧ (s.opening call).Holds inode
  met : ∀ (call : Call n) inode, call.nonblock = false → s.opening call = .opened (some inode) →
    s.files.registered call.pipe inode call.side.other = true
  instant : ∀ (call : Call n) inode, call.nonblock = true → s.opening call ≠ .waiting inode

theorem Step.meeting (step : Step s party s') (meeting : s.Meeting) : s'.Meeting := by
  rcases step.openings with ⟨same, registered⟩ | ⟨call, opening', _, _, _, _, opens, set⟩
  · refine ⟨?_, ?_, ?_, ?_⟩
    · rw [same, registered]; exact meeting.registered
    · rw [same, registered]; exact meeting.held
    · rw [same, registered]; exact meeting.met
    · rw [same]; exact meeting.instant
  · refine ⟨?_, ?_, ?_, ?_⟩
    · intro other inode holds
      rw [set] at holds
      by_cases same : other = call
      · subst same
        rw [Function.update_self] at holds
        exact opens.registered (meeting.registered other inode) holds
      · rw [Function.update_of_ne same] at holds
        exact opens.stays (meeting.registered other inode holds)
    · intro pipe side inode registered
      rcases opens.registers registered with earlier | ⟨rfl, rfl, here⟩
      · obtain ⟨other, rfl, rfl, holds⟩ := meeting.held pipe side inode earlier
        refine ⟨other, rfl, rfl, ?_⟩
        rw [set]
        by_cases same : other = call
        · subst same
          rw [Function.update_self]
          exact opens.holds holds
        · rwa [Function.update_of_ne same]
      · exact ⟨call, rfl, rfl, by rwa [set, Function.update_self]⟩
    · intro other inode blocking opened
      rw [set] at opened
      by_cases same : other = call
      · subst same
        rw [Function.update_self] at opened
        rw [blocking] at opens
        exact opens.met opened
      · rw [Function.update_of_ne same] at opened
        exact opens.stays (meeting.met other inode blocking opened)
    · intro other inode nonblock waiting
      rw [set] at waiting
      by_cases same : other = call
      · subst same
        rw [Function.update_self] at waiting
        rw [nonblock] at opens
        exact opens.instant waiting
      · rw [Function.update_of_ne same] at waiting
        exact meeting.instant other inode nonblock waiting

theorem start_meeting (left : Pipe → Bool) (descriptors : Nat) : (State.start n left descriptors).Meeting where
  registered := fun call _ holds => by cases call <;> rcases holds with impossible | impossible <;> cases impossible
  held := nofun
  met := fun call _ _ opened => by cases call <;> cases opened
  instant := fun call _ _ => by cases call <;> nofun

theorem run_meeting (executed : (State.start n left descriptors).run parties = .ok s) : s.Meeting :=
  Runs.invariant State.Meeting (fun _ _ _ _ stepped => (step_steps stepped).meeting) executed
    (start_meeting left descriptors)

private theorem State.Meeting.reader (meeting : s.Meeting) {inode : Inode}
    (registered : s.files.registered .migration inode .reading = true) : ∃ i, (s.processes i).migration.Holds inode := by
  obtain ⟨call, pipe, side, holds⟩ := meeting.held _ _ _ registered
  cases call with
  | preload i => exact ⟨i, holds⟩
  | recorder => cases side
  | actuator => cases side
  | actuatorError => cases pipe
  | preloadError => cases pipe

private theorem State.Meeting.writer (meeting : s.Meeting) {inode : Inode}
    (registered : s.files.registered .migration inode .writing = true) :
    s.interceptMmap.migration.Holds inode ∨ s.actuator.migration.Holds inode := by
  obtain ⟨call, pipe, side, holds⟩ := meeting.held _ _ _ registered
  cases call with
  | recorder => exact Or.inl holds
  | actuator => exact Or.inr holds
  | preload => cases side
  | actuatorError => cases pipe
  | preloadError => cases pipe

private theorem State.Meeting.errorReader (meeting : s.Meeting) {inode : Inode}
    (registered : s.files.registered .migrationError inode .reading = true) :
    s.actuator.migrationError = .opened (some inode) := by
  obtain ⟨call, pipe, side, holds⟩ := meeting.held _ _ _ registered
  cases call with
  | actuatorError => exact holds.resolve_left (meeting.instant .actuatorError inode rfl)
  | preloadError => cases side
  | recorder => cases pipe
  | actuator => cases pipe
  | preload => cases pipe

/-- What only the process with the mbind thread does. -/
def Process.Active (process : Process) : Prop :=
  process.migration ≠ .before ∨ process.migrationError ≠ .before ∨ process.threadMbind = true

/-- In every order of the steps one process at most opens the pipes and starts
the mbind thread, and whoever has a pipe open has its other end open too. -/
theorem one_reader (executed : (State.start n left descriptors).run parties = .ok s) :
    (∀ i j, (s.processes i).Active → (s.processes j).Active → i = j) ∧
    ∀ inode,
      (s.interceptMmap.migration = .opened (some inode) ∨ s.actuator.migration = .opened (some inode) →
        ∃ i, (s.processes i).migration.Holds inode) ∧
      ∀ i,
        ((s.processes i).migration = .opened (some inode) →
          s.interceptMmap.migration.Holds inode ∨ s.actuator.migration.Holds inode) ∧
        ((s.processes i).migrationError = .opened (some inode) →
          s.actuator.migrationError = .opened (some inode)) := by
  have exclusive := run_exclusive executed
  have meeting := run_meeting executed
  have owner (i : Fin (n + 1)) (active : (s.processes i).Active) : (s.processes i).storage = some true := by
    by_contra lost
    obtain ⟨migration, migrationError, threadMbind⟩ := exclusive.idle i lost
    rcases active with opened | opened | started
    · exact opened migration
    · exact opened migrationError
    · rw [threadMbind] at started; cases started
  refine ⟨?_, fun inode => ⟨?_, fun i => ⟨?_, ?_⟩⟩⟩
  · intro i j first second
    exact exclusive.once i j (owner i first) (owner j second)
  · rintro (opened | opened)
    · exact meeting.reader (meeting.met .recorder inode rfl opened)
    · exact meeting.reader (meeting.met .actuator inode rfl opened)
  · intro opened
    exact meeting.writer (meeting.met (.preload i) inode rfl opened)
  · intro opened
    exact meeting.errorReader (meeting.met (.preloadError i) inode rfl opened)

/-- The application starts a process of its own, which asks for the shared memory
in vain, and `main` finds `pid.txt` empty once. -/
def meetingOrder : List (Party 1) :=
  [.main, .main, .main, .main, .script, .process 0, .process 0, .interceptMmap, .process 0, .process 0, .process 1,
    .actuator, .actuator, .process 0, .process 0, .script, .main, .script, .main, .actuator, .interceptMmap]

theorem one_reader_child : ∃ s, (State.start 1 (fun _ => true) 8).run meetingOrder = .ok s ∧
    (s.processes 0).Active ∧ ¬ (s.processes 1).Active := by
  have passed : Runs.ends (fun s => (s.processes 0).threadMbind)
      ((State.start 1 (fun _ => true) 8).run meetingOrder) = true := rfl
  obtain ⟨s, executed, started⟩ := Runs.ends_ok passed
  refine ⟨s, executed, Or.inr (Or.inr started), fun active => ?_⟩
  exact nomatch (one_reader executed).1 0 1 (Or.inr (Or.inr started)) active

end OnlineScheduler.Startup
