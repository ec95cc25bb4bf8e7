import OnlineScheduler.Proofs.Timing

/-! The scheduler and the application meet. When the script lets `main` make
the pipes first and `main` keeps a descriptor, nobody waits forever. -/

namespace OnlineScheduler.Startup

variable {n : Nat} {left : Pipe → Bool} {descriptors : Nat} {s s' : State n} {party : Party n} {parties : List (Party n)}

/-- No party can go on. -/
def State.Stuck (s : State n) : Prop := ∀ party s', s.step party ≠ .ok s'

private theorem State.Stuck.script (stuck : s.Stuck) : s.script = .waiting := by
  have blocked : ∀ s', s.stepScript ≠ .ok s' := stuck .script
  cases here : s.script with
  | launch => exact absurd (by simp only [stepScript, here]) (blocked { s with script := .createPid })
  | createPid =>
    exact absurd (by simp only [stepScript, here])
      (blocked { s with script := .writePid, files := { s.files with pid := .empty } })
  | writePid =>
    exact absurd (by simp only [stepScript, here])
      (blocked { s with script := .waiting, files := { s.files with pid := .written } })
  | waiting => rfl

private theorem State.Stuck.main (stuck : s.Stuck) (pid : s.files.pid = .written) (plenty : s.descriptors ≠ 0) :
    s.main = .joinThreads := by
  have blocked : ∀ s', s.stepMain ≠ .ok s' := stuck .main
  unfold stepMain at blocked
  cases here : s.main with
  | joinThreads => rfl
  | readPid =>
    obtain ⟨descriptors, taken⟩ := Nat.exists_eq_add_one_of_ne_zero plenty
    simp only [here, pid, taken] at blocked
    exact absurd rfl (blocked _)
  | _ => rw [here] at blocked; exact absurd rfl (blocked _)

private theorem State.Stuck.recorder (stuck : s.Stuck) (main : s.main = .joinThreads) :
    (∃ inode, s.opening .recorder = .waiting inode ∧ s.files.registered .migration inode .reading = false) ∨
      ∃ descriptor, s.interceptMmap = ⟨.opened descriptor, true⟩ := by
  have blocked : ∀ s', s.stepInterceptMmap ≠ .ok s' := stuck .interceptMmap
  have created : s.created = true := created_iff.mpr (by rw [main]; decide)
  have hasAppPid : s.hasAppPid = true := decide_eq_true main
  unfold stepInterceptMmap at blocked
  obtain ⟨opening, running, here⟩ : ∃ opening running, s.interceptMmap = ⟨opening, running⟩ := ⟨_, _, rfl⟩
  simp only [here] at blocked
  have waits : ∀ result, s.files.openFifo s.descriptors .migration .writing false opening ≠ .ok result := by
    intro result opens
    cases opening with
    | opened => cases opens
    | _ => simp only [created, if_true, opens] at blocked; exact blocked _ rfl
  rcases openFifo_stuck waits with ⟨inode, rfl, alone⟩ | ⟨descriptor, rfl⟩
  · exact Or.inl ⟨inode, by simp only [State.opening, here], alone⟩
  · cases running with
    | true => exact Or.inr ⟨descriptor, here⟩
    | false => simp only [hasAppPid, and_self, if_true] at blocked; exact absurd rfl (blocked _)

private theorem State.Stuck.actuator (stuck : s.Stuck) (main : s.main = .joinThreads) :
    (∃ inode, s.opening .actuator = .waiting inode ∧ s.files.registered .migration inode .reading = false) ∨
      (∃ inode, s.opening .actuatorError = .waiting inode) ∨
      ∃ descriptor descriptor', s.actuator = ⟨.opened descriptor, .opened descriptor', true⟩ := by
  have blocked : ∀ s', s.stepActuator ≠ .ok s' := stuck .actuator
  have created : s.created = true := created_iff.mpr (by rw [main]; decide)
  have hasAppPid : s.hasAppPid = true := decide_eq_true main
  unfold stepActuator at blocked
  obtain ⟨opening, openingError, running, here⟩ :
      ∃ opening openingError running, s.actuator = ⟨opening, openingError, running⟩ := ⟨_, _, _, rfl⟩
  simp only [here] at blocked
  have waits : ∀ result, s.files.openFifo s.descriptors .migration .writing false opening ≠ .ok result := by
    intro result opens
    cases opening with
    | opened => cases opens
    | _ => simp only [created, if_true, opens] at blocked; exact blocked _ rfl
  rcases openFifo_stuck waits with ⟨inode, rfl, alone⟩ | ⟨descriptor, rfl⟩
  · exact Or.inl ⟨inode, by simp only [State.opening, here], alone⟩
  · have waitsError : ∀ result, s.files.openFifo s.descriptors .migrationError .reading true openingError ≠ .ok result := by
      intro result opens
      cases openingError with
      | opened => cases opens
      | _ => simp only [opens] at blocked; exact blocked _ rfl
    rcases openFifo_stuck waitsError with ⟨inode, rfl, _⟩ | ⟨descriptor', rfl⟩
    · exact Or.inr (Or.inl ⟨inode, by simp only [State.opening, here]⟩)
    · cases running with
      | true => exact Or.inr (Or.inr ⟨descriptor, descriptor', here⟩)
      | false => simp only [hasAppPid, and_self, if_true] at blocked; exact absurd rfl (blocked _)

private theorem State.Stuck.process (stuck : s.Stuck) (i : Fin (n + 1)) :
    (s.processes i).storage = some false ∨
      (s.processes i).storage = some true ∧
        ((∃ inode, s.opening (.preload i) = .waiting inode ∧ s.files.registered .migration inode .writing = false) ∨
          (∃ descriptor inode, s.opening (.preload i) = .opened descriptor ∧
            s.opening (.preloadError i) = .waiting inode ∧
            s.files.registered .migrationError inode .reading = false) ∨
          ∃ descriptor descriptor', s.processes i = ⟨some true, .opened descriptor, .opened descriptor', true⟩) := by
  have blocked : ∀ s', s.stepProcess i ≠ .ok s' := stuck (.process i)
  have launched : ¬ s.script = .launch := by rw [stuck.script]; nofun
  unfold stepProcess at blocked
  obtain ⟨storage, opening, openingError, threadMbind, here⟩ :
      ∃ storage opening openingError threadMbind, s.processes i = ⟨storage, opening, openingError, threadMbind⟩ :=
    ⟨_, _, _, _, rfl⟩
  simp only [here] at blocked ⊢
  cases storage with
  | none => simp only [launched, if_false] at blocked; exact absurd rfl (blocked _)
  | some won =>
    cases won with
    | false => exact Or.inl rfl
    | true =>
      refine Or.inr ⟨rfl, ?_⟩
      have waits : ∀ result, s.files.openFifo 1 .migration .reading false opening ≠ .ok result := by
        intro result opens
        cases opening with
        | opened => cases opens
        | _ => simp only [opens] at blocked; exact blocked _ rfl
      rcases openFifo_stuck waits with ⟨inode, rfl, alone⟩ | ⟨descriptor, rfl⟩
      · exact Or.inl ⟨inode, by simp only [State.opening, here], alone⟩
      · have waitsError : ∀ result, s.files.openFifo 1 .migrationError .writing false openingError ≠ .ok result := by
          intro result opens
          cases openingError with
          | opened => cases opens
          | _ => simp only [opens] at blocked; exact blocked _ rfl
        rcases openFifo_stuck waitsError with ⟨inode, rfl, alone⟩ | ⟨descriptor', rfl⟩
        · exact Or.inr (Or.inl ⟨descriptor, inode, by simp only [State.opening, here], by simp only [State.opening, here],
            alone⟩)
        · cases threadMbind with
          | true => exact Or.inr (Or.inr ⟨descriptor, descriptor', rfl⟩)
          | false => simp only at blocked; exact absurd rfl (blocked _)

/-- Both programs have met: all pipes are open at both ends and the threads of
the scheduler and one mbind thread run. -/
structure State.Complete (s : State n) : Prop where
  main : s.main = .joinThreads
  interceptMmap : s.interceptMmap = ⟨.opened (some .fresh), true⟩
  actuator : s.actuator = ⟨.opened (some .fresh), .opened (some .fresh), true⟩
  process : ∃ i, s.processes i = ⟨some true, .opened (some .fresh), .opened (some .fresh), true⟩ ∧
    ∀ j, j ≠ i → s.processes j = ⟨some false, .before, .before, false⟩

private theorem Opening.Found.opened {descriptor : Option Inode} (found : (Opening.opened descriptor).Found) :
    descriptor = some .fresh := by
  rcases found with impossible | impossible | here
  · cases impossible
  · cases impossible
  · cases here; rfl

private theorem Opening.Found.waiting {inode : Inode} (found : (Opening.waiting inode).Found) : inode = .fresh := by
  rcases found with impossible | here | impossible
  · cases impossible
  · cases here; rfl
  · cases impossible

theorem State.Stuck.complete (stuck : s.Stuck) (exclusive : s.Exclusive) (meeting : s.Meeting) (timely : s.Timely)
    (plenty : s.descriptors ≠ 0) : s.Complete := by
  have main := stuck.main (timely.pid stuck.script) plenty
  obtain ⟨i, won⟩ : ∃ i, (s.processes i).storage = some true := by
    apply exclusive.owner
    apply exclusive.stored 0
    rcases stuck.process 0 with lost | ⟨won, _⟩
    · rw [lost]; exact Option.some_ne_none _
    · rw [won]; exact Option.some_ne_none _
  -- the recorder's end of migration.pipe is there for the reader
  have writer : s.files.registered .migration .fresh .writing = true := by
    have found := timely.found .recorder
    apply meeting.registered .recorder
    rcases stuck.recorder main with ⟨inode, waiting, _⟩ | ⟨descriptor, opened⟩
    · rw [waiting] at found ⊢
      exact Or.inl (congrArg _ found.waiting)
    · rw [show s.opening .recorder = .opened descriptor by simp only [opening, opened]] at found ⊢
      exact Or.inr (congrArg _ found.opened)
  have preload : s.opening (.preload i) = .opened (some .fresh) := by
    have found := timely.found (.preload i)
    rcases stuck.process i with lost | ⟨_, ⟨inode, waiting, alone⟩ | ⟨descriptor, _, opened, _⟩ | ⟨descriptor, _, opened⟩⟩
    · rw [lost] at won; cases won
    · rw [waiting] at found
      rw [found.waiting, writer] at alone
      cases alone
    · rw [opened] at found
      rw [opened, found.opened]
    · rw [show s.opening (.preload i) = .opened descriptor by simp only [opening, opened]] at found ⊢
      rw [found.opened]
  have reader : s.files.registered .migration .fresh .reading = true :=
    meeting.registered (.preload i) .fresh (Or.inr preload)
  have actuator : s.actuator = ⟨.opened (some .fresh), .opened (some .fresh), true⟩ := by
    rcases stuck.actuator main with ⟨inode, waiting, alone⟩ | ⟨inode, waiting⟩ | ⟨descriptor, descriptor', opened⟩
    · have found := timely.found .actuator
      rw [waiting] at found
      rw [found.waiting, reader] at alone
      cases alone
    · exact absurd waiting (meeting.instant .actuatorError inode rfl)
    · have found := timely.found .actuator
      have foundError := timely.found .actuatorError
      simp only [opening, opened] at found foundError
      rw [opened, found.opened, foundError.opened]
  have readerError : s.files.registered .migrationError .fresh .reading = true :=
    meeting.registered .actuatorError .fresh (Or.inr (by simp only [opening, actuator]))
  refine ⟨main, ?_, actuator, i, ?_, ?_⟩
  · have found := timely.found .recorder
    rcases stuck.recorder main with ⟨inode, waiting, alone⟩ | ⟨descriptor, opened⟩
    · rw [waiting] at found
      rw [found.waiting, reader] at alone
      cases alone
    · simp only [opening, opened] at found
      rw [opened, found.opened]
  · rcases stuck.process i with lost | ⟨_, ⟨inode, waiting, _⟩ | ⟨_, inode, _, waiting, alone⟩ | ⟨_, _, opened⟩⟩
    · rw [lost] at won; cases won
    · rw [preload] at waiting; cases waiting
    · have found := timely.found (.preloadError i)
      rw [waiting] at found
      rw [found.waiting, readerError] at alone
      cases alone
    · have found := timely.found (.preload i)
      have foundError := timely.found (.preloadError i)
      simp only [opening, opened] at found foundError
      rw [opened, found.opened, foundError.opened]
  · intro j apart
    rcases stuck.process j with lost | ⟨other, _⟩
    · obtain ⟨migration, migrationError, threadMbind⟩ := exclusive.idle j fun won => by cases lost.symm.trans won
      cases process : s.processes j with
      | mk storage opening openingError started =>
        simp only [process] at lost migration migrationError threadMbind
        rw [lost, migration, migrationError, threadMbind]
    · exact absurd (exclusive.once j i other won) apart

private def State.blocked (s : State n) (party : Party n) : Bool := !Runs.ends (fun _ => true) (s.step party)

end OnlineScheduler.Startup
