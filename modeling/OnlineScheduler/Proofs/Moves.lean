import OnlineScheduler.Startup
import OnlineScheduler.General.Runs

/-! What each party of the start can do in a step, and what becomes of the
pipes that it opens. -/

namespace OnlineScheduler.Startup

variable {n : Nat} {s s' : State n} {party : Party n}

def Opening.Holds (inode : Inode) (opening : Opening) : Prop :=
  opening = .waiting inode ∨ opening = .opened (some inode)

/-- What a step of an `open` can do, with the descriptors before and after. -/
inductive Opens (descriptors : Nat) (pipe : Pipe) (side : Side) (nonblock : Bool) (files : Files) :
    Opening → Opening → Files → Nat → Prop where
  | missing (absent : descriptors = 0 ∨ files.paths pipe = none) :
      Opens descriptors pipe side nonblock files .before (.opened none) files descriptors
  | enter {left : Nat} (inode : Inode) (taken : descriptors = left + 1) (found : files.paths pipe = some inode)
      (blocking : nonblock = false) (alone : files.registered pipe inode side.other = false) :
      Opens descriptors pipe side nonblock files .before (.waiting inode) (files.register pipe inode side) left
  | meet {left : Nat} (inode : Inode) (taken : descriptors = left + 1) (found : files.paths pipe = some inode)
      (met : nonblock = true ∨ files.registered pipe inode side.other = true) :
      Opens descriptors pipe side nonblock files .before (.opened (some inode)) (files.register pipe inode side) left
  | wake (inode : Inode) (met : files.registered pipe inode side.other = true) :
      Opens descriptors pipe side nonblock files (.waiting inode) (.opened (some inode)) files descriptors

theorem Files.registered_register {files : Files} {pipe pipe' : Pipe} {inode inode' : Inode} {side side' : Side} :
    (files.register pipe inode side).registered pipe' inode' side' = true ↔
      files.registered pipe' inode' side' = true ∨ pipe' = pipe ∧ inode' = inode ∧ side' = side := by
  simp only [register, Bool.or_eq_true, decide_eq_true_eq]

private theorem Files.other_register (files : Files) (pipe : Pipe) (inode : Inode) (side : Side) :
    (files.register pipe inode side).registered pipe inode side.other = files.registered pipe inode side.other := by
  cases side with
  | reading => simp [register, Side.other]
  | writing => simp [register, Side.other]

theorem openFifo_opens {descriptors left : Nat} {pipe : Pipe} {side : Side} {nonblock : Bool} {files files' : Files}
    {opening opening' : Opening}
    (opened : files.openFifo descriptors pipe side nonblock opening = .ok (opening', files', left)) :
    Opens descriptors pipe side nonblock files opening opening' files' left := by
  cases opening with
  | before =>
    simp only [Files.openFifo, Files.other_register] at opened
    split at opened
    next inode found =>
      split at opened
      next met => cases opened; exact .meet inode rfl found (by simpa using met)
      next alone =>
        cases opened
        have apart : nonblock = false ∧ files.registered pipe inode side.other = false := by simpa using alone
        exact .enter inode rfl found apart.1 apart.2
    next absent =>
      cases opened
      refine .missing ?_
      by_contra both
      rw [not_or] at both
      obtain ⟨inode, found⟩ := Option.ne_none_iff_exists'.mp both.2
      obtain ⟨left, taken⟩ := Nat.exists_eq_add_one_of_ne_zero both.1
      exact absent left inode taken found
  | waiting inode =>
    simp only [Files.openFifo] at opened
    split at opened
    next met => cases opened; exact .wake inode met
    next => cases opened
  | opened => cases opened

/-- An `open` that cannot go on waits for its other end. -/
theorem openFifo_stuck {descriptors : Nat} {pipe : Pipe} {side : Side} {nonblock : Bool} {files : Files}
    {opening : Opening} (stuck : ∀ result, files.openFifo descriptors pipe side nonblock opening ≠ .ok result) :
    (∃ inode, opening = .waiting inode ∧ files.registered pipe inode side.other = false) ∨
      ∃ descriptor, opening = .opened descriptor := by
  cases opening with
  | before =>
    simp only [Files.openFifo] at stuck
    split at stuck
    next inode found =>
      split at stuck
      next => exact absurd rfl (stuck _)
      next => exact absurd rfl (stuck _)
    next => exact absurd rfl (stuck _)
  | waiting inode =>
    simp only [Files.openFifo] at stuck
    split at stuck
    next => exact absurd rfl (stuck _)
    next alone => exact Or.inl ⟨inode, rfl, by simpa using alone⟩
  | opened descriptor => exact Or.inr ⟨descriptor, rfl⟩

/-- What each party can do in a step. -/
inductive Step (s : State n) : Party n → State n → Prop where
  | removePipes (here : s.main = .removePipes) :
      Step s .main { s with main := .makeMigration, files := { s.files with paths := fun _ => none } }
  | makeMigration (here : s.main = .makeMigration) :
      Step s .main { s with main := .makeMigrationError, files := s.files.mkfifo .migration }
  | makeMigrationError (here : s.main = .makeMigrationError) :
      Step s .main { s with main := .createThreads, files := s.files.mkfifo .migrationError }
  | createThreads (here : s.main = .createThreads) : Step s .main { s with main := .readPid }
  | readEmpty (here : s.main = .readPid) (pid : s.files.pid = .empty) {descriptors : Nat}
      (taken : s.descriptors = descriptors + 1) : Step s .main { s with descriptors }
  | readPid (here : s.main = .readPid) (pid : s.files.pid = .written) {descriptors : Nat}
      (taken : s.descriptors = descriptors + 1) : Step s .main { s with main := .joinThreads, descriptors }
  | launch (here : s.script = .launch) : Step s .script { s with script := .createPid }
  | createPid (here : s.script = .createPid) :
      Step s .script { s with script := .writePid, files := { s.files with pid := .empty } }
  | writePid (here : s.script = .writePid) :
      Step s .script { s with script := .waiting, files := { s.files with pid := .written } }
  | interceptOpens (created : s.created = true) {migration : Opening} {files : Files}
      {descriptors : Nat} (opens :
        Opens s.descriptors .migration .writing false s.files s.interceptMmap.migration migration files descriptors) :
      Step s .interceptMmap { s with interceptMmap := { s.interceptMmap with migration }, files, descriptors }
  | interceptRuns {descriptor : Option Inode} (opened : s.interceptMmap.migration = .opened descriptor)
      (hasAppPid : s.hasAppPid = true) (idle : s.interceptMmap.running = false) :
      Step s .interceptMmap { s with interceptMmap := { s.interceptMmap with running := true } }
  | actuatorOpens (created : s.created = true) {migration : Opening} {files : Files}
      {descriptors : Nat} (opens :
        Opens s.descriptors .migration .writing false s.files s.actuator.migration migration files descriptors) :
      Step s .actuator { s with actuator := { s.actuator with migration }, files, descriptors }
  | actuatorOpensError {descriptor : Option Inode} (opened : s.actuator.migration = .opened descriptor)
      {migrationError : Opening} {files : Files} {descriptors : Nat} (opens : Opens s.descriptors .migrationError
        .reading true s.files s.actuator.migrationError migrationError files descriptors) :
      Step s .actuator { s with actuator := { s.actuator with migrationError }, files, descriptors }
  | actuatorRuns {descriptor descriptor' : Option Inode} (opened : s.actuator.migration = .opened descriptor)
      (openedError : s.actuator.migrationError = .opened descriptor') (hasAppPid : s.hasAppPid = true)
      (idle : s.actuator.running = false) : Step s .actuator { s with actuator := { s.actuator with running := true } }
  | storage (i : Fin (n + 1)) (untried : (s.processes i).storage = none) (launched : s.script ≠ .launch) :
      Step s (.process i)
        { s.setProcess i { s.processes i with storage := some (!s.files.storage) } with
          files := { s.files with storage := true } }
  | processOpens (i : Fin (n + 1)) (won : (s.processes i).storage = some true) {migration : Opening} {files : Files}
      {left : Nat} (opens : Opens 1 .migration .reading false s.files (s.processes i).migration migration files left) :
      Step s (.process i) { s.setProcess i { s.processes i with migration } with files }
  | processOpensError (i : Fin (n + 1)) (won : (s.processes i).storage = some true) {descriptor : Option Inode}
      (opened : (s.processes i).migration = .opened descriptor) {migrationError : Opening} {files : Files}
      {left : Nat} (opens :
        Opens 1 .migrationError .writing false s.files (s.processes i).migrationError migrationError files left) :
      Step s (.process i) { s.setProcess i { s.processes i with migrationError } with files }
  | createMbind (i : Fin (n + 1)) (won : (s.processes i).storage = some true) {descriptor descriptor' : Option Inode}
      (opened : (s.processes i).migration = .opened descriptor)
      (openedError : (s.processes i).migrationError = .opened descriptor')
      (idle : (s.processes i).threadMbind = false) :
      Step s (.process i) (s.setProcess i { s.processes i with threadMbind := true })

private theorem step_main (ok : s.stepMain = .ok s') : Step s .main s' := by
  unfold State.stepMain at ok
  split at ok
  next here => cases ok; exact .removePipes here
  next here => cases ok; exact .makeMigration here
  next here => cases ok; exact .makeMigrationError here
  next here => cases ok; exact .createThreads here
  next here =>
    split at ok
    next pid taken => cases ok; exact .readEmpty here pid taken
    next pid taken => cases ok; exact .readPid here pid taken
    next => cases ok
  next => cases ok

private theorem step_script (ok : s.stepScript = .ok s') : Step s .script s' := by
  unfold State.stepScript at ok
  split at ok
  next here => cases ok; exact .launch here
  next here => cases ok; exact .createPid here
  next here => cases ok; exact .writePid here
  next => cases ok

private theorem step_interceptMmap (ok : s.stepInterceptMmap = .ok s') : Step s .interceptMmap s' := by
  unfold State.stepInterceptMmap at ok
  dsimp only at ok
  split at ok
  next opened =>
    split at ok
    next idle => cases ok; exact .interceptRuns opened idle.1 idle.2
    next => cases ok
  next =>
    split at ok
    next created =>
      obtain ⟨⟨migration, files, descriptors⟩, opens, done⟩ := Runs.bind_ok.mp ok
      cases done
      exact .interceptOpens created (openFifo_opens opens)
    next => cases ok

private theorem step_actuator (ok : s.stepActuator = .ok s') : Step s .actuator s' := by
  unfold State.stepActuator at ok
  dsimp only at ok
  split at ok
  next opened openedError =>
    split at ok
    next idle => cases ok; exact .actuatorRuns opened openedError idle.1 idle.2
    next => cases ok
  next opened _ =>
    obtain ⟨⟨migrationError, files, descriptors⟩, opens, done⟩ := Runs.bind_ok.mp ok
    cases done
    exact .actuatorOpensError opened (openFifo_opens opens)
  next =>
    split at ok
    next created =>
      obtain ⟨⟨migration, files, descriptors⟩, opens, done⟩ := Runs.bind_ok.mp ok
      cases done
      exact .actuatorOpens created (openFifo_opens opens)
    next => cases ok

private theorem step_process {i : Fin (n + 1)} (ok : s.stepProcess i = .ok s') : Step s (.process i) s' := by
  unfold State.stepProcess at ok
  dsimp only at ok
  split at ok
  next untried =>
    split at ok
    next => cases ok
    next launched => cases ok; exact .storage i untried launched
  next => cases ok
  next won opened openedError =>
    split at ok
    next => cases ok
    next idle => cases ok; exact .createMbind i won opened openedError (by simpa using idle)
  next won opened _ =>
    obtain ⟨⟨migrationError, files, descriptors⟩, opens, done⟩ := Runs.bind_ok.mp ok
    cases done
    exact .processOpensError i won opened (openFifo_opens opens)
  next won _ _ =>
    obtain ⟨⟨migration, files, descriptors⟩, opens, done⟩ := Runs.bind_ok.mp ok
    cases done
    exact .processOpens i won (openFifo_opens opens)

theorem step_steps (ok : s.step party = .ok s') : Step s party s' := by
  cases party with
  | main => exact step_main ok
  | script => exact step_script ok
  | interceptMmap => exact step_interceptMmap ok
  | actuator => exact step_actuator ok
  | process i => exact step_process ok

section
variable {descriptors remaining : Nat} {pipe : Pipe} {side : Side} {nonblock : Bool} {files files' : Files}
  {opening opening' : Opening}

theorem Opens.kept (opens : Opens descriptors pipe side nonblock files opening opening' files' remaining) :
    files'.paths = files.paths ∧ files'.storage = files.storage ∧ files'.pid = files.pid := by
  cases opens with
  | missing => exact ⟨rfl, rfl, rfl⟩
  | enter => exact ⟨rfl, rfl, rfl⟩
  | meet => exact ⟨rfl, rfl, rfl⟩
  | wake => exact ⟨rfl, rfl, rfl⟩

theorem Opens.stays (opens : Opens descriptors pipe side nonblock files opening opening' files' remaining)
    {pipe' : Pipe} {inode : Inode} {side' : Side} (registered : files.registered pipe' inode side' = true) :
    files'.registered pipe' inode side' = true := by
  cases opens with
  | missing => exact registered
  | enter => exact Files.registered_register.mpr (Or.inl registered)
  | meet => exact Files.registered_register.mpr (Or.inl registered)
  | wake => exact registered

theorem Opens.holds (opens : Opens descriptors pipe side nonblock files opening opening' files' remaining) {inode : Inode}
    (held : opening.Holds inode) : opening'.Holds inode := by
  cases opens with
  | wake inode' =>
    rcases held with here | impossible
    · cases here; exact Or.inr rfl
    · cases impossible
  | _ => rcases held with impossible | impossible <;> cases impossible

/-- An end is registered by whom the `open` is. -/
theorem Opens.registers (opens : Opens descriptors pipe side nonblock files opening opening' files' remaining)
    {pipe' : Pipe} {inode : Inode} {side' : Side} (registered : files'.registered pipe' inode side' = true) :
    files.registered pipe' inode side' = true ∨ pipe' = pipe ∧ side' = side ∧ opening'.Holds inode := by
  cases opens with
  | missing => exact Or.inl registered
  | enter =>
    rcases Files.registered_register.mp registered with earlier | ⟨rfl, rfl, rfl⟩
    · exact Or.inl earlier
    · exact Or.inr ⟨rfl, rfl, Or.inl rfl⟩
  | meet =>
    rcases Files.registered_register.mp registered with earlier | ⟨rfl, rfl, rfl⟩
    · exact Or.inl earlier
    · exact Or.inr ⟨rfl, rfl, Or.inr rfl⟩
  | wake => exact Or.inl registered

theorem Opens.registered (opens : Opens descriptors pipe side nonblock files opening opening' files' remaining)
    {inode : Inode} (earlier : opening.Holds inode → files.registered pipe inode side = true) (held : opening'.Holds inode) :
    files'.registered pipe inode side = true := by
  cases opens with
  | missing => rcases held with impossible | impossible <;> cases impossible
  | enter =>
    rcases held with here | impossible
    · cases here; exact Files.registered_register.mpr (Or.inr ⟨rfl, rfl, rfl⟩)
    · cases impossible
  | meet =>
    rcases held with impossible | here
    · cases impossible
    · cases here; exact Files.registered_register.mpr (Or.inr ⟨rfl, rfl, rfl⟩)
  | wake =>
    rcases held with impossible | here
    · cases impossible
    · cases here; exact earlier (Or.inl rfl)

theorem Opens.met (opens : Opens descriptors pipe side false files opening opening' files' remaining) {inode : Inode}
    (opened : opening' = .opened (some inode)) : files'.registered pipe inode side.other = true := by
  cases opens with
  | missing => cases opened
  | enter => cases opened
  | meet inode' taken found met =>
    cases opened
    rw [Files.other_register]
    exact met.resolve_left nofun
  | wake inode' met => cases opened; exact met

theorem Opens.instant (opens : Opens descriptors pipe side true files opening opening' files' remaining) {inode : Inode} :
    opening' ≠ .waiting inode := by
  cases opens with
  | enter _ _ _ blocking => cases blocking
  | _ => nofun

def Opening.rank : Opening → Nat
  | .before => 2
  | .waiting _ => 1
  | .opened _ => 0

theorem Opens.fewer (opens : Opens descriptors pipe side nonblock files opening opening' files' remaining) :
    remaining ≤ descriptors := by
  cases opens with
  | missing => exact Nat.le_refl _
  | enter _ taken => exact taken ▸ Nat.le_succ _
  | meet _ taken => exact taken ▸ Nat.le_succ _
  | wake => exact Nat.le_refl _

theorem Opens.rank (opens : Opens descriptors pipe side nonblock files opening opening' files' remaining) :
    opening'.rank < opening.rank := by
  cases opens with
  | missing => exact Nat.two_pos
  | enter => exact Nat.one_lt_two
  | meet => exact Nat.two_pos
  | wake => exact Nat.one_pos

end

/-- The calls of `open` for a pipe. -/
inductive Call (n : Nat) where
  | recorder
  | actuator
  | actuatorError
  | preload (i : Fin (n + 1))
  | preloadError (i : Fin (n + 1))
deriving DecidableEq

def Call.pipe : Call n → Pipe
  | .recorder | .actuator | .preload _ => .migration
  | .actuatorError | .preloadError _ => .migrationError

def Call.side : Call n → Side
  | .recorder | .actuator | .preloadError _ => .writing
  | .actuatorError | .preload _ => .reading

def Call.nonblock : Call n → Bool
  | .actuatorError => true
  | _ => false

def State.opening (s : State n) : Call n → Opening
  | .recorder => s.interceptMmap.migration
  | .actuator => s.actuator.migration
  | .actuatorError => s.actuator.migrationError
  | .preload i => (s.processes i).migration
  | .preloadError i => (s.processes i).migrationError

/-- When a party makes a call. -/
def State.Due (s : State n) : Call n → Prop
  | .recorder | .actuator => s.created = true
  | .actuatorError => ∃ descriptor, s.actuator.migration = .opened descriptor
  | .preload i => (s.processes i).storage = some true
  | .preloadError i =>
    (s.processes i).storage = some true ∧ ∃ descriptor, (s.processes i).migration = .opened descriptor

theorem State.opening_setProcess (s : State n) (i : Fin (n + 1)) (process : Process) :
    (s.setProcess i process).opening = Function.update (Function.update s.opening (.preload i) process.migration)
      (.preloadError i) process.migrationError := by
  funext call
  cases call with
  | preload j =>
    by_cases same : j = i
    · subst same; simp [opening, setProcess]
    · simp [opening, setProcess, same]
  | preloadError j =>
    by_cases same : j = i
    · subst same; simp [opening, setProcess]
    · simp [opening, setProcess, same]
  | _ => simp [opening, setProcess]

/-- A step leaves all calls as they are or moves one on. -/
theorem Step.openings (step : Step s party s') :
    s'.opening = s.opening ∧ s'.files.registered = s.files.registered ∨
      ∃ call opening' descriptors remaining, s.Due call ∧ (descriptors = 0 → s.descriptors = 0) ∧
        Opens descriptors call.pipe call.side call.nonblock s.files (s.opening call) opening' s'.files remaining ∧
        s'.opening = Function.update s.opening call opening' := by
  cases step with
  | makeMigration =>
    refine Or.inl ⟨rfl, ?_⟩
    simp only [Files.mkfifo]
    split
    next => rfl
    next => rfl
  | makeMigrationError =>
    refine Or.inl ⟨rfl, ?_⟩
    simp only [Files.mkfifo]
    split
    next => rfl
    next => rfl
  | interceptOpens created opens =>
    refine Or.inr ⟨.recorder, _, _, _, created, id, opens, ?_⟩
    funext call
    cases call <;> simp [State.opening]
  | actuatorOpens created opens =>
    refine Or.inr ⟨.actuator, _, _, _, created, id, opens, ?_⟩
    funext call
    cases call <;> simp [State.opening]
  | actuatorOpensError opened opens =>
    refine Or.inr ⟨.actuatorError, _, _, _, ⟨_, opened⟩, id, opens, ?_⟩
    funext call
    cases call <;> simp [State.opening]
  | storage i untried launched =>
    refine Or.inl ⟨?_, rfl⟩
    change (s.setProcess i _).opening = _
    rw [State.opening_setProcess]
    exact (Function.update_eq_self (Call.preloadError i) _).trans (Function.update_eq_self (Call.preload i) _)
  | processOpens i won opens =>
    refine Or.inr ⟨.preload i, _, _, _, won, fun none => absurd none Nat.one_ne_zero, opens, ?_⟩
    change (s.setProcess i _).opening = _
    rw [State.opening_setProcess]
    exact Function.update_eq_self_iff.mpr rfl
  | processOpensError i won opened opens =>
    refine Or.inr ⟨.preloadError i, _, _, _, ⟨won, _, opened⟩, fun none => absurd none Nat.one_ne_zero, opens, ?_⟩
    change (s.setProcess i _).opening = _
    rw [State.opening_setProcess]
    exact congrArg (Function.update · _ _) (Function.update_eq_self (Call.preload i) _)
  | createMbind i won opened openedError idle =>
    refine Or.inl ⟨?_, rfl⟩
    rw [State.opening_setProcess]
    exact (Function.update_eq_self (Call.preloadError i) _).trans (Function.update_eq_self (Call.preload i) _)
  | _ => exact Or.inl ⟨rfl, rfl⟩

/-- A step leaves the processes as they are, lets one ask for the shared memory,
or moves on the one that made it. -/
theorem Step.processes (step : Step s party s') :
    s'.processes = s.processes ∧ s'.files.storage = s.files.storage ∨
      (∃ i, (s.processes i).storage = none ∧ s.script ≠ .launch ∧ s'.files.storage = true ∧
        s'.processes = Function.update s.processes i { s.processes i with storage := some (!s.files.storage) }) ∨
      ∃ i process, (s.processes i).storage = some true ∧ process.storage = some true ∧
        s'.processes = Function.update s.processes i process ∧ s'.files.storage = s.files.storage := by
  cases step with
  | makeMigration =>
    refine Or.inl ⟨rfl, ?_⟩
    simp only [Files.mkfifo]
    split
    next => rfl
    next => rfl
  | makeMigrationError =>
    refine Or.inl ⟨rfl, ?_⟩
    simp only [Files.mkfifo]
    split
    next => rfl
    next => rfl
  | interceptOpens created opens => exact Or.inl ⟨rfl, opens.kept.2.1⟩
  | actuatorOpens created opens => exact Or.inl ⟨rfl, opens.kept.2.1⟩
  | actuatorOpensError opened opens => exact Or.inl ⟨rfl, opens.kept.2.1⟩
  | storage i untried launched => exact Or.inr (Or.inl ⟨i, untried, launched, rfl, rfl⟩)
  | @processOpens i won migration _ _ opens =>
    exact Or.inr (Or.inr ⟨i, { s.processes i with migration }, won, won, rfl, opens.kept.2.1⟩)
  | @processOpensError i won _ opened migrationError _ _ opens =>
    exact Or.inr (Or.inr ⟨i, { s.processes i with migrationError }, won, won, rfl, opens.kept.2.1⟩)
  | createMbind i won => exact Or.inr (Or.inr ⟨i, { s.processes i with threadMbind := true }, won, won, rfl, rfl⟩)
  | _ => exact Or.inl ⟨rfl, rfl⟩

theorem Step.descriptors (step : Step s party s') : s'.descriptors ≤ s.descriptors := by
  cases step with
  | readEmpty here pid taken => exact taken ▸ Nat.le_succ _
  | readPid here pid taken => exact taken ▸ Nat.le_succ _
  | interceptOpens created opens => exact opens.fewer
  | actuatorOpens created opens => exact opens.fewer
  | actuatorOpensError opened opens => exact opens.fewer
  | _ => exact Nat.le_refl _

end OnlineScheduler.Startup
