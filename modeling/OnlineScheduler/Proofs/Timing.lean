import OnlineScheduler.Proofs.Meetings
import Mathlib.Algebra.BigOperators.Fin
import Mathlib.Algebra.Order.BigOperators.Group.Finset

/-! How long the start takes, and when it is in time: the script has to let
`main` make the first pipe before it starts the application. -/

namespace OnlineScheduler.Startup

variable {n : Nat} {left : Pipe → Bool} {descriptors : Nat} {s s' : State n} {party : Party n} {parties : List (Party n)}

def MainPc.toCome : MainPc → Nat
  | .removePipes => 5
  | .makeMigration => 4
  | .makeMigrationError => 3
  | .createThreads => 2
  | .readPid => 1
  | .joinThreads => 0

def ScriptPc.toCome : ScriptPc → Nat
  | .launch => 3
  | .createPid => 2
  | .writePid => 1
  | .waiting => 0

def pending : Bool → Nat
  | true => 0
  | false => 1

def Process.rank (process : Process) : Nat :=
  match process.storage with
  | none => 6
  | some false => 0
  | some true => process.migration.rank + process.migrationError.rank + pending process.threadMbind

/-- The steps that are left at most. Every round of `main` with an empty `pid.txt`
costs a descriptor. -/
def State.rank (s : State n) : Nat :=
  s.main.toCome + s.descriptors + s.script.toCome + (s.interceptMmap.migration.rank + pending s.interceptMmap.running) +
    (s.actuator.migration.rank + s.actuator.migrationError.rank + pending s.actuator.running) +
    ∑ i, (s.processes i).rank

private theorem Process.rank_start (process : Process) (migration : process.migration = .before)
    (migrationError : process.migrationError = .before) (threadMbind : process.threadMbind = false) (won : Bool) :
    { process with storage := some won }.rank < 6 := by
  cases won with
  | false => exact Nat.succ_pos 5
  | true => simp only [rank, migration, migrationError, threadMbind, Opening.rank, pending]; decide

private theorem State.rank_setProcess (s : State n) {i : Fin (n + 1)} {process : Process}
    (less : process.rank < (s.processes i).rank) :
    ∑ j, (Function.update s.processes i process j).rank < ∑ j, (s.processes j).rank := by
  apply Finset.sum_lt_sum
  · intro j _
    by_cases same : j = i
    · subst same; rw [Function.update_self]; exact less.le
    · rw [Function.update_of_ne same]
  · exact ⟨i, Finset.mem_univ i, by rwa [Function.update_self]⟩

theorem Step.rank (step : Step s party s') (exclusive : s.Exclusive) : s'.rank < s.rank := by
  cases step with
  | removePipes here => simp only [State.rank, here, MainPc.toCome]; omega
  | makeMigration here => simp only [State.rank, here, MainPc.toCome]; omega
  | makeMigrationError here => simp only [State.rank, here, MainPc.toCome]; omega
  | createThreads here => simp only [State.rank, here, MainPc.toCome]; omega
  | readEmpty here pid taken => simp only [State.rank, taken]; omega
  | readPid here pid taken => simp only [State.rank, here, taken, MainPc.toCome]; omega
  | launch here => simp only [State.rank, here, ScriptPc.toCome]; omega
  | createPid here => simp only [State.rank, here, ScriptPc.toCome]; omega
  | writePid here => simp only [State.rank, here, ScriptPc.toCome]; omega
  | interceptOpens created opens =>
    have less := opens.rank
    have fewer := opens.fewer
    simp only [State.rank]
    omega
  | interceptRuns opened hasAppPid idle => simp only [State.rank, idle, pending]; omega
  | actuatorOpens created opens =>
    have less := opens.rank
    have fewer := opens.fewer
    simp only [State.rank]
    omega
  | actuatorOpensError opened opens =>
    have less := opens.rank
    have fewer := opens.fewer
    simp only [State.rank]
    omega
  | actuatorRuns opened openedError hasAppPid idle => simp only [State.rank, idle, pending]; omega
  | storage i untried launched =>
    obtain ⟨migration, migrationError, threadMbind⟩ := exclusive.idle i (by rw [untried]; nofun)
    apply Nat.add_lt_add_left
    apply s.rank_setProcess
    have least := Process.rank_start (s.processes i) migration migrationError threadMbind (!s.files.storage)
    simpa only [Process.rank, untried] using least
  | processOpens i won opens =>
    have less := opens.rank
    apply Nat.add_lt_add_left
    apply s.rank_setProcess
    simp only [Process.rank, won]
    omega
  | processOpensError i won opened opens =>
    have less := opens.rank
    apply Nat.add_lt_add_left
    apply s.rank_setProcess
    simp only [Process.rank, won]
    omega
  | createMbind i won opened openedError idle =>
    apply Nat.add_lt_add_left
    apply s.rank_setProcess
    simp only [Process.rank, won, idle, pending]
    exact Nat.lt_succ_self _

/-- The pipes that are there once `main` has come this far. -/
def MainPc.made : MainPc → Pipe → Option Inode
  | .removePipes, _ | .makeMigration, _ | .makeMigrationError, .migrationError => none
  | _, _ => some .fresh

def Opening.Found (opening : Opening) : Prop := opening = .before ∨ opening.Holds .fresh

/-- What holds when the script starts the application after `main` has made
`migration.pipe`. -/
structure State.Timely (s : State n) : Prop where
  paths : s.main ≠ .removePipes → s.files.paths = s.main.made
  launched : s.script ≠ .launch → s.main.toCome ≤ 3
  asked : s.script = .launch → ∀ i, (s.processes i).storage = none
  pid : s.script = .waiting → s.files.pid = .written
  created : ∀ call : Call n, call.nonblock = true ∨ call.side = .writing ∧ call.pipe = .migration →
    s.created = false → s.opening call = .before
  found : ∀ call, (s.opening call).Found

theorem Opens.found {descriptors remaining : Nat} {pipe : Pipe} {side : Side} {nonblock : Bool} {files files' : Files}
    {opening opening' : Opening} (opens : Opens descriptors pipe side nonblock files opening opening' files' remaining)
    (found : opening.Found) (plenty : descriptors ≠ 0) (path : files.paths pipe = some .fresh) : opening'.Found := by
  cases opens with
  | missing absent => cases (absent.resolve_left plenty).symm.trans path
  | enter inode _ here => cases here.symm.trans path; exact Or.inr (Or.inl rfl)
  | meet inode _ here => cases here.symm.trans path; exact Or.inr (Or.inr rfl)
  | wake inode =>
    rcases found with impossible | impossible | impossible
    · cases impossible
    · cases impossible; exact Or.inr (Or.inr rfl)
    · cases impossible

private theorem State.made_created (created : s.created = true) :
    s.main ≠ .removePipes ∧ s.main.made = fun _ => some .fresh := by
  simp only [State.created, decide_eq_true_eq] at created
  rcases created with here | here
  · rw [here]; exact ⟨nofun, rfl⟩
  · rw [here]; exact ⟨nofun, rfl⟩

/-- A call that is due finds the pipe that this run has made. -/
theorem State.Timely.path (timely : s.Timely) (meeting : s.Meeting) {call : Call n} (due : s.Due call) :
    s.files.paths call.pipe = some .fresh := by
  have threads (created : s.created = true) (pipe : Pipe) : s.files.paths pipe = some .fresh := by
    obtain ⟨past, made⟩ := State.made_created created
    rw [timely.paths past, made]
  have touched {call : Call n} (blocks : call.nonblock = true ∨ call.side = .writing ∧ call.pipe = .migration)
      (moved : s.opening call ≠ .before) : s.created = true := by
    by_contra idle
    exact moved (timely.created call blocks (by simpa using idle))
  cases call with
  | recorder => exact threads due _
  | actuator => exact threads due _
  | actuatorError =>
    obtain ⟨descriptor, opened⟩ := due
    exact threads (@touched .actuator (Or.inr ⟨rfl, rfl⟩) (by simp [State.opening, opened])) _
  | preload i =>
    have early : s.main.toCome ≤ 3 := by
      apply timely.launched
      intro waiting
      exact Option.some_ne_none _ ((due : (s.processes i).storage = some true).symm.trans (timely.asked waiting i))
    have past : s.main ≠ .removePipes := by
      intro here
      rw [here] at early
      exact absurd early (by decide)
    rw [timely.paths past]
    cases here : s.main with
    | removePipes => exact absurd here past
    | makeMigration => rw [here] at early; exact absurd early (by decide)
    | _ => rfl
  | preloadError i =>
    obtain ⟨_, descriptor, opened⟩ := due
    have first : s.opening (.preload i) = .opened (some .fresh) := by
      rcases timely.found (.preload i) with impossible | impossible | here
      · cases impossible.symm.trans opened
      · cases impossible.symm.trans opened
      · exact here
    have met := meeting.met (.preload i) .fresh rfl first
    obtain ⟨writer, pipe, side, holds⟩ := meeting.held _ _ _ met
    refine threads (touched (Or.inr ⟨side, pipe⟩) ?_) _
    intro idle
    rw [idle] at holds
    rcases holds with impossible | impossible <;> cases impossible

private theorem Files.mkfifo_absent {files : Files} {pipe : Pipe} (absent : files.paths pipe = none) :
    (files.mkfifo pipe).paths = Function.update files.paths pipe (some .fresh) := by
  simp only [mkfifo, absent]

theorem Step.main (step : Step s party s') :
    (party ≠ .main ∨ s.main = .readPid) ∧ s'.main = s.main ∧ s'.files.paths = s.files.paths ∨
      party = .main ∧ s.main.toCome = s'.main.toCome + 1 ∧
        ((s.main ≠ .removePipes → s.files.paths = s.main.made) → s'.files.paths = s'.main.made) := by
  cases step with
  | removePipes here => exact Or.inr ⟨rfl, by rw [here]; rfl, fun _ => rfl⟩
  | makeMigration here =>
    refine Or.inr ⟨rfl, by rw [here]; rfl, fun paths => ?_⟩
    have made := paths (by rw [here]; nofun)
    rw [here] at made
    rw [Files.mkfifo_absent (by rw [made]; rfl), made]
    funext pipe
    cases pipe <;> rfl
  | makeMigrationError here =>
    refine Or.inr ⟨rfl, by rw [here]; rfl, fun paths => ?_⟩
    have made := paths (by rw [here]; nofun)
    rw [here] at made
    rw [Files.mkfifo_absent (by rw [made]; rfl), made]
    funext pipe
    cases pipe <;> rfl
  | createThreads here =>
    refine Or.inr ⟨rfl, by rw [here]; rfl, fun paths => ?_⟩
    have made := paths (by rw [here]; nofun)
    rw [here] at made
    exact made
  | readPid here =>
    refine Or.inr ⟨rfl, by rw [here]; rfl, fun paths => ?_⟩
    have made := paths (by rw [here]; nofun)
    rw [here] at made
    exact made
  | readEmpty here => exact Or.inl ⟨Or.inr here, rfl, rfl⟩
  | interceptOpens created opens => exact Or.inl ⟨Or.inl nofun, rfl, opens.kept.1⟩
  | actuatorOpens created opens => exact Or.inl ⟨Or.inl nofun, rfl, opens.kept.1⟩
  | actuatorOpensError opened opens => exact Or.inl ⟨Or.inl nofun, rfl, opens.kept.1⟩
  | processOpens i won opens => exact Or.inl ⟨Or.inl nofun, rfl, opens.kept.1⟩
  | processOpensError i won opened opens => exact Or.inl ⟨Or.inl nofun, rfl, opens.kept.1⟩
  | _ => exact Or.inl ⟨Or.inl nofun, rfl, rfl⟩

private theorem Files.mkfifo_pid (files : Files) (pipe : Pipe) : (files.mkfifo pipe).pid = files.pid := by
  simp only [mkfifo]
  split
  next => rfl
  next => rfl

theorem Step.script (step : Step s party s') :
    party ≠ .script ∧ s'.script = s.script ∧ s'.files.pid = s.files.pid ∨
      party = .script ∧ s'.script ≠ .launch ∧ (s'.script = .waiting → s'.files.pid = .written) := by
  cases step with
  | makeMigration here => exact Or.inl ⟨nofun, rfl, s.files.mkfifo_pid _⟩
  | makeMigrationError here => exact Or.inl ⟨nofun, rfl, s.files.mkfifo_pid _⟩
  | launch here => exact Or.inr ⟨rfl, nofun, nofun⟩
  | createPid here => exact Or.inr ⟨rfl, nofun, nofun⟩
  | writePid here => exact Or.inr ⟨rfl, nofun, fun _ => rfl⟩
  | interceptOpens created opens => exact Or.inl ⟨nofun, rfl, opens.kept.2.2⟩
  | actuatorOpens created opens => exact Or.inl ⟨nofun, rfl, opens.kept.2.2⟩
  | actuatorOpensError opened opens => exact Or.inl ⟨nofun, rfl, opens.kept.2.2⟩
  | processOpens i won opens => exact Or.inl ⟨nofun, rfl, opens.kept.2.2⟩
  | processOpensError i won opened opens => exact Or.inl ⟨nofun, rfl, opens.kept.2.2⟩
  | _ => exact Or.inl ⟨nofun, rfl, rfl⟩

theorem created_iff : s.created = true ↔ s.main.toCome ≤ 1 := by
  simp only [State.created, decide_eq_true_eq]
  cases s.main <;> simp [MainPc.toCome]

theorem Step.timely (step : Step s party s') (meeting : s.Meeting) (timely : s.Timely) (plenty : s.descriptors ≠ 0)
    (late : party = .script → s.main.toCome ≤ 3) : s'.Timely := by
  have forward : s'.main.toCome ≤ s.main.toCome := by
    rcases step.main with ⟨_, same, _⟩ | ⟨_, moved, _⟩
    · rw [same]
    · omega
  have idle (still : s'.created = false) : s.created = false := by
    by_contra created
    have early := created_iff.mp (by simpa using created)
    rw [created_iff.mpr (forward.trans early)] at still
    cases still
  have waits (launch : s'.script = .launch) : s.script = .launch := by
    rcases step.script with ⟨_, same, _⟩ | ⟨_, past, _⟩
    · exact same ▸ launch
    · exact absurd launch past
  constructor
  case paths =>
    rcases step.main with ⟨_, same, kept⟩ | ⟨_, _, made⟩
    · rw [same, kept]; exact timely.paths
    · exact fun _ => made timely.paths
  case launched =>
    intro launched
    apply forward.trans
    rcases step.script with ⟨_, same, _⟩ | ⟨here, _⟩
    · exact timely.launched (same ▸ launched)
    · exact late here
  case asked =>
    intro launch i
    have untried := timely.asked (waits launch)
    rcases step.processes with ⟨same, _⟩ | ⟨_, _, launched, _⟩ | ⟨j, _, won, _⟩
    · rw [same]; exact untried i
    · exact absurd (waits launch) launched
    · rw [untried j] at won; cases won
  case pid =>
    rcases step.script with ⟨_, same, kept⟩ | ⟨_, _, written⟩
    · rw [same, kept]; exact timely.pid
    · exact written
  case created =>
    intro call blocks still
    have before := timely.created call blocks (idle still)
    rcases step.openings with ⟨same, _⟩ | ⟨moved, opening', _, _, due, _, opens, set⟩
    · rw [same]; exact before
    · rw [set]
      by_cases same : call = moved
      · subst same
        have created : s.created = true := by
          cases call with
          | recorder => exact due
          | actuator => exact due
          | actuatorError =>
            obtain ⟨descriptor, opened⟩ := due
            have untouched := timely.created .actuator (Or.inr ⟨rfl, rfl⟩) (idle still)
            cases untouched.symm.trans opened
          | preload i => rcases blocks with impossible | ⟨impossible, _⟩ <;> cases impossible
          | preloadError i => rcases blocks with impossible | ⟨_, impossible⟩ <;> cases impossible
        rw [idle still] at created
        cases created
      · rw [Function.update_of_ne same]
        exact before
  case found =>
    intro call
    rcases step.openings with ⟨same, _⟩ | ⟨moved, opening', _, _, due, spent, opens, set⟩
    · rw [same]; exact timely.found call
    · rw [set]
      by_cases same : call = moved
      · subst same
        rw [Function.update_self]
        exact opens.found (timely.found call) (mt spent plenty) (timely.path meeting due)
      · rw [Function.update_of_ne same]
        exact timely.found call

end OnlineScheduler.Startup
