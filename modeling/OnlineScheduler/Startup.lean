import Mathlib.Logic.Function.Basic

/-! How the scheduler and the application meet. `main` makes the pipes, every
`open` of a pipe waits for the other end unless it is told not to, the shared
memory lets one process start the mbind thread, and `pid.txt` tells the
scheduler whom to watch. `main` opens that file over and over and never closes
it. The monitor opens no pipe and waits for nobody. -/

namespace OnlineScheduler.Startup

inductive Pipe where
  | migration
  | migrationError
deriving DecidableEq

inductive Side where
  | reading
  | writing
deriving DecidableEq

def Side.other : Side → Side
  | .reading => .writing
  | .writing => .reading

/-- A pipe that an earlier run left behind, or the one that this run makes. -/
inductive Inode where
  | stale
  | fresh
deriving DecidableEq

/-- An `open` of a pipe. One that waits has registered its end; `opened none`
is the answer -1. -/
inductive Opening where
  | before
  | waiting (inode : Inode)
  | opened (descriptor : Option Inode)
deriving DecidableEq

inductive Blocked where
  | blocked

/-- `pid.txt`, which the script makes first and writes to afterwards. -/
inductive PidFile where
  | absent
  | empty
  | written
deriving DecidableEq

/-- `registered` tells whether a process holds that end of the pipe. -/
structure Files where
  paths : Pipe → Option Inode
  registered : Pipe → Inode → Side → Bool
  storage : Bool
  pid : PidFile

namespace Files

def mkfifo (pipe : Pipe) (files : Files) : Files :=
  match files.paths pipe with
  | some _ => files
  | none => { files with paths := Function.update files.paths pipe (some .fresh) }

def register (pipe : Pipe) (inode : Inode) (side : Side) (files : Files) : Files :=
  { files with
    registered := fun pipe' inode' side' =>
      files.registered pipe' inode' side' || decide (pipe' = pipe ∧ inode' = inode ∧ side' = side) }

/-- An `open`, in the two steps that it can take: finding the pipe and
registering, and going on once the other end is there. The descriptor is taken
before the wait, and -1 is the answer without one. -/
def openFifo (descriptors : Nat) (pipe : Pipe) (side : Side) (nonblock : Bool) (files : Files) :
    Opening → Except Blocked (Opening × Files × Nat)
  | .before =>
    match descriptors, files.paths pipe with
    | left + 1, some inode =>
      let files := files.register pipe inode side
      if nonblock || files.registered pipe inode side.other then .ok (.opened (some inode), files, left)
      else .ok (.waiting inode, files, left)
    | _, _ => .ok (.opened none, files, descriptors)
  | .waiting inode =>
    if files.registered pipe inode side.other then .ok (.opened (some inode), files, descriptors)
    else .error .blocked
  | .opened _ => .error .blocked

end Files

/-- Where `main` of the scheduler stands. -/
inductive MainPc where
  | removePipes
  | makeMigration
  | makeMigrationError
  | createThreads
  | readPid
  | joinThreads
deriving DecidableEq

/-- Where the script stands that starts both programs. -/
inductive ScriptPc where
  | launch
  | createPid
  | writePid
  | waiting
deriving DecidableEq

structure InterceptMmap where
  migration : Opening
  running : Bool

structure Actuator where
  migration : Opening
  migrationError : Opening
  running : Bool

/-- A process with the preloaded library. `storage` is whether its `shm_open`
made the shared memory. -/
structure Process where
  storage : Option Bool
  migration : Opening
  migrationError : Opening
  threadMbind : Bool

/-- The application and the `n` processes that it starts. `descriptors` are
those that the monitor leaves of the scheduler's. -/
structure State (n : Nat) where
  files : Files
  descriptors : Nat
  main : MainPc
  script : ScriptPc
  interceptMmap : InterceptMmap
  actuator : Actuator
  processes : Fin (n + 1) → Process

inductive Party (n : Nat) where
  | main
  | script
  | interceptMmap
  | actuator
  | process (i : Fin (n + 1))
deriving DecidableEq

namespace State

variable {n : Nat}

/-- `delete_shared_memory` has run; pipes may be left from before. -/
def start (n : Nat) (left : Pipe → Bool) (descriptors : Nat) : State n where
  files := ⟨fun pipe => if left pipe then some .stale else none, fun _ _ _ => false, false, .absent⟩
  descriptors
  main := .removePipes
  script := .launch
  interceptMmap := ⟨.before, false⟩
  actuator := ⟨.before, .before, false⟩
  processes := fun _ => ⟨none, .before, .before, false⟩

/-- `start_threads_open_pipes`, the creation of the threads and the loop that
waits for `pid.txt`. A round of it counts as a step when `fopen` succeeds. -/
def stepMain (s : State n) : Except Blocked (State n) :=
  match s.main with
  | .removePipes => .ok { s with main := .makeMigration, files := { s.files with paths := fun _ => none } }
  | .makeMigration => .ok { s with main := .makeMigrationError, files := s.files.mkfifo .migration }
  | .makeMigrationError => .ok { s with main := .createThreads, files := s.files.mkfifo .migrationError }
  | .createThreads => .ok { s with main := .readPid }
  | .readPid =>
    match s.files.pid, s.descriptors with
    | .empty, descriptors + 1 => .ok { s with descriptors }
    | .written, descriptors + 1 => .ok { s with main := .joinThreads, descriptors }
    | _, _ => .error .blocked
  | .joinThreads => .error .blocked

def stepScript (s : State n) : Except Blocked (State n) :=
  match s.script with
  | .launch => .ok { s with script := .createPid }
  | .createPid => .ok { s with script := .writePid, files := { s.files with pid := .empty } }
  | .writePid => .ok { s with script := .waiting, files := { s.files with pid := .written } }
  | .waiting => .error .blocked

/-- Whether `main` has created the threads. -/
def created (s : State n) : Bool := s.main = .readPid ∨ s.main = .joinThreads

/-- `g_app_pid` is set once `main` has read the file. -/
def hasAppPid (s : State n) : Bool := s.main = .joinThreads

/-- `recorder_open_pipes` and the wait for the application's pid. -/
def stepInterceptMmap (s : State n) : Except Blocked (State n) :=
  let thread := s.interceptMmap
  match thread.migration with
  | .opened _ =>
    if s.hasAppPid ∧ thread.running = false then .ok { s with interceptMmap := { thread with running := true } }
    else .error .blocked
  | opening =>
    if s.created then do
      let (migration, files, descriptors) ← s.files.openFifo s.descriptors .migration .writing false opening
      return { s with interceptMmap := { thread with migration }, files, descriptors }
    else .error .blocked

/-- `actuator_open_pipes` and the wait for the application's pid. -/
def stepActuator (s : State n) : Except Blocked (State n) :=
  let thread := s.actuator
  match thread.migration, thread.migrationError with
  | .opened _, .opened _ =>
    if s.hasAppPid ∧ thread.running = false then .ok { s with actuator := { thread with running := true } }
    else .error .blocked
  | .opened _, opening => do
    let (migrationError, files, descriptors) ← s.files.openFifo s.descriptors .migrationError .reading true opening
    return { s with actuator := { thread with migrationError }, files, descriptors }
  | opening, _ =>
    if s.created then do
      let (migration, files, descriptors) ← s.files.openFifo s.descriptors .migration .writing false opening
      return { s with actuator := { thread with migration }, files, descriptors }
    else .error .blocked

def setProcess (s : State n) (i : Fin (n + 1)) (process : Process) : State n :=
  { s with processes := Function.update s.processes i process }

/-- `init_lib` with `preload_open_pipes`. The application has descriptors left. -/
def stepProcess (s : State n) (i : Fin (n + 1)) : Except Blocked (State n) :=
  let process := s.processes i
  match process.storage, process.migration, process.migrationError with
  | none, _, _ =>
    if s.script = .launch then .error .blocked
    else
      .ok { s.setProcess i { process with storage := some (!s.files.storage) } with
        files := { s.files with storage := true } }
  | some false, _, _ => .error .blocked
  | some true, .opened _, .opened _ =>
    if process.threadMbind then .error .blocked else .ok (s.setProcess i { process with threadMbind := true })
  | some true, .opened _, opening => do
    let (migrationError, files, _) ← s.files.openFifo 1 .migrationError .writing false opening
    return { s.setProcess i { process with migrationError } with files }
  | some true, opening, _ => do
    let (migration, files, _) ← s.files.openFifo 1 .migration .reading false opening
    return { s.setProcess i { process with migration } with files }

def step (s : State n) : Party n → Except Blocked (State n)
  | .main => s.stepMain
  | .script => s.stepScript
  | .interceptMmap => s.stepInterceptMmap
  | .actuator => s.stepActuator
  | .process i => s.stepProcess i

def run (s : State n) (parties : List (Party n)) : Except Blocked (State n) := parties.foldlM step s

end State
end OnlineScheduler.Startup
