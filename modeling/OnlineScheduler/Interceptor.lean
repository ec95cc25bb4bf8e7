import OnlineScheduler.Recorder
import OnlineScheduler.General.Buffers

/-! The interceptor: it pairs `mmap` entries with exits and tells the recorder
which mappings appear and disappear. Samples arrive in the order in which the
ring buffers are drained. -/

namespace OnlineScheduler

structure MmapEnterArgs where
  addr : BitVec 64
  len : BitVec 64
  prot : BitVec 64
  flags : BitVec 64
  fd : BitVec 64
  off : BitVec 64
deriving DecidableEq

structure Thread where
  pid : BitVec 32
  tid : BitVec 32
deriving DecidableEq

inductive Syscall where
  | enterMmap (args : MmapEnterArgs)
  | exitMmap (ret : BitVec 64)
  | enterMunmap (addr len : BitVec 64)
deriving DecidableEq

structure Sample where
  thread : Thread
  data : Syscall
deriving DecidableEq

/-- What `mmap_enter_args` points to: the arguments, inside the sample that
carries them. The sample is taken to be in the ring still, though
`perf_mmap__consume` lets the kernel write over it. -/
structure EnterSample where
  thread : Thread
  args : MmapEnterArgs
deriving DecidableEq

inductive RecorderCall where
  | insertObject (pid : BitVec 32) (ret len : BitVec 64)
  | deallocateObject (pid : BitVec 32) (addr len : BitVec 64)
deriving DecidableEq

namespace Interceptor

/-- The tests of the `sys_exit_mmap` branch on the entry it looks at. -/
def Recorded (args : MmapEnterArgs) : Prop :=
  args.addr = 0 ∧ args.flags ≠ 0x4022 ∧ 1000000 < args.len

instance (args : MmapEnterArgs) : Decidable (Recorded args) :=
  inferInstanceAs (Decidable (_ ∧ _ ∧ _))

/-- The body of `thread_intercept_mmap` for one sample: the new value of
`mmap_enter_args` and the call made to the recorder. Before the first entry
the pointer is not initialized. -/
def handleSample (appPid : BitVec 32) (enter : Option EnterSample) (sample : Sample) :
    Except Fault (Option EnterSample × Option RecorderCall) :=
  match sample.data with
  | .enterMmap args => .ok (some ⟨sample.thread, args⟩, none)
  | .exitMmap ret =>
    match enter with
    | none => .error .uninitialized
    | some seen =>
      if sample.thread.pid = appPid ∧ Recorded seen.args then
        .ok (enter, some (.insertObject sample.thread.pid ret seen.args.len))
      else .ok (enter, none)
  | .enterMunmap addr len =>
    if sample.thread.pid = appPid then
      match enter with
      | none => .error .uninitialized
      | some seen =>
        if 1000000 < seen.args.len then
          .ok (enter, some (.deallocateObject sample.thread.pid addr len))
        else .ok (enter, none)
    else .ok (enter, none)

def performCall (p : Platform) (call : RecorderCall) (t : Table) : Except Fault Table :=
  match call with
  | .insertObject pid ret len => Recorder.insertObject p pid ret len t
  | .deallocateObject pid addr len => .ok (Recorder.deallocateObject pid addr len t)

structure State where
  enter : Option EnterSample
  table : Table

def step (p : Platform) (appPid : BitVec 32) (s : State) (sample : Sample) : Except Fault State := do
  let (enter, call) ← handleSample appPid s.enter sample
  match call with
  | none => return { s with enter }
  | some call =>
    let table ← performCall p call s.table
    return { enter, table }

/-- `perf_evlist__for_each_mmap`: the ring buffer of each CPU is emptied before
the next is read. -/
def pass (p : Platform) (appPid : BitVec 32) (cpus : Nat) (recorded : List (Nat × Sample)) (s : State) :
    Except Fault State :=
  (Buffers.drain cpus recorded).foldlM (step p appPid) s

end Interceptor
end OnlineScheduler
