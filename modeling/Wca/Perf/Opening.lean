import Wca.Os.Table
import Wca.Perf.Attributes

/-!
# Opening the counters of a cgroup

A constructor opens the directory of the cgroup and then, for every event, asks which cpus are online
and opens the event on each of them; the first event of a cpu leads its group. The kernel is a table of
open files; what it answers to each call is free (`Environment`).

The cpus are asked for again for every event. Each group has just the events whose own list had the cpu
(`init_live`), and a constructor that raises leaves the directory open (`init_raises`).
-/

namespace Wca.Perf

open Py Os

/-! ## The kernel -/

/-- An event that was opened. Where `none` stands, the call has -1. -/
structure PerfEvent where
  attr : PerfEventAttr
  pid : Option Fd
  cpu : Cpu
  groupFd : Option Fd
  flags : ℕ
  deriving DecidableEq

inductive OpenFile where
  | directory (path : String)
  | event (e : PerfEvent)
  | other
  deriving DecidableEq

instance : Hanging OpenFile where
  on
    | .event e => e.groupFd
    | _ => none
  off
    | .event e => .event { e with groupFd := none }
    | file => file
  on_off file := by cases file <;> rfl

/-- The files that the process has open, the events that count, and how many calls were made. -/
structure Kernel where
  table : Table OpenFile
  counting : List Fd
  calls : ℕ

/-- What the kernel answers to each call: the descriptor that it takes, the number of the error when it
fails, or the text of a file. -/
structure Environment where
  fresh : List Fd → Fd
  fresh_not_mem : ∀ fds, fresh fds ∉ fds
  openDirectory : ℕ → Option ℕ
  online : ℕ → Except ℕ String
  perfEventOpen : ℕ → Option ℕ
  ioctlFails : ℕ → Bool
  strerror : ℕ → String

namespace Kernel

def tick (k : Kernel) : Kernel := { k with calls := k.calls + 1 }

/-- The kernel after `os.close`, or after the `close` of a file object. -/
def close (k : Kernel) (fd : Fd) : Kernel :=
  { k with table := k.table.close fd, counting := k.counting.filter (· ≠ fd) }

def closeAll (k : Kernel) (fds : List Fd) : Kernel := fds.foldl close k

end Kernel

def enoent : ℕ := 2

def ebadf : ℕ := 9

def einval : ℕ := 22

section Calls

variable (env : Environment)

/-- `os.open(path, os.O_RDONLY)` of a directory. -/
def osOpen (path : String) : EStateM OpenExc Kernel (Except ℕ Fd) := do
  modify Kernel.tick
  let k ← get
  match env.openDirectory k.calls with
  | some errno => return .error errno
  | none =>
    let fd := env.fresh k.table.files.keys
    set { k with table := k.table.openAt fd (.directory path) (env.fresh_not_mem _) fun _ h => nomatch h }
    return .ok fd

/-- `_perf_event_open` -/
def perfEventOpen (attr : PerfEventAttr) (pid : Option Fd) (cpu : Cpu) (groupFd : Option Fd)
    (flags : ℕ) : EStateM OpenExc Kernel (Except ℕ Fd) := do
  modify Kernel.tick
  let k ← get
  match env.perfEventOpen k.calls with
  | some errno => return .error errno
  | none =>
    if h : ∀ l ∈ groupFd, l ∈ k.table.files.keys then
      let fd := env.fresh k.table.files.keys
      set { k with
        table := k.table.openAt fd (.event { attr, pid, cpu, groupFd, flags }) (env.fresh_not_mem _) h }
      return .ok fd
    else return .error ebadf

def perfEventIocReset : ℕ := 0x2403

def perfEventIocEnable : ℕ := 0x2400

/-- `LIBC.ioctl(fd, request, 0) < 0` -/
def ioctlFails (fd : Fd) (request : ℕ) : EStateM OpenExc Kernel Bool := do
  modify Kernel.tick
  let k ← get
  if env.ioctlFails k.calls then return true
  else
    if request = perfEventIocEnable then set { k with counting := k.counting ++ [fd] }
    return false

/-! ## Helpers of the constructor -/

/-- One turn of `_parse_online_cpus_string`. -/
def parseOnlineCpus (nr : String) : Except Exn (List Cpu) :=
  if '-' ∉ nr.toList then do
    let cpu ← Str.int 10 nr
    return [cpu]
  else
    match Str.split '-' nr with
    | [start, stop] => do
      let start ← Str.int 10 start
      let stop ← Str.int 10 stop
      return (List.range (stop + 1 - start).toNat).map fun (i : ℕ) => start + i
    | _ => .error (.ValueError "too many values to unpack (expected 2)")

/-- `_parse_online_cpus_string` -/
def parseOnlineCpusString (rawString : String) : Except Exn (List Cpu) := do
  let parsedCpusInfo ← (Str.split ',' rawString).mapM parseOnlineCpus
  return parsedCpusInfo.flatten

/-- `_get_online_cpus` -/
def getOnlineCpus : EStateM OpenExc Kernel (List Cpu) := do
  modify Kernel.tick
  let k ← get
  match env.online k.calls with
  | .error errno => throw (.OSError (env.strerror errno))
  | .ok text => Py.liftExcept (Except.mapError OpenExc.builtin (parseOnlineCpusString text))

/-- `os.path.join` of two paths. -/
def osPathJoin (path cgroup : String) : String :=
  if Str.startsWith "/" cgroup then cgroup else path ++ "/" ++ cgroup

/-- `_get_cgroup_fd` -/
def getCgroupFd (cgroup : String) : EStateM OpenExc Kernel Fd := do
  match ← osOpen env (osPathJoin "/sys/fs/cgroup/perf_event" cgroup) with
  | .ok fd => return fd
  | .error errno =>
    if errno = enoent then
      throw (.MissingMeasurementException
        ("cannot initialize perf for cgroup " ++ Str.repr cgroup ++ " - directory not found"))
    else throw (.OSError (env.strerror errno))

/-- `_create_file_from_fd` -/
def createFileFromFd : Except ℕ Fd → Except OpenExc Fd
  | .ok pfd => .ok pfd
  | .error errno =>
    let msg := "Invalid perf event file descriptor: " ++ toString errno ++ ", " ++ env.strerror errno ++ "."
    if errno = einval then
      .error (.UnableToOpenPerfEvents (msg ++
        " For cgroup based perf counters it may indicate there is " ++
        "no enough hardware counters for measure all metrics!" ++
        "If traceback shows problem in perf_uncore " ++
        "it could be problem with PERF_FORMAT_GROUP in" ++
        "perf_event_attr structure for perf_event_open syscall." ++
        "Older kernel cannot handle with extended format group." ++
        "Kernel cannot be 3.10.0-862.el7.x86_64 or lower."))
    else .error (.UnableToOpenPerfEvents msg)

/-! ## The constructor -/

/-- The descriptors that an instance of `PerfCounters` keeps. -/
structure PerfFiles where
  cgroupFd : Fd
  eventFiles : List Fd := []
  groupEventLeaderFiles : Dict Cpu Fd := ∅

/-- The last lines of `_open_for_cpu`: the first file of a cpu is kept as its leader. -/
def PerfFiles.add (self : PerfFiles) (cpu : Cpu) (perfEventFile : Fd) : PerfFiles :=
  if (self.groupEventLeaderFiles.get? cpu).isNone then
    { self with groupEventLeaderFiles := self.groupEventLeaderFiles.set cpu perfEventFile }
  else { self with eventFiles := self.eventFiles ++ [perfEventFile] }

/-- An instance and the kernel. -/
structure Opening where
  files : PerfFiles
  kernel : Kernel

def onKernel {α : Type} : EStateM OpenExc Kernel α → EStateM OpenExc Opening α :=
  zoom Opening.kernel fun kernel s => { s with kernel }

def perfFlagPidCgroup : ℕ := 1 <<< 2

def perfFlagFdCloexec : ℕ := 1 <<< 3

/-- `_open_for_cpu`. There is always an `attr`. -/
def openEventForCpu (cpuCodename : CPUCodeName) (eventName : MetricName) (cpu : Cpu) :
    EStateM OpenExc Opening Unit := do
  let self := (← get).files
  let groupFile := self.groupEventLeaderFiles.get? cpu
  let isGroupLeader := groupFile.isNone
  let pid := if isGroupLeader then some self.cgroupFd else none
  let flags := if isGroupLeader then perfFlagPidCgroup ||| perfFlagFdCloexec else perfFlagFdCloexec
  let attr ← Py.liftExcept (createEventAttributes eventName isGroupLeader cpuCodename)
  let pfd ← onKernel (perfEventOpen env attr pid cpu groupFile flags)
  let perfEventFile ← Py.liftExcept (createFileFromFd env pfd)
  modify fun s => { s with files := s.files.add cpu perfEventFile }

/-- One turn of `_reset_and_enable_group_event_leaders`. -/
def resetAndEnable (groupEventLeaderFile : Fd) : EStateM OpenExc Kernel Unit := do
  if ← ioctlFails env groupEventLeaderFile perfEventIocReset then
    throw (.OSError "Cannot reset perf counts")
  if ← ioctlFails env groupEventLeaderFile perfEventIocEnable then
    throw (.OSError "Cannot enable perf counts")

/-- One turn of `_open`. -/
def openEvent (cpuCodename : CPUCodeName) (eventName : MetricName) : EStateM OpenExc Opening Unit := do
  let onlineCpus ← onKernel (getOnlineCpus env)
  forM onlineCpus (openEventForCpu env cpuCodename eventName)

/-- `_open` -/
def openCounters (cpuCodename : CPUCodeName) (eventNames : List MetricName) :
    EStateM OpenExc Opening Unit := do
  forM eventNames (openEvent env cpuCodename)
  let self := (← get).files
  onKernel (forM self.groupEventLeaderFiles.values (resetAndEnable env))

/-- The file objects of an instance that nothing refers to any more are closed; the descriptor of the
directory is an integer. -/
def PerfFiles.finalize (self : PerfFiles) (k : Kernel) : Kernel :=
  (k.closeAll self.groupEventLeaderFiles.values).closeAll self.eventFiles

/-- `PerfCounters.cleanup` -/
def PerfFiles.cleanup (self : PerfFiles) (k : Kernel) : Kernel :=
  ((k.closeAll self.groupEventLeaderFiles.values).closeAll self.eventFiles).close self.cgroupFd

/-- The constructor from the descriptor of the directory on. An instance that could not be made is
finalized. -/
def openFrom (cpuCodename : CPUCodeName) (eventNames : List MetricName) (cgroupFd : Fd) :
    EStateM OpenExc Kernel PerfFiles := fun k =>
  match (openCounters env cpuCodename eventNames).run { files := { cgroupFd }, kernel := k } with
  | .ok _ s => .ok s.files s.kernel
  | .error e s => .error e (s.files.finalize s.kernel)

/-- `PerfCounters.__init__` -/
def initCounters (cgroupPath : String) (eventNames : List MetricName) (cpuCodename : CPUCodeName) :
    EStateM OpenExc Kernel PerfFiles := do
  if Str.startsWith "/" cgroupPath then
    let cgroupFd ← getCgroupFd env (.ofList (cgroupPath.toList.drop 1))
    openFrom env cpuCodename eventNames cgroupFd
  else throw .AssertionError

end Calls

end Wca.Perf
