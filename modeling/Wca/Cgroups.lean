import Wca.Resctrl

/-!
# Control groups of the cpu and cpuset controllers

`Cgroups` holds the control files of the cgroups that exist. The kernel keeps the number it is
given and refuses a text that is no integer; the list format files keep the text.
-/

namespace Wca

open Py

def MIN_SHARES : ℤ := 2

def QUOTA_NOT_SET : ℤ := -1

def QUOTA_MINIMUM_VALUE : ℤ := 1000

def QUOTA_NORMALIZED_MAX : ℚ := 1

/-- The control files that hold a number. -/
inductive CgroupResource where
  | CPU_QUOTA
  | CPU_PERIOD
  | CPU_SHARES
  | CPUSET_MEMORY_MIGRATE
  deriving DecidableEq

/-- The control files in the list format. -/
inductive CpusetResource where
  | CPUSET_CPUS
  | CPUSET_MEMS
  deriving DecidableEq

/-- The directory of one cgroup. -/
structure CgroupFiles where
  cpuQuota : ℤ := -1
  cpuPeriod : ℤ := 100000
  cpuShares : ℤ := 1024
  memoryMigrate : ℤ := 0
  cpusetCpus : String := ""
  cpusetMems : String := ""
  deriving DecidableEq

namespace CgroupFiles

def number (f : CgroupFiles) : CgroupResource → ℤ
  | .CPU_QUOTA => f.cpuQuota
  | .CPU_PERIOD => f.cpuPeriod
  | .CPU_SHARES => f.cpuShares
  | .CPUSET_MEMORY_MIGRATE => f.memoryMigrate

def setNumber (f : CgroupFiles) (n : ℤ) : CgroupResource → CgroupFiles
  | .CPU_QUOTA => { f with cpuQuota := n }
  | .CPU_PERIOD => { f with cpuPeriod := n }
  | .CPU_SHARES => { f with cpuShares := n }
  | .CPUSET_MEMORY_MIGRATE => { f with memoryMigrate := n }

def text (f : CgroupFiles) : CpusetResource → String
  | .CPUSET_CPUS => f.cpusetCpus
  | .CPUSET_MEMS => f.cpusetMems

def setText (f : CgroupFiles) (s : String) : CpusetResource → CgroupFiles
  | .CPUSET_CPUS => { f with cpusetCpus := s }
  | .CPUSET_MEMS => { f with cpusetMems := s }

end CgroupFiles

abbrev Cgroups := Dict String CgroupFiles

/-- A cgroup, with what its allocations are normalized by. -/
structure Cgroup where
  cgroupPath : String
  allocationConfiguration : AllocationConfiguration
  platform : Platform
  deriving DecidableEq

namespace Cgroup

variable (self : Cgroup)

/-! ## Reading -/

/-- The control files, whose absence is a missing allocation. -/
def readRaw (c : Cgroups) : Except Exc CgroupFiles :=
  match c.get? self.cgroupPath with
  | none => .error (.MissingAllocationException self.cgroupPath)
  | some f => .ok f

def read (resource : CgroupResource) (c : Cgroups) : Except Exc ℤ := do
  let f ← readRaw self c
  pure (f.number resource)

def readListformat (resource : CpusetResource) (c : Cgroups) : Except Exc String := do
  let f ← readRaw self c
  let listformat ← decodeListformat (Str.strip (f.text resource))
  pure (encodeListformat listformat)

def getNormalizedShares (c : Cgroups) : Except Exc Flt := do
  let shares ← read self .CPU_SHARES c
  Flt.truediv (.rat shares) self.allocationConfiguration.cpuSharesUnit.val

def getNormalizedQuota (c : Cgroups) : Except Exc Flt := do
  let currentQuota ← read self .CPU_QUOTA c
  let currentPeriod ← read self .CPU_PERIOD c
  if currentQuota = QUOTA_NOT_SET then pure (.rat QUOTA_NORMALIZED_MAX)
  else
    let perPeriod ← Flt.truediv (.rat currentQuota) (.rat currentPeriod)
    Flt.truediv perPeriod (.rat self.platform.cpus)

def getAllocations (c : Cgroups) : Except Exc TaskAllocations := do
  let quota ← getNormalizedQuota self c
  let shares ← getNormalizedShares self c
  let cpus ← readListformat self .CPUSET_CPUS c
  let mems ← readListformat self .CPUSET_MEMS c
  let memoryMigrate ← read self .CPUSET_MEMORY_MIGRATE c
  pure (Dict.ofItems [
    (.QUOTA, .num (.float quota)),
    (.SHARES, .num (.float shares)),
    (.CPUSET_CPUS, .str cpus),
    (.CPUSET_MEMS, .str mems),
    (.CPUSET_MEMORY_MIGRATE, .num (.int memoryMigrate))])

/-- The pids in the cgroup, without those of threads if they are not asked for. -/
def getPids (includeThreads : Bool) (r : Resctrl) : List Pid :=
  (r.procs.items.filter fun p =>
    p.2.cgroup = self.cgroupPath ∧ (includeThreads ∨ p.2.leader)).map Prod.fst

/-! ## Writing -/

/-- Write a number to a control file. -/
def write (resource : CgroupResource) (value : Number) : EStateM Exc Cgroups Unit := do
  let c ← get
  match c.get? self.cgroupPath, value with
  | none, _ => throw (.builtin (.FileNotFoundError self.cgroupPath))
  | some f, .int n => set (c.set self.cgroupPath (f.setNumber n resource))
  | some _, _ => throw (.builtin (.OSError "Invalid argument"))

/-- `int(x)`. -/
def int (x : Number) : Except Exc ℤ := liftM x.toInt

def setShares (normalizedShares : Number) : EStateM Exc Cgroups Unit := do
  let shares ← int (normalizedShares.mul self.allocationConfiguration.cpuSharesUnit)
  write self .CPU_SHARES (.int (if shares < MIN_SHARES then MIN_SHARES else shares))

/-- The quota to write: none at all from 1 on, and never less than the minimum. -/
def denormalizeQuota (normalizedQuota : Number) : Except Exc ℤ :=
  if normalizedQuota.val.ge (.rat QUOTA_NORMALIZED_MAX) then pure QUOTA_NOT_SET
  else do
    let quota ← int ((normalizedQuota.mul self.allocationConfiguration.cpuQuotaPeriod).mul
      (.int self.platform.cpus))
    pure (if quota < QUOTA_MINIMUM_VALUE then QUOTA_MINIMUM_VALUE else quota)

def setQuota (normalizedQuota : Number) : EStateM Exc Cgroups Unit := do
  let c ← get
  let currentPeriod ← read self .CPU_PERIOD c
  doIf (Flt.rat currentPeriod ≠ self.allocationConfiguration.cpuQuotaPeriod.val)
    (write self .CPU_PERIOD self.allocationConfiguration.cpuQuotaPeriod)
  let quota ← denormalizeQuota self normalizedQuota
  write self .CPU_QUOTA (.int quota)

def writeListformat (resource : CpusetResource) (intset : Finset ℤ) : EStateM Exc Cgroups Unit := do
  let c ← get
  match c.get? self.cgroupPath with
  | none => throw (.builtin (.FileNotFoundError self.cgroupPath))
  | some f => set (c.set self.cgroupPath (f.setText (encodeListformat intset) resource))

def setMemoryMigrate (value : Number) : EStateM Exc Cgroups Unit :=
  write self .CPUSET_MEMORY_MIGRATE value

end Cgroup

end Wca
