import Wca.Containers
import Wca.Allocations

/-!
# Allocation values of the cpu and cpuset controllers
-/

namespace Wca

open Py Host

/-- The argument of `BoxedNumeric`. -/
def numeric : RawValue → Except Exc Number
  | .num n => .ok n
  | .str _ => .error (.builtin
      (.AssertionError "should be of type (float, int) but was <class 'str'>"))
  | .rdt _ => .error (.builtin
      (.AssertionError "should be of type (float, int) but was <class 'wca.allocators.RDTAllocation'>"))

/-! ## Quota and shares -/

structure QuotaAllocationValue extends BoxedNumeric where
  cgroup : Cgroup
  subcgroups : List Cgroup
  deriving DecidableEq

namespace QuotaAllocationValue

def create (normalizedQuota : RawValue) (container : Container) : Except Exc QuotaAllocationValue := do
  let value ← numeric normalizedQuota
  pure {
    value := value
    minValue := .rat 0
    maxValue := .rat 1
    cgroup := container.cgroup
    subcgroups := container.subcgroups }

/-- The quota is set on the cgroup and taken off its subcgroups. -/
def performAllocations (self : QuotaAllocationValue) : EStateM Exc Host Unit := do
  onCgroups (self.cgroup.setQuota self.value)
  forM self.subcgroups fun subcgroup =>
    onCgroups (subcgroup.setQuota (.float (.rat QUOTA_NORMALIZED_MAX)))

end QuotaAllocationValue

structure SharesAllocationValue extends BoxedNumeric where
  cgroup : Cgroup
  deriving DecidableEq

namespace SharesAllocationValue

def create (normalizedShares : RawValue) (container : Container) :
    Except Exc SharesAllocationValue := do
  let value ← numeric normalizedShares
  pure { value := value, minValue := .rat 0, cgroup := container.cgroup }

def performAllocations (self : SharesAllocationValue) : EStateM Exc Host Unit :=
  onCgroups (self.cgroup.setShares self.value)

end SharesAllocationValue

/-! ## Cpusets -/

/-- The class of the value is told by its resource. -/
structure ListFormatBasedAllocationValue where
  value : String
  resource : CpusetResource
  cgroup : Cgroup
  subcgroups : List Cgroup
  minValue : ℤ := 0
  maxValue : ℤ
  deriving DecidableEq

namespace ListFormatBasedAllocationValue

def create (resource : CpusetResource) (maxValue : Platform → ℤ) (value : RawValue)
    (container : Container) : Except Exc ListFormatBasedAllocationValue :=
  match value with
  | .str value => .ok {
      value := value
      resource := resource
      cgroup := container.cgroup
      subcgroups := container.subcgroups
      maxValue := maxValue container.platform }
  | _ => .error (.builtin (.AssertionError ""))

/-- `==`: the decoded sets are equal. -/
def eq (self other : ListFormatBasedAllocationValue) : Except Exc Bool := do
  assert (self.resource = other.resource) ""
  let value ← decodeListformat self.value
  let otherValue ← decodeListformat other.value
  pure (value = otherValue)

def calculateChangeset (self current : ListFormatBasedAllocationValue) :
    Except Exc (ListFormatBasedAllocationValue × Option ListFormatBasedAllocationValue) := do
  let same ← self.eq current
  pure (if same then (current, none) else (self, some self))

def validate (self : ListFormatBasedAllocationValue) : Except Exc Unit :=
  match decodeListformat self.value with
  | .error e => invalid (.cannotDecodeListFormat self.value e)
  | .ok value =>
    let asSortedList := sorted value
    if self.value ≠ "" then
      match asSortedList.head?, asSortedList.getLast? with
      | some first, some last =>
        if first < self.minValue ∨ last > self.maxValue then
          invalid (.listNotInRange self.value self.minValue self.maxValue)
        else .ok ()
      | _, _ => .error (.builtin (.IndexError "list index out of range"))
    else .ok ()

/-- A cpuset passes when it can be decoded and, unless the text is empty, is not empty and within
the range. -/
theorem validate_ok_iff {v : ListFormatBasedAllocationValue} :
    v.validate = .ok () ↔ ∃ ids, decodeListformat v.value = .ok ids ∧
      (v.value ≠ "" → ids ≠ ∅ ∧ ∀ id ∈ ids, v.minValue ≤ id ∧ id ≤ v.maxValue) := by
  unfold validate
  cases hd : decodeListformat v.value with
  | error e => simp [invalid]
  | ok ids =>
    simp only [Except.ok.injEq, exists_eq_left']
    by_cases he : v.value = ""
    · simp [he]
    · simp only [ne_eq, he, not_false_eq_true, if_true, true_implies]
      split
      · rename_i first last hfirst hlast
        rw [← sorted_range_iff (s := ids) hfirst hlast]
        split
        · rename_i hout
          exact ⟨fun h => (nomatch h), fun h => absurd hout h.2⟩
        · rename_i hin
          refine ⟨fun _ => ⟨?_, hin⟩, fun _ => rfl⟩
          rintro rfl
          cases hfirst
      · rename_i hnone
        refine ⟨fun h => (nomatch h), fun h => ?_⟩
        cases hs : sorted ids with
        | nil => exact absurd (sorted_eq_nil_iff.mp hs) h.1
        | cons first l =>
          obtain ⟨last, hlast⟩ := Option.ne_none_iff_exists'.mp
            (mt List.getLast?_eq_none_iff.mp (List.cons_ne_nil first l))
          exact (hnone first last (by rw [hs]; rfl) (by rw [hs]; exact hlast)).elim

/-- `decode_listformat`, whose exception is not caught. -/
def decode (value : String) : Except Exc (Finset ℤ) := liftM (decodeListformat value)

/-- The set is written to the subcgroups if there are any, else to the cgroup. -/
def performAllocations (self : ListFormatBasedAllocationValue) : EStateM Exc Host Unit := do
  let intset ← decode self.value
  if self.subcgroups ≠ [] then
    forM self.subcgroups fun subcgroup => onCgroups (subcgroup.writeListformat self.resource intset)
  else onCgroups (self.cgroup.writeListformat self.resource intset)

end ListFormatBasedAllocationValue

/-- `CPUSetCPUSAllocationValue`: ids up to the number of cpus. -/
def CPUSetCPUSAllocationValue.create : RawValue → Container →
    Except Exc ListFormatBasedAllocationValue :=
  ListFormatBasedAllocationValue.create .CPUSET_CPUS fun platform => platform.cpus - 1

/-- `CPUSetMEMSAllocationValue`: ids up to the number of NUMA nodes with cpus. -/
def CPUSetMEMSAllocationValue.create : RawValue → Container →
    Except Exc ListFormatBasedAllocationValue :=
  ListFormatBasedAllocationValue.create .CPUSET_MEMS fun platform => platform.nodeCpus.len - 1

/-! ## Memory migration -/

structure CPUSetMemoryMigrateAllocationValue extends BoxedNumeric where
  cgroup : Cgroup
  deriving DecidableEq

namespace CPUSetMemoryMigrateAllocationValue

def create (value : RawValue) (container : Container) :
    Except Exc CPUSetMemoryMigrateAllocationValue := do
  let value ← numeric value
  pure { value := value, minValue := .rat 0, maxValue := .rat 1, cgroup := container.cgroup }

def performAllocations (self : CPUSetMemoryMigrateAllocationValue) : EStateM Exc Host Unit :=
  onCgroups (self.cgroup.setMemoryMigrate self.value)

end CPUSetMemoryMigrateAllocationValue

/-- One call of `migrate_pages`. -/
structure PageMigration where
  pid : Pid
  maxNode : ℤ
  oldNodes : ℤ
  newNode : ℤ
  deriving DecidableEq

/-- The number as the exponent of a mask: only a natural number leaves the mask an `int`. -/
def exponent? : Number → Option Nat
  | .bool b => some b.toNat
  | .int n => if 0 ≤ n then some n.toNat else none
  | .float _ => none

/-- The calls of `_migrate_pages`; a call that fails is only logged. -/
def migratePages (taskPids : List Pid) (toNode : Number) (numberOfNodes : Nat) :
    Except Exc (List PageMigration) :=
  match exponent? toNode with
  | some n =>
    let maskAllNodes : ℤ := 2 ^ numberOfNodes - 1
    let maskToNode : ℤ := 2 ^ n
    .ok (taskPids.map fun pid => ⟨pid, numberOfNodes + 1, maskAllNodes - maskToNode, maskToNode⟩)
  | none =>
    if taskPids = [] then .ok []
    else .error (.builtin (.TypeError "an integer is required"))

structure MigratePagesAllocationValue extends BoxedNumeric where
  container : Container
  platform : Platform
  deriving DecidableEq

namespace MigratePagesAllocationValue

def create (value : RawValue) (container : Container) : Except Exc MigratePagesAllocationValue := do
  let value ← numeric value
  pure {
    value := value
    minValue := .rat 0
    maxValue := .rat (container.platform.numaNodes - 1)
    container := container
    platform := container.platform }

def validate (self : MigratePagesAllocationValue) : Except Exc Unit := do
  self.toBoxedNumeric.validate
  doIf (self.platform.swapEnabled = true) (invalid .swapEnabled)

def performAllocations (self : MigratePagesAllocationValue) (r : Resctrl) :
    Except Exc (List PageMigration) :=
  migratePages (self.container.getPids false r) self.value self.platform.numaNodes

end MigratePagesAllocationValue

end Wca
