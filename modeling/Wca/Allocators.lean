import Wca.Platforms
import Wca.Py.Exec

/-!
# Allocations as an allocator returns them

The raw values of an allocation, its configuration, and the exceptions of the agent.
-/

namespace Wca

open Py

/-- An orchestration-level task identifier. -/
abbrev TaskId := String

inductive AllocationType where
  | QUOTA
  | SHARES
  | RDT
  | CPUSET_CPUS
  | CPUSET_MEMS
  | CPUSET_MEMORY_MIGRATE
  | MIGRATE_PAGES
  deriving DecidableEq, Repr

/-- The reasons of `InvalidAllocations`, one for each place that raises it, with what its message
shows. -/
inductive InvalidAllocations where
  /-- `'%s does not belong to range <%s;%s>'` -/
  | notInRange (value min max : Flt)
  /-- `'cannot decode list format %r: %s'` -/
  | cannotDecodeListFormat (value : String) (e : Exn)
  /-- `'{} not in range <{};{}>'` -/
  | listNotInRange (value : String) (min max : ℤ)
  /-- `'Swap should be disabled due to possibility of OOM killer occurrence!'` -/
  | swapEnabled
  /-- `'Allocator requested RDT cache allocation but RDT cache control is not enabled!'` -/
  | cacheControlNotEnabled
  /-- `'Allocator requested RDT MB allocation but RDT memory bandwidth is not enabled!'` -/
  | mbControlNotEnabled
  /-- `'l3 resources setting should start with "L3:" prefix (got %r)'` -/
  | l3Prefix (l3 : String)
  /-- `'mb resources setting should start with "MB:" prefix (got %r)'` -/
  | mbPrefix (mb : String)
  /-- `'invalid domain id - out of range(got=%r number_of_sockets=%i )'` -/
  | domainOutOfRange (domain : ℤ) (sockets : Nat)
  /-- `'invalid domain id - non numeric(got=%r error=%s)'` -/
  | domainNonNumeric (domain : String) (e : Exn)
  /-- `'{} is not integer format'` -/
  | mbNotInteger (value : String)
  /-- `'mb allocation smaller than minimum value {}'` -/
  | mbTooSmall (minBandwidth : ℤ)
  /-- `'Mask is bigger than allowed'` -/
  | maskTooBig
  /-- `'Bit series of ones in mask must occur without a gap between them'` -/
  | maskWithGap
  /-- `' cbm bits. Requires minimum '` between the two numbers -/
  | maskTooFewBits (bits : Nat) (minCbmBits : ℤ)
  /-- `'too many resource groups for available CLOSids'` -/
  | tooManyGroups
  /-- `'unsupported allocation type: %r'` -/
  | unsupportedAllocationType (t : AllocationType)
  /-- `'invalid task id %r'` -/
  | invalidTaskId (taskId : TaskId)
  /-- `'not all tasks are of the same Kubernetes QOS class ...'` -/
  | mixedQosClasses
  deriving DecidableEq

/-- Everything that is raised. -/
inductive Exc where
  | builtin (e : Exn)
  | InvalidAllocations (why : InvalidAllocations)
  | MissingAllocationException (path : String)
  | MissingMeasurementException (path : String)
  | OutOfClosidsException
  | DataMissingException
  | Exception (msg : String)
  deriving DecidableEq

def Exc.isInvalidAllocations : Exc → Bool
  | .InvalidAllocations _ => true
  | _ => false

theorem Exc.isInvalidAllocations_iff (e : Exc) :
    e.isInvalidAllocations = true ↔ ∃ why, e = .InvalidAllocations why := by
  cases e <;> simp [isInvalidAllocations]

instance : MonadLift (Except Exn) (Except Exc) := ⟨Except.mapError .builtin⟩

instance {σ : Type} : MonadLift (Except Exc) (EStateM Exc σ) := ⟨Py.liftExcept⟩

/-- `raise InvalidAllocations(..)`. -/
def invalid {α : Type} (why : InvalidAllocations) : Except Exc α :=
  .error (.InvalidAllocations why)

/-- `assert c, msg`. -/
def assert (c : Prop) [Decidable c] (msg : String) : Except Exc Unit :=
  if c then .ok () else .error (.builtin (.AssertionError msg))

@[simp] theorem liftM_ok {α : Type} (a : α) :
    (liftM (Except.ok a : Except Exn α) : Except Exc α) = .ok a := rfl

@[simp] theorem liftM_error {α : Type} (e : Exn) :
    (liftM (Except.error e : Except Exn α) : Except Exc α) = .error (.builtin e) := rfl

theorem liftM_ok_iff {α : Type} {x : Except Exn α} {a : α} :
    (liftM x : Except Exc α) = .ok a ↔ x = .ok a := by
  cases x <;> simp

theorem liftM_error_iff {α : Type} {x : Except Exn α} {e : Exc} :
    (liftM x : Except Exc α) = .error e ↔ ∃ e', x = .error e' ∧ e = .builtin e' := by
  cases x <;> simp [eq_comm]

theorem run_liftM_ok_iff {σ α : Type} {x : Except Exc α} {s s' : σ} {a : α} :
    (liftM x : EStateM Exc σ α).run s = .ok a s' ↔ x = .ok a ∧ s' = s := liftExcept_ok_iff

theorem run_liftM_error_iff {σ α : Type} {x : Except Exc α} {s s' : σ} {e : Exc} :
    (liftM x : EStateM Exc σ α).run s = .error e s' ↔ x = .error e ∧ s' = s := liftExcept_error_iff

theorem wp_liftM {σ α : Type} {x : Except Exc α} {Q : α → σ → Prop} {E : Exc → σ → Prop} {s : σ} :
    wp (liftM x) Q E s ↔ (∀ a, x = .ok a → Q a s) ∧ (∀ e, x = .error e → E e s) := wp_liftExcept

theorem assert_ok_iff {c : Prop} [Decidable c] {msg : String} {u : Unit} :
    assert c msg = .ok u ↔ c := by
  unfold assert
  split <;> simp_all

theorem assert_of {c : Prop} [Decidable c] {msg : String} (h : c) : assert c msg = .ok () := if_pos h

/-! ## Raw allocations -/

/-- An allocation of cache and memory bandwidth, the two as lines of a schemata file. -/
structure RDTAllocation where
  /-- defaults to the name of the container -/
  name : Option String := none
  /-- e.g. `L3:0=fff;1=f` -/
  l3 : Option String := none
  /-- e.g. `MB:0=20;1=80` -/
  mb : Option String := none
  deriving DecidableEq

/-- A value of the four types an allocator may use. -/
inductive RawValue where
  | num (n : Number)
  | str (s : String)
  | rdt (a : RDTAllocation)
  deriving DecidableEq

abbrev TaskAllocations := Dict AllocationType RawValue

abbrev TasksAllocations := Dict TaskId TaskAllocations

structure AllocationConfiguration where
  cpuQuotaPeriod : Number := .int 1000
  cpuSharesUnit : Number := .int 1000
  deriving DecidableEq

/-- A number that the declaration `Numeric(minValue, maxValue)` admits. -/
def Numeric (minValue maxValue : ℚ) (n : Number) : Prop :=
  ∃ q, n.val = .rat q ∧ minValue ≤ q ∧ q ≤ maxValue

/-- A configuration within its declared ranges. -/
structure AllocationConfiguration.Declared (c : AllocationConfiguration) : Prop where
  cpuQuotaPeriod : Numeric 1000 1000000 c.cpuQuotaPeriod
  cpuSharesUnit : Numeric 1000 1000000 c.cpuSharesUnit

end Wca
