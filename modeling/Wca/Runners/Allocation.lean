import Wca.ResctrlAllocations

/-!
# The allocation runner

One iteration of `AllocationRunner`: read the current allocations, take what the allocator returns,
build and validate the values of both, compare them and perform the changeset.
-/

namespace Wca

open Py World

/-! ## Values of every allocation type -/

inductive LeafValue where
  | quota (v : QuotaAllocationValue)
  | shares (v : SharesAllocationValue)
  | cpuset (v : ListFormatBasedAllocationValue)
  | memoryMigrate (v : CPUSetMemoryMigrateAllocationValue)
  | migratePages (v : MigratePagesAllocationValue)
  | rdt (v : RDTAllocationValue)
  deriving DecidableEq

namespace LeafValue

/-- The number of a `BoxedNumeric`. -/
def boxed? : LeafValue → Option BoxedNumeric
  | quota v => some v.toBoxedNumeric
  | shares v => some v.toBoxedNumeric
  | memoryMigrate v => some v.toBoxedNumeric
  | migratePages v => some v.toBoxedNumeric
  | cpuset _ | rdt _ => none

/-- `BoxedNumeric.calculate_changeset`. -/
def numericChangeset (self current : LeafValue) (value : BoxedNumeric) :
    Except Exc (LeafValue × Option LeafValue) :=
  match current.boxed? with
  | none => .error (.builtin (.AssertionError ""))
  | some currentValue => .ok (if value.eq currentValue then (current, none) else (self, some self))

/-- The comparison of the class of the new value. -/
def calculateChangeset (self current : LeafValue) : Except Exc (LeafValue × Option LeafValue) :=
  match self with
  | quota v => numericChangeset self current v.toBoxedNumeric
  | shares v => numericChangeset self current v.toBoxedNumeric
  | memoryMigrate v => numericChangeset self current v.toBoxedNumeric
  | migratePages v => numericChangeset self current v.toBoxedNumeric
  | cpuset v =>
    match current with
    | cpuset c => do
      let (target, changeset) ← v.calculateChangeset c
      pure (cpuset target, changeset.map cpuset)
    | _ => .error (.builtin (.AssertionError ""))
  | rdt v =>
    match current with
    | rdt c => do
      let (target, changeset) ← v.calculateChangeset (some c)
      pure (rdt target, changeset.map rdt)
    | _ => .error (.builtin (.AssertionError ""))

def validate : LeafValue → EStateM Exc Heap Unit
  | quota v => v.toBoxedNumeric.validate
  | shares v => v.toBoxedNumeric.validate
  | memoryMigrate v => v.toBoxedNumeric.validate
  | migratePages v => v.validate
  | cpuset v => v.validate
  | rdt v => v.validate

def performAllocations : LeafValue → EStateM Exc World Unit
  | quota v => onHost v.performAllocations
  | shares v => onHost v.performAllocations
  | memoryMigrate v => onHost v.performAllocations
  | cpuset v => onHost v.performAllocations
  | migratePages v => do
    let w ← get
    let calls ← v.performAllocations w.host.resctrl
    set { w with pageMigrations := w.pageMigrations ++ calls }
  | rdt v => v.performAllocations

instance : AllocationValue LeafValue Heap World where
  calculateChangeset := calculateChangeset
  validate := validate
  performAllocations := performAllocations

end LeafValue

abbrev TaskAllocationsValues := AllocationsDict AllocationType LeafValue

abbrev TasksAllocationsValues := AllocationsDict TaskId TaskAllocationsValues

/-! ## Building the values -/

/-- What the constructor of RDT values is given: there is none when RDT is not enabled. -/
structure RDTContext where
  rdtGroups : Ref
  sockets : Nat
  rdtInformation : RDTInformation

def RDTContext.rdtAllocationValueConstructor (ctx : RDTContext) (rdtAllocation : RDTAllocation)
    (container : Container) : RDTAllocationValue where
  containerName := container.name
  rdtAllocation := rdtAllocation
  resgroup := container.resgroup
  getPids := container
  platformSockets := ctx.sockets
  rdtInformation := ctx.rdtInformation
  rdtGroups := ctx.rdtGroups

/-- The constructor that the registry has for an allocation type. -/
def construct (registry : Option RDTContext) (container : Container) :
    AllocationType → RawValue → Except Exc LeafValue
  | .QUOTA, raw => return .quota (← QuotaAllocationValue.create raw container)
  | .SHARES, raw => return .shares (← SharesAllocationValue.create raw container)
  | .CPUSET_CPUS, raw => return .cpuset (← CPUSetCPUSAllocationValue.create raw container)
  | .CPUSET_MEMS, raw => return .cpuset (← CPUSetMEMSAllocationValue.create raw container)
  | .CPUSET_MEMORY_MIGRATE, raw =>
    return .memoryMigrate (← CPUSetMemoryMigrateAllocationValue.create raw container)
  | .MIGRATE_PAGES, raw => return .migratePages (← MigratePagesAllocationValue.create raw container)
  | .RDT, raw =>
    match registry, raw with
    | none, _ => invalid (.unsupportedAllocationType .RDT)
    | some ctx, .rdt rdtAllocation =>
      .ok (.rdt (ctx.rdtAllocationValueConstructor rdtAllocation container))
    | some _, _ => .error (.builtin (.AssertionError "type error on"))

namespace TaskAllocationsValues

def create (taskAllocations : TaskAllocations) (container : Container)
    (registry : Option RDTContext) : Except Exc TaskAllocationsValues :=
  taskAllocations.comprehendM (construct registry container)

end TaskAllocationsValues

namespace TasksAllocationsValues

/-- The context of RDT values, with an `RDTGroups` of its own. -/
def createRegistry (rdtEnabled : Bool) (platform : Platform) :
    EStateM Exc Heap (Option RDTContext) := do
  if rdtEnabled then
    match platform.rdtInformation with
    | none => throw (.builtin (.AttributeError "'NoneType' object has no attribute 'num_closids'"))
    | some rdtInformation =>
      match rdtInformation.numClosids with
      | none => throw (.builtin (.AssertionError "invalid platform rdt init"))
      | some numClosids => do
        let rdtGroups ← Heap.alloc { closidsLimit := numClosids }
        pure (some ⟨rdtGroups, platform.sockets, rdtInformation⟩)
  else pure none

/-- The values of one task, built and validated. -/
def createTask (rdtEnabled : Bool) (containers : Containers) (registry : Option RDTContext)
    (taskId : TaskId) (taskAllocations : TaskAllocations) :
    EStateM Exc Heap TaskAllocationsValues :=
  match containers.get? taskId with
  | none => throw (.InvalidAllocations (.invalidTaskId taskId))
  | some (_, container) => do
    assert (container.platform.rdtInformation.isSome = rdtEnabled) ""
    let value ← TaskAllocationsValues.create taskAllocations container registry
    validate value
    pure value

def create (rdtEnabled : Bool) (tasksAllocations : TasksAllocations) (containers : Containers)
    (platform : Platform) : EStateM Exc Heap TasksAllocationsValues := do
  let registry ← createRegistry rdtEnabled platform
  tasksAllocations.comprehendM (createTask rdtEnabled containers registry)

end TasksAllocationsValues

/-! ## Reading the current allocations -/

/-- The allocations of every container; a container with a missing allocation is left out. -/
def getTasksAllocations (containers : Containers) (h : Host) : Except Exc TasksAllocations :=
  containers.items.foldlM (fun tasksAllocations p =>
    match p.2.2.getAllocations h with
    | .ok allocations => .ok (tasksAllocations.set p.1 allocations)
    | .error (.MissingAllocationException _) => .ok tasksAllocations
    | .error e => .error e) ∅

/-! ## The iteration -/

def QOS_LABELNAME : String := "app_kubernetes_io__qos_class"

def haveTasksQosLabel (tasks : List Task) : Bool := tasks.all fun task => QOS_LABELNAME ∈ task.labels

def areAllTasksOfSingleQos (tasks : List Task) : Bool :=
  (tasks.map fun task => task.labels.get? QOS_LABELNAME).toFinset.card ≤ 1

def validateSharesAllocationForKubernetes (tasks : List Task) (allocations : TasksAllocations) :
    Except Exc Unit :=
  if haveTasksQosLabel tasks ∧ ¬ areAllTasksOfSingleQos tasks ∧
      (∃ allocation ∈ allocations.values, .SHARES ∈ allocation) then
    invalid .mixedQosClasses
  else .ok ()

/-- The parts of the runner that an iteration uses. -/
structure AllocationRunner where
  rdtEnabled : Bool
  containers : Containers
  platform : Platform

/-- The statistics of the runner and the world. -/
structure RunnerState where
  world : World
  allocationsCounter : Nat
  allocationsErrors : Nat

/-- The state inside the `try` block, with the two variables that are bound before it. -/
structure TryState where
  heap : Heap
  allocationsCounter : Nat
  targetAllocationsValues : TasksAllocationsValues
  allocationsChangesetValues : Option TasksAllocationsValues

/-- What an iteration reports and performs. -/
structure Outcome where
  targetAllocationsValues : TasksAllocationsValues
  allocationsChangesetValues : Option TasksAllocationsValues

/-- Perform the changeset; an empty dictionary is false. -/
def Outcome.perform (outcome : Outcome) : EStateM Exc World Unit :=
  match outcome.allocationsChangesetValues with
  | some changeset => doIf (changeset.items ≠ []) (performAllocations changeset)
  | none => pure ()

namespace AllocationRunner

variable (self : AllocationRunner)

def tasks : List Task := self.containers.values.map Prod.fst

def create (tasksAllocations : TasksAllocations) : EStateM Exc Heap TasksAllocationsValues :=
  TasksAllocationsValues.create self.rdtEnabled tasksAllocations self.containers self.platform

def inTry {α : Type} : EStateM Exc Heap α → EStateM Exc TryState α :=
  zoom TryState.heap fun h s => { s with heap := h }

/-- The body of the `try` block. -/
def tryAllocations (newAllocations : TasksAllocations)
    (currentAllocationsValues : TasksAllocationsValues) : EStateM Exc TryState Unit := do
  validateSharesAllocationForKubernetes self.tasks newAllocations
  let newAllocationsValues ← inTry (self.create newAllocations)
  inTry (validate newAllocationsValues)
  let (target, changeset) ← calculateChangeset newAllocationsValues currentAllocationsValues
  modify fun s =>
    { s with targetAllocationsValues := target, allocationsChangesetValues := changeset }
  inTry (validate target)
  modify fun s => { s with allocationsCounter := s.allocationsCounter + newAllocations.len }

/-- The `try` block with its handler. The handler restores the target, not the changeset. -/
def handleAllocations (newAllocations : TasksAllocations)
    (currentAllocationsValues : TasksAllocationsValues) : EStateM Exc RunnerState Outcome := do
  let s ← get
  let result := (self.tryAllocations newAllocations currentAllocationsValues).run {
    heap := s.world.heap
    allocationsCounter := s.allocationsCounter
    targetAllocationsValues := currentAllocationsValues
    allocationsChangesetValues := none }
  match result with
  | .ok _ t =>
    set { s with
      world := { s.world with heap := t.heap }
      allocationsCounter := t.allocationsCounter }
    pure ⟨t.targetAllocationsValues, t.allocationsChangesetValues⟩
  | .error (.InvalidAllocations _) t =>
    set { s with
      world := { s.world with heap := t.heap }
      allocationsCounter := t.allocationsCounter
      allocationsErrors := s.allocationsErrors + 1 }
    pure ⟨currentAllocationsValues, t.allocationsChangesetValues⟩
  | .error e t =>
    set { s with
      world := { s.world with heap := t.heap }
      allocationsCounter := t.allocationsCounter }
    throw e

def onWorld {α : Type} : EStateM Exc World α → EStateM Exc RunnerState α :=
  zoom RunnerState.world fun w s => { s with world := w }

/-- The iteration once both allocations are there. -/
def iterateBodyFrom (currentAllocations newAllocations : TasksAllocations) :
    EStateM Exc RunnerState Outcome := do
  let currentAllocationsValues ← onWorld (onHeap (self.create currentAllocations))
  let outcome ← self.handleAllocations newAllocations currentAllocationsValues
  onWorld outcome.perform
  pure outcome

/-- One iteration with an allocator that sees the current allocations. -/
def iterateBody (allocate : TasksAllocations → TasksAllocations) :
    EStateM Exc RunnerState Outcome := do
  let s ← get
  let currentAllocations ← getTasksAllocations self.containers s.world.host
  self.iterateBodyFrom currentAllocations (allocate currentAllocations)

end AllocationRunner

/-! ## A small host

The inputs that examples are made of: a host with one socket and four cpus, and tasks with one
process each. -/

namespace SmallHost

def rdtInformation : RDTInformation where
  rdtCacheMonitoringEnabled := true
  rdtMbMonitoringEnabled := true
  rdtCacheControlEnabled := true
  rdtMbControlEnabled := true
  cbmMask := some "fff"
  minCbmBits := some "1"
  numClosids := some 3
  mbBandwidthGran := some 10
  mbMinBandwidth := some 10

def platform : Platform where
  sockets := 1
  cpus := 4
  numaNodes := 1
  nodeCpus := Dict.ofItems [(0, [0, 1, 2, 3])]
  rdtInformation := some rdtInformation
  swapEnabled := false

def task (name : TaskId) : Task where
  taskId := name
  cgroupPath := "/" ++ name
  subcgroupsPaths := []
  labels := ∅

/-- The container of a task, in a control group. -/
def container (name group : String) : Container where
  ident := 0
  name := name
  cgroup := ⟨"/" ++ name, {}, platform⟩
  subcgroups := []
  resgroup := some ⟨group⟩

/-- A runner that watches tasks, given with their control groups. -/
def runner (tasks : List (TaskId × String)) : AllocationRunner where
  rdtEnabled := true
  containers := Dict.ofItems (tasks.map fun p => (p.1, (task p.1, container p.1 p.2)))
  platform := platform

def schemata : Dict String Row :=
  Dict.ofItems [("L3", Dict.ofItems [("0", "fff")]), ("MB", Dict.ofItems [("0", "100")])]

/-- Every task has one process, in the mon group of its name. -/
def host (tasks : List (TaskId × String)) : Host where
  resctrl := {
    groups := tasks.foldl (fun groups p => groups.set p.2 {
        monGroups := (groups.get? p.2).elim [] CtrlGroup.monGroups ++ [p.1]
        schemata := schemata })
      (Dict.ofItems [("", { monGroups := [], schemata := schemata })])
    procs := Dict.ofItems (tasks.zipIdx.map fun p => (p.2, {
        cgroup := "/" ++ p.1.1
        leader := true
        ctrlGroup := p.1.2
        monGroup := some p.1.1 }))
    defaultSchemata := schemata
    freeClosids := 8
    freeRmids := 8
    schemataWrites := [] }
  cgroups := Dict.ofItems (tasks.map fun p => ("/" ++ p.1, {}))

/-- The allocations of a task that has only an RDT allocation. -/
def rdt (name l3 mb : Option String) : TaskAllocations :=
  Dict.ofItems [(.RDT, .rdt ⟨name, l3, mb⟩)]

def registry : Option RDTContext := some ⟨0, 1, rdtInformation⟩

def heap : Heap := ⟨0, fun _ => ⟨0, ∅, ∅⟩⟩

def world (tasks : List (TaskId × String)) : World := ⟨heap, host tasks, []⟩

def state (tasks : List (TaskId × String)) : RunnerState := ⟨world tasks, 0, 0⟩

end SmallHost

end Wca
