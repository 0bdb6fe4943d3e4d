import Wca.Cgroups

/-!
# Containers and their manager

A `Container` stands for both container classes: `ContainerSet` is a container with subcgroups. The
manager's `syncContainersState` is written in the phases of the source: clean up departed
containers, keep the known ones, sweep resctrl, create the new ones, refresh those whose subcgroups
changed, and put every container into the group its mon group is found in.
-/

namespace Wca

open Py

/-- A task as the orchestration node reports it. -/
structure Task where
  taskId : TaskId
  cgroupPath : String
  subcgroupsPaths : List String
  labels : Dict String String
  deriving DecidableEq

/-- The file systems that are shared with the kernel. -/
structure Host where
  resctrl : Resctrl
  cgroups : Cgroups
  deriving DecidableEq

namespace Host

/-- Run a program of the resctrl file system. -/
def onResctrl {α : Type} : EStateM Exc Resctrl α → EStateM Exc Host α :=
  zoom resctrl fun r h => { h with resctrl := r }

/-- Run a program of the cgroup file system. -/
def onCgroups {α : Type} : EStateM Exc Cgroups α → EStateM Exc Host α :=
  zoom cgroups fun c h => { h with cgroups := c }

end Host

open Host

/-- The relative cgroup path made flat. -/
def sanitizeCgroupPath (cgroupPath : String) : String :=
  .ofList ((cgroupPath.toList.drop 1).map fun c => if c = '/' then '-' else c)

structure Container where
  /-- which object this is -/
  ident : Nat
  name : String
  cgroup : Cgroup
  /-- none in a `Container`, at least one in a `ContainerSet` -/
  subcgroups : List Cgroup
  resgroup : Option ResGroup
  deriving DecidableEq

namespace Container

variable (self : Container)

def cgroupPath : String := self.cgroup.cgroupPath

def platform : Platform := self.cgroup.platform

def getPids (includeThreads : Bool) (r : Resctrl) : List Pid :=
  if self.subcgroups = [] then self.cgroup.getPids includeThreads r
  else self.subcgroups.flatMap fun subcgroup => subcgroup.getPids includeThreads r

/-- Keep the pids of the cgroup and of resctrl in sync. -/
def sync : EStateM Exc Resctrl Unit := do
  let r ← get
  doIf (self.platform.rdtInformation.isSome = true) <|
    match self.resgroup with
    | none => throw (.builtin (.AttributeError "'NoneType' object has no attribute 'add_pids'"))
    | some resgroup => resgroup.addPids (self.getPids true r) self.name

def cleanup : EStateM Exc Resctrl Unit :=
  match self.resgroup with
  | none => pure ()
  | some resgroup =>
    doIf (self.platform.rdtInformation.isSome = true) (resgroup.remove self.name)

/-- The cpuset allocations of the first subcgroup; every one of them is read. -/
def getSubcgroupsCpusetAllocations (c : Cgroups) : Except Exc TaskAllocations := do
  let read ← self.subcgroups.mapM fun subcgroup => do
    let cpus ← subcgroup.readListformat .CPUSET_CPUS c
    let mems ← subcgroup.readListformat .CPUSET_MEMS c
    pure (cpus, mems)
  match read with
  | [] => pure ∅
  | (cpus, mems) :: _ =>
    pure (Dict.ofItems [(.CPUSET_CPUS, .str cpus), (.CPUSET_MEMS, .str mems)])

def getAllocations (h : Host) : Except Exc TaskAllocations := do
  let allocations ← self.cgroup.getAllocations h.cgroups
  let allocations := allocations.update (← self.getSubcgroupsCpusetAllocations h.cgroups)
  if self.platform.rdtInformation.any (·.isControlEnabled) then
    match self.resgroup with
    | none => throw (.builtin (.AttributeError "'NoneType' object has no attribute 'get_allocations'"))
    | some resgroup => do
      let rdtAllocations ← resgroup.getAllocations h.resctrl
      pure (allocations.set .RDT (.rdt rdtAllocations))
  else pure allocations

end Container

/-! ## The manager -/

/-- The containers the manager watches, by the id of their task. -/
abbrev Containers := Dict TaskId (Task × Container)

structure ContainerManager where
  containers : Containers
  platform : Platform
  allocationConfiguration : AllocationConfiguration
  /-- the identity of the next container that is created -/
  nextIdent : Nat
  /-- the containers cleaned up so far, which no program reads -/
  cleanedUp : List Nat
  deriving DecidableEq

/-- The manager and the file systems it works on. -/
structure Node where
  manager : ContainerManager
  host : Host
  deriving DecidableEq

namespace ContainerManager

def onHost {α : Type} : EStateM Exc Host α → EStateM Exc Node α :=
  zoom Node.host fun h n => { n with host := h }

def cleanupContainer (container : Container) : EStateM Exc Node Unit := do
  onHost (onResctrl container.cleanup)
  modify fun n => { n with manager := { n.manager with
    cleanedUp := n.manager.cleanedUp ++ [container.ident] } }

/-- Creating a container resets the counters of the cgroups it reads. -/
def resetCounters (c : Cgroups) (cgroups : List Cgroup) : Except Exc Unit :=
  forM cgroups fun cgroup =>
    if cgroup.cgroupPath ∈ c then .ok ()
    else .error (.MissingMeasurementException cgroup.cgroupPath)

def createContainer (task : Task) : EStateM Exc Node Container := do
  let n ← get
  let newCgroup := fun path : String =>
    ({ cgroupPath := path
       allocationConfiguration := n.manager.allocationConfiguration
       platform := n.manager.platform } : Cgroup)
  assert (Str.startsWith "/" task.cgroupPath) "Provide cgroup_path with leading /"
  assert (∀ path ∈ task.subcgroupsPaths, Str.startsWith "/" path)
    "Provide cgroup_path with leading /"
  let name := sanitizeCgroupPath task.cgroupPath
  assert (task.subcgroupsPaths ≠ [] ∨ name ≠ "") "Container name cannot be empty string!"
  assert (∀ path ∈ task.subcgroupsPaths, sanitizeCgroupPath path ≠ "")
    "Container name cannot be empty string!"
  let container : Container := {
    ident := n.manager.nextIdent
    name := name
    cgroup := newCgroup task.cgroupPath
    subcgroups := (Dict.ofItems (task.subcgroupsPaths.map fun path => (path, newCgroup path))).values
    resgroup := none }
  set { n with manager := { n.manager with nextIdent := n.manager.nextIdent + 1 } }
  resetCounters n.host.cgroups
    (if container.subcgroups = [] then [container.cgroup] else container.subcgroups)
  pure container

/-- `containers[task] = container`; a key that is there stays the task it was. -/
def assign (containers : Containers) (task : Task) (container : Container) : Containers :=
  containers.set task.taskId
    (((containers.get? task.taskId).map Prod.fst).getD task, container)

/-- Tasks to start watching, and containers that no task has any more. -/
def findNewAndDeadTasks (discoveredTasks : List Task) (knownContainers : List Container) :
    List Task × List Container :=
  (discoveredTasks.filter fun task =>
      task.cgroupPath ∉ knownContainers.map Container.cgroupPath,
    knownContainers.filter fun container =>
      container.cgroupPath ∉ discoveredTasks.map Task.cgroupPath)

/-- The containers that go on being watched, under the tasks as they are reported now. -/
def keptContainers (tasks : List Task) (known : Containers) : Containers :=
  tasks.foldl (fun containers task =>
    known.items.foldl (fun containers item =>
      if task.cgroupPath = item.2.1.cgroupPath then assign containers task item.2.2
      else containers) containers) ∅

/-- The control group in which a mon group of the container's name is; a later one wins. -/
def containerNameToCtrlGroup (monGroupsRelation : Dict String (List String)) : Dict String String :=
  monGroupsRelation.items.foldl (fun d p => p.2.foldl (fun d name => d.set name p.1) d) ∅

/-- Remove the taskless groups and find the group of each container. -/
def sweepResctrl : EStateM Exc Node (Dict String String) := do
  let n ← get
  match n.manager.platform.rdtInformation with
  | none => pure ∅
  | some rdtInformation => do
    assert (rdtInformation.isMonitoringEnabled = true)
      "rdt_enabled requires RDT monitoring for keeping groups relation."
    let monGroupsRelation ← readMonGroupsRelation n.host.resctrl
    onHost (onResctrl (cleanTasklessGroups monGroupsRelation))
    let n ← get
    let monGroupsRelation ← readMonGroupsRelation n.host.resctrl
    pure (containerNameToCtrlGroup monGroupsRelation)

/-- A container for a task that has none. -/
def createNewContainer (task : Task) : EStateM Exc Node Unit := do
  let container ← createContainer task
  modify fun n => { n with manager := { n.manager with
    containers := assign n.manager.containers task container } }

/-- Replace a container whose subcgroups are not those of its task any more. -/
def refreshContainer (taskId : TaskId) : EStateM Exc Node Unit := do
  let n ← get
  match n.manager.containers.get? taskId with
  | none => pure ()
  | some (task, container) =>
    doIf (task.subcgroupsPaths.toFinset ≠ (container.subcgroups.map Cgroup.cgroupPath).toFinset) do
      cleanupContainer container
      createNewContainer task

/-- Put a container into the group its mon group was found in, or into the root group. -/
def syncContainer (nameToCtrlGroup : Dict String String) (taskId : TaskId) :
    EStateM Exc Node Unit := do
  let n ← get
  match n.manager.containers.get? taskId with
  | none => pure ()
  | some (task, container) => do
    let container :=
      if n.manager.platform.rdtInformation.isSome then
        { container with
          resgroup := some ⟨(nameToCtrlGroup.get? container.name).getD RESCTRL_ROOT_NAME⟩ }
      else container
    modify fun n => { n with manager := { n.manager with
      containers := assign n.manager.containers task container } }
    onHost (onResctrl container.sync)

def syncContainersState (tasks : List Task) : EStateM Exc Node Unit := do
  let n ← get
  let (newTasks, containersToCleanup) :=
    findNewAndDeadTasks tasks (n.manager.containers.values.map Prod.snd)
  forM containersToCleanup cleanupContainer
  modify fun n => { n with manager := { n.manager with
    containers := keptContainers tasks n.manager.containers } }
  let nameToCtrlGroup ← sweepResctrl
  forM newTasks createNewContainer
  let n ← get
  forM n.manager.containers.keys refreshContainer
  forM n.manager.containers.keys (syncContainer nameToCtrlGroup)

end ContainerManager

end Wca
