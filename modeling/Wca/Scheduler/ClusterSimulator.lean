import Wca.Scheduler.Resources
import Mathlib.Algebra.Order.BigOperators.Group.List

/-!
# The cluster simulator

`ClusterSimulator` plays the part of a cluster for a scheduling algorithm: `iterate` takes new tasks
in, asks the algorithm for a node for each, and checks that the task fits the node before it is
assigned. A task is referred to by its position in `tasks`, where it stays for good.
-/

namespace Wca.Scheduler

open Py ResourceType Resources

structure Node where
  name : NodeName
  /-- all that is available -/
  initial : Resources
  deriving DecidableEq

structure Task where
  name : TaskName
  requested : Resources
  /-- the binding done by the scheduler and the algorithm -/
  assignment : Option Node := none
  /-- a binding without the scheduler -/
  nodeName : Option NodeName := none
  lifeTime : ℤ := 0
  duration : Option ℤ := none
  deriving DecidableEq

namespace Task

private def coreChars : List Char → List Char
  | [] => []
  | c :: cs => if ['_', '_', '_'].isPrefixOf (c :: cs) then [] else c :: coreChars cs

/-- `get_core_name`: the name up to the first `___`. -/
def getCoreName (self : Task) : AppName := .ofList (coreChars self.name.toList)

/-- `update`: one iteration older, and unassigned at the end of its life. -/
def update (self : Task) : Task :=
  if self.assignment.isSome then
    let lifeTime := self.lifeTime + 1
    if self.duration.any (· < lifeTime) then { self with lifeTime, assignment := none }
    else { self with lifeTime }
  else self

end Task

namespace Node

def getMembwReadWriteRatio (self : Node) : Except Exc ℚ :=
  if self.initial.HasMembw then
    truediv (self.initial.amount MEMBW_READ) (self.initial.amount MEMBW_WRITE)
  else pure 1

/-- Take off what a task of the node requests. -/
def subtractTask (self : Node) (unassigned : Resources) (task : Task) : Except Exc Resources :=
  if task.assignment = some self then do
    let ratio ← self.getMembwReadWriteRatio
    unassigned.subtractAepAware task.requested ratio
  else pure unassigned

/-- `_calculate_unassigned`. -/
def calculateUnassigned (self : Node) (tasks : List Task) : Except Exc Resources :=
  tasks.foldlM self.subtractTask self.initial

/-- Check if there is enough resources on the node for a new task. -/
def validateAssignment (self : Node) (tasks : List Task) (newTask : Task) : Except Exc Bool := do
  let unassigned ← self.calculateUnassigned tasks
  let ratio ← self.getMembwReadWriteRatio
  let unassigned ← unassigned.subtractAepAware newTask.requested ratio
  pure unassigned.bool

end Node

structure ClusterSimulator where
  tasks : List Task
  nodes : List Node
  allowRoughAssignment : Bool := true
  /-- if there are no new tasks, try the unassigned ones again -/
  retryScheduling : Bool := false
  roughAssignmentsPerNode : Dict Node Nat
  deriving DecidableEq

/-- A new simulator: nothing was assigned roughly yet. -/
def ClusterSimulator.create (tasks : List Task) (nodes : List Node)
    (allowRoughAssignment retryScheduling : Bool) : ClusterSimulator where
  tasks := tasks
  nodes := nodes
  allowRoughAssignment := allowRoughAssignment
  retryScheduling := retryScheduling
  roughAssignmentsPerNode := .ofItems (nodes.map fun node => (node, 0))

/-! ## The interface of the algorithms -/

/-- What is read of the description of a pod. -/
structure Pod where
  app : AppName
  name : TaskName
  deriving DecidableEq

structure ExtenderArgs where
  pod : Pod
  nodeNames : List NodeName
  deriving DecidableEq

/-- Why a node is not for a pod, by what the text of the message shows. -/
inductive FailureMessage where
  | text (msg : String)
  /-- `'Could not fit node for dimensions: missing {}.'` -/
  | couldNotFit (brokenCapacities : Resources)
  /-- `'{} {}'` -/
  | causes (fitCause dramCause : FailureMessage)
  /-- `'Not best class (best_variance=%.2f this=%.2f)'` -/
  | notBestClass (best this : ℚ)
  deriving DecidableEq

structure ExtenderFilterResult where
  nodeNames : List NodeName := []
  failedNodes : Dict NodeName FailureMessage := ∅
  deriving DecidableEq

structure HostPriority where
  host : NodeName
  score : ℤ
  deriving DecidableEq

/-- The first of the highest score. -/
def HostPriority.best? : List HostPriority → Option HostPriority
  | [] => none
  | el :: els => some (els.foldl (fun best el => if best.score < el.score then el else best) el)

theorem HostPriority.mem_of_best? {best : HostPriority} {priorities : List HostPriority}
    (h : best? priorities = some best) : best ∈ priorities := by
  cases priorities with
  | nil => cases h
  | cons el els =>
    obtain rfl := Option.some.inj h
    clear h
    induction els generalizing el with
    | nil => exact List.mem_cons_self
    | cons el' els ih =>
      rw [List.foldl_cons]
      split
      · exact List.mem_cons_of_mem el (ih el')
      · rcases List.mem_cons.mp (ih el) with h | h
        · rw [h]
          exact List.mem_cons_self
        · exact List.mem_cons_of_mem _ (List.mem_cons_of_mem _ h)

/-- An algorithm, with a state `σ` of its own; it may look at the whole simulator. -/
structure Algorithm (σ : Type) where
  filter : ClusterSimulator → ExtenderArgs → EStateM Exc σ ExtenderFilterResult
  prioritize : ClusterSimulator → ExtenderArgs → EStateM Exc σ (List HostPriority)
  reschedule : ClusterSimulator → EStateM Exc σ (List TaskName)

namespace ClusterSimulator

/-- The node of the name, of which there has to be exactly one. -/
def getNodeByName (self : ClusterSimulator) (nodeName : NodeName) : Except Exc Node :=
  match self.nodes.filter (·.name = nodeName) with
  | [node] => .ok node
  | _ => .error (.builtin (.AssertionError ""))

/-- The position of the task of the name, of which there has to be exactly one. -/
def getTaskByName (self : ClusterSimulator) (taskName : TaskName) : Except Exc Nat :=
  match (List.range self.tasks.length).filter fun i => self.tasks[i]?.any (·.name = taskName) with
  | [i] => .ok i
  | _ => .error (.builtin (.AssertionError ""))

/-- Assign to a field of the task at a position. -/
def setTask (self : ClusterSimulator) (i : Nat) (f : Task → Task) : ClusterSimulator :=
  { self with tasks := self.tasks.modify i f }

def updateTasksLife (self : ClusterSimulator) : ClusterSimulator :=
  { self with tasks := self.tasks.map Task.update }

variable {σ : Type}

/-- A run of the simulator, beside the state of the algorithm. -/
abbrev Run (σ α : Type) := EStateM Exc (ClusterSimulator × σ) α

def simulator : Run σ ClusterSimulator := do
  let s ← get
  pure s.1

def modifySimulator (f : ClusterSimulator → ClusterSimulator) : Run σ PUnit :=
  modify fun s => (f s.1, s.2)

/-- A call of the algorithm. -/
def ask {α : Type} (x : EStateM Exc σ α) : Run σ α := zoom Prod.snd (fun a s => (s.1, a)) x

/-- The task at a position. -/
def task (i : Nat) : Run σ Task := do
  let self ← simulator
  match self.tasks[i]? with
  | some task => pure task
  | none => throw (.builtin (.IndexError ""))

/-- Bind the task to the node if it fits there, or roughly if that is allowed. -/
def performAssignment (i : Nat) (node : Node) : Run σ Bool := do
  let self ← simulator
  let t ← task i
  let taskFitsNode ← node.validateAssignment self.tasks t
  if taskFitsNode || self.allowRoughAssignment then
    modifySimulator fun self => self.setTask i fun task => { task with assignment := some node }
    doIf (taskFitsNode = false) do
      let rough ← self.roughAssignmentsPerNode.item node
      modifySimulator fun self =>
        { self with roughAssignmentsPerNode := self.roughAssignmentsPerNode.set node (rough + 1) }
    pure true
  else pure false

/-- Ask the algorithm for the best node of the task: the first of the highest priority. -/
def callScheduler (algorithm : Algorithm σ) (newTask : Task) : Run σ (Option Node) := do
  let self ← simulator
  let nodeNames := self.nodes.map Node.name
  let pod : Pod := { app := newTask.getCoreName, name := newTask.name }
  let extenderFilterResult ← ask (algorithm.filter self ⟨pod, nodeNames⟩)
  let filteredNodes := nodeNames.filter (· ∉ extenderFilterResult.failedNodes)
  let extenderPrioritizeResult ← ask (algorithm.prioritize self ⟨pod, filteredNodes⟩)
  match HostPriority.best? extenderPrioritizeResult with
  | none => pure none
  | some bestNode => do
    let node ← self.getNodeByName bestNode.host
    pure (some node)

/-- Take a new task in. Without a node of its own it is yet to be assigned, and its position is
returned. -/
def handleNewTask (newTask : Task) : Run σ (Option Nat) := do
  let self ← simulator
  let i := self.tasks.length
  modifySimulator fun self => { self with tasks := self.tasks ++ [newTask] }
  match newTask.nodeName with
  | some nodeName => do
    let node ← self.getNodeByName nodeName
    modifySimulator fun self =>
      self.setTask i fun task => { task with assignment := some node, nodeName := none }
    pure none
  | none => pure (some i)

def handleNew : List Task → Run σ (List Nat)
  | [] => pure []
  | newTask :: newTasks => do
    let i ← handleNewTask newTask
    let newUnassignedTasks ← handleNew newTasks
    pure (i.toList ++ newUnassignedTasks)

/-- Assign the task to the node that was found for it, if any. -/
def assignTask (i : Nat) : Option Node → Run σ Bool
  | none => pure false
  | some node => performAssignment i node

def scheduleTask (algorithm : Algorithm σ) (i : Nat) : Run σ Bool := do
  let t ← task i
  let node ← callScheduler algorithm t
  assignTask i node

/-- Schedule the tasks one after the other, and count the successful assignments. -/
def scheduleTasks (algorithm : Algorithm σ) : List Nat → Run σ Nat
  | [] => pure 0
  | i :: unassignedTasks => do
    let assigned ← scheduleTask algorithm i
    let assignedCount ← scheduleTasks algorithm unassignedTasks
    pure (assigned.toNat + assignedCount)

/-- Unassign the task of the name. -/
def unassign (taskName : TaskName) : Run σ PUnit := do
  let self ← simulator
  let i ← self.getTaskByName taskName
  modifySimulator fun self => self.setTask i fun task => { task with assignment := none }

/-- The tasks that an iteration tries to assign. -/
def unassignedTasks (self : ClusterSimulator) (newUnassignedTasks : List Nat) : List Nat :=
  if newUnassignedTasks = [] ∧ self.retryScheduling then
    (List.range self.tasks.length).filter fun i => self.tasks[i]?.any (·.assignment = none)
  else newUnassignedTasks

/-- Schedule the tasks there are; in an iteration without any new ones, unassign others. -/
def assignOrReschedule (algorithm : Algorithm σ) (newTasks : List Task)
    (unassignedTasks : List Nat) : Run σ Nat :=
  if unassignedTasks ≠ [] then scheduleTasks algorithm unassignedTasks
  else do
    doIf (newTasks = []) do
      let self ← simulator
      let rescheduleResult ← ask (algorithm.reschedule self)
      forM rescheduleResult unassign
    pure 0

def iterate (algorithm : Algorithm σ) (newTasks : List Task) : Run σ Nat := do
  let newUnassignedTasks ← handleNew newTasks
  let self ← simulator
  let assignedCount ←
    assignOrReschedule algorithm newTasks (self.unassignedTasks newUnassignedTasks)
  modifySimulator updateTasksLife
  pure assignedCount

/-- The states that calls of `iterate`, with new tasks of a kind, lead to, whether they return or
raise. -/
inductive Reaches (algorithm : Algorithm σ) (arrives : Task → Prop) (start : ClusterSimulator × σ) :
    ClusterSimulator × σ → Prop
  | start : Reaches algorithm arrives start start
  | returns {s s' newTasks n} : Reaches algorithm arrives start s → (∀ t ∈ newTasks, arrives t) →
      (iterate algorithm newTasks).run s = .ok n s' → Reaches algorithm arrives start s'
  | raises {s s' newTasks e} : Reaches algorithm arrives start s → (∀ t ∈ newTasks, arrives t) →
      (iterate algorithm newTasks).run s = .error e s' → Reaches algorithm arrives start s'

/-- What every part of an iteration keeps. -/
structure Invariant (algorithm : Algorithm σ) (arrives : Task → Prop) (I : ClusterSimulator → Prop) :
    Prop where
  handleNewTask : ∀ t, arrives t → Keeps (fun s => I s.1) (handleNewTask t : Run σ (Option Nat))
  scheduleTask : ∀ i, Keeps (fun s => I s.1) (scheduleTask algorithm i)
  unassign : ∀ taskName, Keeps (fun s => I s.1) (unassign taskName : Run σ PUnit)
  updateTasksLife : ∀ sim, I sim → I sim.updateTasksLife

section Invariant

variable {α : Type} {algorithm : Algorithm σ} {arrives : Task → Prop} {I : ClusterSimulator → Prop}

theorem keeps_simulator : Keeps (fun s => I s.1) (simulator : Run σ ClusterSimulator) :=
  keeps_get.bind fun _ => keeps_pure

theorem keeps_modifySimulator {f : ClusterSimulator → ClusterSimulator} (h : ∀ sim, I sim → I (f sim)) :
    Keeps (fun s => I s.1) (modifySimulator f : Run σ PUnit) :=
  keeps_modify fun s hs => h s.1 hs

theorem keeps_ask {x : EStateM Exc σ α} : Keeps (fun s => I s.1) (ask x) :=
  keeps_zoom fun _ _ hs => hs

theorem keeps_liftM {x : Except Exc α} : Keeps (fun s => I s.1) (liftM x : Run σ α) :=
  keeps_liftExcept

theorem wp_task {i : Nat} {Q : Task → ClusterSimulator × σ → Prop}
    {E : Exc → ClusterSimulator × σ → Prop} {s : ClusterSimulator × σ}
    (hQ : ∀ t, s.1.tasks[i]? = some t → Q t s) (hE : ∀ e, E e s) : wp (task i) Q E s := by
  unfold task simulator
  simp only [wp_bind, wp_get, wp_pure]
  cases ht : s.1.tasks[i]? with
  | none => exact hE _
  | some t => exact hQ t ht

theorem keeps_task {i : Nat} : Keeps (fun s => I s.1) (task i : Run σ Task) := fun _ hs =>
  wp_task (fun _ _ => hs) fun _ => hs

theorem keeps_callScheduler {t : Task} : Keeps (fun s => I s.1) (callScheduler algorithm t) := by
  refine keeps_simulator.bind fun self => keeps_ask.bind fun filtered => keeps_ask.bind fun result => ?_
  cases HostPriority.best? result with
  | none => exact keeps_pure
  | some bestNode => exact keeps_liftM.bind fun node => keeps_pure

namespace Invariant

theorem handleNew (h : Invariant algorithm arrives I) {newTasks : List Task}
    (hnew : ∀ t ∈ newTasks, arrives t) :
    Keeps (fun s => I s.1) (ClusterSimulator.handleNew newTasks : Run σ (List Nat)) := by
  induction newTasks with
  | nil => exact keeps_pure
  | cons t newTasks ih =>
    exact (h.handleNewTask t (hnew t List.mem_cons_self)).bind fun _ =>
      (ih fun t' ht' => hnew t' (List.mem_cons_of_mem _ ht')).bind fun _ => keeps_pure

theorem scheduleTasks (h : Invariant algorithm arrives I) {unassignedTasks : List Nat} :
    Keeps (fun s => I s.1) (ClusterSimulator.scheduleTasks algorithm unassignedTasks) := by
  induction unassignedTasks with
  | nil => exact keeps_pure
  | cons i unassignedTasks ih =>
    exact (h.scheduleTask i).bind fun _ => ih.bind fun _ => keeps_pure

theorem assignOrReschedule (h : Invariant algorithm arrives I) {newTasks : List Task}
    {unassignedTasks : List Nat} :
    Keeps (fun s => I s.1)
      (ClusterSimulator.assignOrReschedule algorithm newTasks unassignedTasks) := by
  refine h.scheduleTasks.ite (Keeps.bind (Keeps.doIf ?_) fun _ => keeps_pure)
  exact keeps_simulator.bind fun _ => keeps_ask.bind fun _ => keeps_forM fun name _ => h.unassign name

theorem iterate (h : Invariant algorithm arrives I) {newTasks : List Task}
    (hnew : ∀ t ∈ newTasks, arrives t) :
    Keeps (fun s => I s.1) (ClusterSimulator.iterate algorithm newTasks) := by
  refine (h.handleNew hnew).bind fun newUnassignedTasks => keeps_simulator.bind fun self =>
    h.assignOrReschedule.bind fun _ => Keeps.bind ?_ fun _ => keeps_pure
  exact keeps_modifySimulator h.updateTasksLife

/-- It holds throughout a run. -/
theorem reaches (h : Invariant algorithm arrives I) {start s : ClusterSimulator × σ}
    (hs : Reaches algorithm arrives start s) (h0 : I start.1) : I s.1 := by
  induction hs with
  | start => exact h0
  | returns _ hnew hrun ih => exact (h.iterate hnew _ ih).ok hrun
  | raises _ hnew hrun ih => exact (h.iterate hnew _ ih).error hrun

end Invariant

end Invariant

end ClusterSimulator

/-! ## A small cluster -/

namespace SmallCluster

open ClusterSimulator

/-- A node with three cpus and a memory that reads twice as fast as it writes. -/
def node : Node where
  name := "node_0"
  initial := .ofItems [(CPU, 3), (MEM, 8), (MEMBW_READ, 4), (MEMBW_WRITE, 2)]

def task : Task where
  name := "memcached___0"
  requested := .ofItems [(CPU, 2), (MEM, 3), (MEMBW_READ, 1), (MEMBW_WRITE, 1)]

/-- Every node passes, with the same priority. -/
def anyNode : Algorithm Unit where
  filter := fun _ args => pure { nodeNames := args.nodeNames }
  prioritize := fun _ args => pure (args.nodeNames.map fun host => { host, score := 0 })
  reschedule := fun _ => pure []

end SmallCluster

end Wca.Scheduler
