import Wca.Platforms
import Wca.Allocators
import Wca.Py.Sort

/-!
# `NUMAAllocator`

The allocator that pins one task at a time to a NUMA node. A task is pinned when its cpus are those
of a node. The amounts of memory and the preferences are exact; what it says in metrics and logs is
left out, apart from the measurement it reads for them.
-/

namespace Wca

open Py

abbrev NumaNodeId := ℤ

/-- The measurements of a task that the allocator reads. -/
structure TaskMeasurements where
  memLimitBytes : Option ℚ := none
  memSoftLimitBytes : Option ℚ := none
  memMaxUsageBytes : Option ℚ := none
  memUsageBytes : Option ℚ := none
  memNumaPages : Option (Dict NumaNodeId ℚ) := none

structure TaskData where
  measurements : TaskMeasurements
  allocations : TaskAllocations
  /-- the memory in `resources` -/
  mem : Option ℚ

abbrev TasksData := Dict TaskId TaskData

/-- A platform with the memory of its nodes. -/
structure MeasuredPlatform extends Platform where
  memNumaFreeBytes : Dict NumaNodeId ℚ
  memNumaUsedBytes : Dict NumaNodeId ℚ

/-- What is left to the library and the interpreter: the logarithms as the floats they come out as,
and the element of a set that comes first. -/
structure Runtime where
  log1p : ℚ → ℚ
  log10 : ℚ → ℚ
  first : Finset NumaNodeId → NumaNodeId
  first_mem : ∀ s ≠ ∅, first s ∈ s

inductive NUMAAlgorithm where
  | FILL_BIGGEST_FIRST
  | MINIMIZE_MIGRATIONS
  deriving DecidableEq

structure NUMAAllocator where
  algorithm : NUMAAlgorithm := .FILL_BIGGEST_FIRST
  loopMinTaskBalance : ℚ := 0
  freeSpaceCheck : Bool := false
  migratePages : Bool := true
  migratePagesMinTaskBalance : Option ℚ := some (95 / 100)
  cgroupsMemoryBinding : Bool := false
  cgroupsMemoryMigrate : Bool := false
  dryrun : Bool := false

abbrev Preferences := Dict NumaNodeId ℚ

abbrev BalancedMemory := Dict NumaNodeId (List (TaskId × ℚ))

/-- The pages moved for each task so far. -/
abbrev PagesToMove := Dict TaskId ℚ

structure TaskMemory where
  task : TaskId
  memoryLimit : ℚ
  preferences : Preferences

/-! ## The state of the system -/

def getPlatformTotalMemory (platform : MeasuredPlatform) : ℚ :=
  platform.memNumaFreeBytes.values.sum + platform.memNumaUsedBytes.values.sum

/-- The measurements that may tell the limit, the first that is there and no more than there is
memory. -/
def limitsOrder (m : TaskMeasurements) : List ℚ :=
  [m.memLimitBytes, m.memSoftLimitBytes, m.memMaxUsageBytes, m.memUsageBytes].filterMap id

def getTaskMemoryLimit (data : TaskData) (totalMemory : ℚ) : ℚ :=
  match data.mem with
  | some mem => mem
  | none => ((limitsOrder data.measurements).find? fun limit => limit ≤ totalMemory).getD 0

def getNumaNodePreferences (m : TaskMeasurements) (numaNodes : ℕ) : Preferences :=
  let ret := Dict.ofItems
    ((List.range numaNodes).map fun (nodeId : ℕ) => ((nodeId : NumaNodeId), (0 : ℚ)))
  match m.memNumaPages with
  | none => ret
  | some pages => pages.items.foldl (fun ret p =>
      ret.set p.1 (roundTo 4 (p.2 / max 1 pages.values.sum))) ret

def buildTasksMemory (tasksData : TasksData) (platform : MeasuredPlatform) : List TaskMemory :=
  sortedByDesc TaskMemory.memoryLimit <| tasksData.items.map fun item => {
    task := item.1
    memoryLimit := getTaskMemoryLimit item.2 (getPlatformTotalMemory platform)
    preferences := getNumaNodePreferences item.2.measurements platform.numaNodes }

/-- The text of the cpus that are assigned. -/
def cpusetCpus (allocations : TaskAllocations) : Except Exn String := do
  match ← allocations.item .CPUSET_CPUS with
  | .str text => pure text
  | _ => throw (.AttributeError "object has no attribute 'strip'")

/-- The first node with just the cpus that are assigned, or `-1`. -/
def getCurrentNode (allocations : TaskAllocations) (platform : MeasuredPlatform) :
    Except Exn NumaNodeId := do
  let text ← cpusetCpus allocations
  let cpusAssigned ← decodeListformat text
  pure (((platform.nodeCpus.items.find? fun p => p.2.toFinset = cpusAssigned).map Prod.fst).getD (-1))

def isTaskPinned (currentNode : NumaNodeId) : Bool := 0 ≤ currentNode

def isGhostTask (memory : ℚ) : Bool := memory = 0

/-- The pinned tasks of each node, with their limits. -/
def buildBalancedMemory (tasksMemory : List TaskMemory) (tasksData : TasksData)
    (platform : MeasuredPlatform) : Except Exn BalancedMemory :=
  tasksMemory.foldlM (fun balancedMemory t => do
    let data ← tasksData.item t.task
    let currentNode ← getCurrentNode data.allocations platform
    if 0 ≤ currentNode then do
      let tasks ← balancedMemory.item currentNode
      pure (balancedMemory.set currentNode (tasks ++ [(t.task, t.memoryLimit)]))
    else pure balancedMemory)
    (Dict.ofItems ((List.range platform.numaNodes).map fun (node : ℕ) => ((node : NumaNodeId), [])))

/-- The sum of the limits on a node. -/
def pinnedMemory (tasks : List (TaskId × ℚ)) : ℚ := (tasks.map Prod.snd).sum

def numaPages (m : TaskMeasurements) : Except Exn (Dict NumaNodeId ℚ) :=
  match m.memNumaPages with
  | some pages => pure pages
  | none => throw .KeyError

def getPagesToMove (task : TaskId) (tasksData : TasksData) (targetNode : NumaNodeId) :
    Except Exn ℚ := do
  let data ← tasksData.item task
  let pages ← numaPages data.measurements
  pure ((pages.items.filter fun p => p.1 ≠ targetNode).map Prod.snd).sum

/-! ## Choosing a node -/

/-- The key of the first of sorted items. -/
def firstNode (l : List (NumaNodeId × ℚ)) : Except Exn NumaNodeId :=
  match l with
  | [] => throw (.IndexError "list index out of range")
  | p :: _ => pure p.1

/-- The keys of the items that have the value of the first one. -/
def firstNodes (l : List (NumaNodeId × ℚ)) : Except Exn (Finset NumaNodeId) :=
  match l with
  | [] => throw (.IndexError "list index out of range")
  | p :: _ => pure (((l.filter fun q => q.2 = p.2).map Prod.fst).toFinset)

def getBestMemoryNode (memoryLimit : ℚ) (balancedMemory : BalancedMemory) :
    Except Exn NumaNodeId := do
  let nodesScores ← balancedMemory.comprehendM fun _ tasks => do
    let score ← ratTruediv memoryLimit (pinnedMemory tasks + memoryLimit)
    pure (roundTo 4 score)
  firstNode (sortedByDesc Prod.snd nodesScores.items)

def getMostUsedNode (preferences : Preferences) : Except Exn NumaNodeId :=
  firstNode (sortedByDesc Prod.snd preferences.items)

def getLeastUsedNode (platform : MeasuredPlatform) : Except Exn NumaNodeId :=
  firstNode (sortedByDesc Prod.snd platform.memNumaFreeBytes.items)

section Runtime

variable (runtime : Runtime)

/-- `math.log1p(x)`. -/
def mathLog1p (x : ℚ) : Except Exn ℚ :=
  if x ≤ -1 then throw (.ValueError "math domain error") else pure (runtime.log1p x)

/-- `math.log10(x)`. -/
def mathLog10 (x : ℚ) : Except Exn ℚ :=
  if x ≤ 0 then throw (.ValueError "math domain error") else pure (runtime.log10 x)

def getMostUsedNodes (preferences : Preferences) : Except Exn (Finset NumaNodeId) := do
  let d ← preferences.comprehendM fun _ preference => do
    let x ← mathLog1p runtime (preference * 1000)
    pure (roundHalfEven x : ℚ)
  firstNodes (sortedByDesc Prod.snd d.items)

def getBestMemoryNodes (memoryLimit : ℚ) (balancedMemory : BalancedMemory) :
    Except Exn (Finset NumaNodeId) := do
  let d ← balancedMemory.comprehendM fun _ tasks => do
    let x ← mathLog10 runtime (pinnedMemory tasks + memoryLimit)
    pure (roundTo 1 x)
  firstNodes (sortedBy Prod.snd d.items)

/-- The nodes the task does not fit into are not considered, so there may be none. -/
def getMostFreeMemoryNodes (memoryLimit : ℚ) (nodeMemoryFree : Dict NumaNodeId ℚ) :
    Except Exn (Finset NumaNodeId) := do
  let d ← (nodeMemoryFree.items.filter fun p => ¬ p.2 ≤ memoryLimit).mapM fun p => do
    let x ← mathLog10 runtime (p.2 - memoryLimit)
    pure (p.1, roundTo 1 x)
  if d = [] then pure ∅ else firstNodes (sortedByDesc Prod.snd d)

def migrationMinimizerCore (task : TaskId)
    (mostUsedNodes bestMemoryNodes mostFreeMemoryNodes : Finset NumaNodeId) :
    Option (TaskId × NumaNodeId) :=
  if mostUsedNodes ∩ bestMemoryNodes ≠ ∅ then
    some (task, runtime.first (mostUsedNodes ∩ bestMemoryNodes))
  else if mostUsedNodes ∩ mostFreeMemoryNodes ≠ ∅ then
    some (task, runtime.first (mostUsedNodes ∩ mostFreeMemoryNodes))
  else if bestMemoryNodes ∩ mostFreeMemoryNodes ≠ ∅ then
    some (task, runtime.first (bestMemoryNodes ∩ mostFreeMemoryNodes))
  else none

end Runtime

def pagesToBytes (pages : ℚ) : ℚ := 4096 * pages

def isEnoughMemoryOnTarget (memoryLimit : ℚ) (targetNode : NumaNodeId)
    (platform : MeasuredPlatform) (m : TaskMeasurements) : Except Exn Bool := do
  let taskNumaStat ← numaPages m
  let pages ← taskNumaStat.item targetNode
  let platformFreeMemory ← platform.memNumaFreeBytes.item targetNode
  pure (memoryLimit - pagesToBytes pages < platformFreeMemory)

namespace NUMAAllocator

variable (self : NUMAAllocator) (runtime : Runtime)

def migrationMinimizer (t : TaskMemory) (balancedMemory : BalancedMemory)
    (platform : MeasuredPlatform) : Except Exn (Option (TaskId × NumaNodeId)) := do
  let mostUsedNodes ← getMostUsedNodes runtime t.preferences
  let bestMemoryNodes ← getBestMemoryNodes runtime t.memoryLimit balancedMemory
  let mostFreeMemoryNodes ←
    getMostFreeMemoryNodes runtime t.memoryLimit platform.memNumaFreeBytes
  let mostUsedNode ← getMostUsedNode t.preferences
  let preference ← t.preferences.item mostUsedNode
  if preference < self.loopMinTaskBalance then pure none
  else pure (migrationMinimizerCore runtime t.task mostUsedNodes bestMemoryNodes mostFreeMemoryNodes)

def fillBiggestFirst (t : TaskMemory) (balancedMemory : BalancedMemory) :
    Except Exn (Option (TaskId × NumaNodeId)) := do
  let node ← getBestMemoryNode t.memoryLimit balancedMemory
  pure (some (t.task, node))

/-- What the algorithm says of a task, before the check of the free space. -/
def choose (t : TaskMemory) (balancedMemory : BalancedMemory) (platform : MeasuredPlatform) :
    Except Exn (Option (TaskId × NumaNodeId)) :=
  match self.algorithm with
  | .MINIMIZE_MIGRATIONS => self.migrationMinimizer runtime t balancedMemory platform
  | .FILL_BIGGEST_FIRST => fillBiggestFirst t balancedMemory

/-- A task that has been chosen, if the free space need not be checked or is enough. -/
def checkFreeSpace (t : TaskMemory) (data : TaskData) (platform : MeasuredPlatform)
    (chosen : Option (TaskId × NumaNodeId)) : Except Exn (Option (TaskId × NumaNodeId)) :=
  match chosen with
  | none => pure none
  | some (task, node) =>
    if self.freeSpaceCheck then do
      let enough ← isEnoughMemoryOnTarget t.memoryLimit node platform data.measurements
      pure (if enough then some (task, node) else none)
    else pure (some (task, node))

/-- The body of the loop over the tasks: the first task that is chosen is kept. -/
def analyse (tasksData : TasksData) (balancedMemory : BalancedMemory) (platform : MeasuredPlatform)
    (balance : Option (TaskId × NumaNodeId)) (t : TaskMemory) :
    Except Exn (Option (TaskId × NumaNodeId)) := do
  let data ← tasksData.item t.task
  let currentNode ← getCurrentNode data.allocations platform
  -- the measurement is read for the log
  let _ ← numaPages data.measurements
  if isTaskPinned currentNode ∨ isGhostTask t.memoryLimit then pure balance
  else if balance.isSome then pure balance
  else do
    let chosen ← self.choose runtime t balancedMemory platform
    self.checkFreeSpace t data platform chosen

/-! ## Allocating -/

/-- `self._pages_to_move[task] += pages` -/
def addPagesToMove (pagesToMove : PagesToMove) (task : TaskId) (pages : ℚ) :
    Except Exn PagesToMove := do
  let moved ← pagesToMove.item task
  pure (pagesToMove.set task (moved + pages))

/-- The cpus of the node and, with memory binding, the node. -/
def bindTask (node : NumaNodeId) (cpus : List ℤ) : Except Exn TaskAllocations :=
  let allocations := (∅ : TaskAllocations).set .CPUSET_CPUS (.str (encodeListformat cpus.toFinset))
  if self.cgroupsMemoryBinding then
    -- the attribute is read as `CPUSET_MEM_MIGRATE`, which the enumeration does not have
    if self.cgroupsMemoryMigrate then throw (.AttributeError "CPUSET_MEM_MIGRATE")
    else pure (allocations.set .CPUSET_MEMS (.str (encodeListformat {node})))
  else pure allocations

def allocateTask (task : TaskId) (node : NumaNodeId) (tasksData : TasksData)
    (platform : MeasuredPlatform) (pagesToMove : PagesToMove) :
    Except Exn (TasksAllocations × PagesToMove) := do
  let cpus ← platform.nodeCpus.item node
  let allocations ← self.bindTask node cpus
  if self.migratePages then do
    let pages ← getPagesToMove task tasksData node
    let pagesToMove ← addPagesToMove pagesToMove task pages
    pure ((∅ : TasksAllocations).set task (allocations.set .MIGRATE_PAGES (.num (.int node))),
      pagesToMove)
  else pure ((∅ : TasksAllocations).set task allocations, pagesToMove)

/-- The pinned tasks with too little of their memory on their node, with the node. -/
def tasksToBalance (minTaskBalance : ℚ) (tasksData : TasksData) (tasksMemory : List TaskMemory)
    (platform : MeasuredPlatform) : Except Exn (List (TaskId × NumaNodeId)) :=
  tasksMemory.foldlM (fun tasks t => do
    let data ← tasksData.item t.task
    let currentNode ← getCurrentNode data.allocations platform
    if 0 ≤ currentNode then do
      let preference ← t.preferences.item currentNode
      pure (if preference < minTaskBalance then tasks ++ [(t.task, currentNode)] else tasks)
    else pure tasks) []

/-- The pages of the unbalanced tasks are moved to their node when it is the least used one. -/
def remigratePagesOfUnbalancedTasks (minTaskBalance : ℚ) (tasksData : TasksData)
    (tasksMemory : List TaskMemory) (platform : MeasuredPlatform)
    (s : TasksAllocations × PagesToMove) : Except Exn (TasksAllocations × PagesToMove) := do
  let tasks ← tasksToBalance minTaskBalance tasksData tasksMemory platform
  let leastUsedNode ← getLeastUsedNode platform
  tasks.foldlM (fun s p =>
    if p.2 = leastUsedNode then do
      let pages ← getPagesToMove p.1 tasksData p.2
      let pagesToMove ← addPagesToMove s.2 p.1 pages
      let allocations := (s.1.get? p.1).getD ∅
      pure (s.1.set p.1 (allocations.set .MIGRATE_PAGES (.num (.int p.2))), pagesToMove)
    else pure s) s

/-- `setdefault(task, 0)` for the tasks there are; the others are forgotten. -/
def updatePagesToMove (tasksData : TasksData) (tasksMemory : List TaskMemory)
    (pagesToMove : PagesToMove) : PagesToMove :=
  let pagesToMove := tasksMemory.foldl (fun pagesToMove t =>
    if t.task ∈ pagesToMove then pagesToMove else pagesToMove.set t.task 0) pagesToMove
  pagesToMove.items.foldl (fun kept p =>
    if p.1 ∈ tasksData then kept else kept.erase p.1) pagesToMove

/-- The allocations of the task that was chosen, if one was. -/
def allocateChosen (balance : Option (TaskId × NumaNodeId)) (tasksData : TasksData)
    (platform : MeasuredPlatform) (pagesToMove : PagesToMove) :
    Except Exn (TasksAllocations × PagesToMove) :=
  match balance with
  | none => pure (∅, pagesToMove)
  | some (task, node) => self.allocateTask task node tasksData platform pagesToMove

def remigratePages (tasksData : TasksData) (tasksMemory : List TaskMemory)
    (platform : MeasuredPlatform) (s : TasksAllocations × PagesToMove) :
    Except Exn (TasksAllocations × PagesToMove) :=
  match self.migratePages, self.migratePagesMinTaskBalance with
  | true, some minTaskBalance =>
    remigratePagesOfUnbalancedTasks minTaskBalance tasksData tasksMemory platform s
  | _, _ => pure s

def allocate (platform : MeasuredPlatform) (tasksData : TasksData) (pagesToMove : PagesToMove) :
    Except Exn (TasksAllocations × PagesToMove) := do
  let tasksMemory := buildTasksMemory tasksData platform
  let balancedMemory ← buildBalancedMemory tasksMemory tasksData platform
  if self.dryrun then pure (∅, pagesToMove)
  else do
    let balance ←
      tasksMemory.foldlM (self.analyse runtime tasksData balancedMemory platform) none
    let pagesToMove := updatePagesToMove tasksData tasksMemory pagesToMove
    let allocated ← self.allocateChosen balance tasksData platform pagesToMove
    self.remigratePages tasksData tasksMemory platform allocated

end NUMAAllocator

end Wca
