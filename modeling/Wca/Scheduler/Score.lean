import Wca.Scheduler.Algorithms

/-!
# Score

`Score` prefers PMEM nodes for the apps with a low score, and reschedules tasks between the two
types of nodes.
-/

namespace Wca.Scheduler

open Py ResourceType Resources

def minAppProfiles : Nat := 2

/-- `_get_app_node_type`: the type of node that is best for the app. -/
def getAppNodeType (appsProfile : AppsProfile) (appName : AppName) (scoreTarget : Option ℚ) :
    NodeType :=
  if minAppProfiles < appsProfile.len then
    match scoreTarget.filter (· ≠ 0) with
    | some scoreTarget =>
      if (appsProfile.get? appName).any (· ≤ scoreTarget) then .PMEM else .DRAM
    | none =>
      let sortedAppsProfile := appsProfile.items.mergeSort fun a b => a.2 ≤ b.2
      if sortedAppsProfile.head?.any (·.1 = appName) then .PMEM else .DRAM
  else .DRAM

/-- The fields of a `Score` object. -/
structure Score where
  fit : Fit
  scoreTarget : Option ℚ := none
  strictModePlacement : Bool := false
  threshold : ℚ := 97 / 100
  /-- what the data provider said when the object was made -/
  nodesType : Dict NodeName NodeType

namespace Score

/-- `DramHitRatioProvision.app_fit_node`. -/
def dramHitRatioOk (self : Score) (nodeName : NodeName) : Except Exc (Bool × FailureMessage) := do
  let dramHitRatio ← self.fit.dataProvider.getDramHitRatio nodeName
  if dramHitRatio < self.threshold then
    pure (false, .text "Could not fit node because of dram hit ratio violation.")
  else pure (true, .text "")

def appFitNode (self : Score) (nodeName : NodeName) (appName : AppName)
    (queried : QueryDataProviderInfo) : Except Exc (Bool × FailureMessage) := do
  let fit ← self.fit.appFitNode nodeName appName queried
  let nodeType ← self.nodesType.item nodeName
  let dram ← if nodeType = .PMEM then self.dramHitRatioOk nodeName else pure (true, .text "")
  pure (fit.1 && dram.1, .causes fit.2 dram.2)

/-- `_app_fit_node_type`: the node is of the type that is best for the app. -/
def appFitNodeType (self : Score) (appsProfile : AppsProfile) (appName : AppName)
    (nodeType : NodeType) : Bool :=
  nodeType = getAppNodeType appsProfile appName self.scoreTarget

/-- The nodes of the preferred type. -/
def preferred (self : Score) (nodesType : Dict NodeName NodeType) (appsProfile : AppsProfile)
    (appName : AppName) (nodeNames : List NodeName) : Except Exc (List NodeName) :=
  nodeNames.foldlM (fun fitNodes node => do
    let nodeType ← nodesType.item node
    if self.appFitNodeType appsProfile appName nodeType then pure (fitNodes ++ [node])
    else pure fitNodes) []

def appFitNodes (self : Score) (nodeNames : List NodeName) (appName : AppName)
    (_ : QueryDataProviderInfo) : Except Exc (List NodeName × Dict NodeName FailureMessage) :=
  if nodeNames ≠ [] then do
    let nodesType ← self.fit.dataProvider.getNodesType
    let appsProfile ← self.fit.dataProvider.getAppsProfile
    let fitNodes ← self.preferred nodesType appsProfile appName nodeNames
    -- there are no preferred nodes, and others may be used
    if fitNodes = [] ∧ self.strictModePlacement = false then pure (nodeNames, ∅)
    else pure (fitNodes, ∅)
  else pure ([], ∅)

/-! ## Rescheduling -/

/-- The tasks of apps, by the nodes they are on. -/
abbrev RescheduleApps := Dict AppName (Dict NodeName (List TaskName))

/-- `apps[app][node] = tasks`. -/
def note (apps : RescheduleApps) (app : AppName) (node : NodeName) (tasks : List TaskName) :
    RescheduleApps :=
  apps.set app (((apps.get? app).getD ∅).set node tasks)

/-- The apps on the wrong type of node: those to take off PMEM nodes, and those to consider to take
off DRAM nodes. -/
def misplaced (self : Score) (appsProfile : AppsProfile) (appsOnNode : Dict NodeName Apps) :
    Except Exc (RescheduleApps × RescheduleApps) :=
  appsOnNode.items.foldlM (fun found p => do
    let nodeType ← self.nodesType.item p.1
    pure (p.2.items.foldl (fun found q =>
      if self.appFitNodeType appsProfile q.1 nodeType then found
      else if nodeType = .PMEM then (note found.1 q.1 p.1 q.2, found.2)
      else if nodeType = .DRAM then (found.1, note found.2 q.1 p.1 q.2)
      else found) found)) (∅, ∅)

/-- `get_nodes_used_resources`. -/
def getNodesUsedResources (dimensions : List ResourceType) (appsOnNode : Dict NodeName Apps)
    (appsSpec : Dict AppName Resources) : Except Exc (Dict NodeName Resources) :=
  appsOnNode.comprehendM fun _ apps =>
    usedResourcesOnNode dimensions (apps.map fun _ tasks => tasks.length) appsSpec

/-- The entries of the PMEM nodes. -/
def onPmem {V : Type} (self : Score) (d : Dict NodeName V) : Except Exc (Dict NodeName V) :=
  d.items.foldlM (fun r p => do
    let nodeType ← self.nodesType.item p.1
    pure (if nodeType = .PMEM then r.set p.1 p.2 else r)) ∅

/-- Take a task off its node. -/
def freeTask (app : AppName) (node : NodeName) (appsSpec : Dict AppName Resources)
    (used : Dict NodeName Resources) : Except Exc (Dict NodeName Resources) := do
  let usedOnNode ← used.item node
  let spec ← appsSpec.item app
  let left ← subtractResources usedOnNode spec none
  pure (used.set node left)

/-- Free the PMEM nodes of the tasks that are on the wrong type. The tasks are returned. -/
def freePmem (reschedule : RescheduleApps) (appsSpec : Dict AppName Resources)
    (used : Dict NodeName Resources) : Except Exc (Dict NodeName Resources × List TaskName) :=
  reschedule.items.foldlM (fun acc p => p.2.items.foldlM (fun acc q => do
    if q.1 ∈ acc.1 then q.2.foldlM (fun acc task => do
        let used ← freeTask p.1 q.1 appsSpec acc.1
        pure (used, acc.2 ++ [task])) acc
    else .error (.builtin (.RuntimeError "Capacities of %r not available!"))) acc) (used, [])

/-- The tasks to consider of each app, the apps by their scores. -/
def sortedConsider (appsProfile : AppsProfile) (consider : RescheduleApps) :
    List (AppName × List TaskName) :=
  (appsProfile.items.mergeSort fun a b => a.2 ≤ b.2).filterMap fun p =>
    (consider.get? p.1).map fun nodes => (p.1, nodes.values.flatten.mergeSort (· ≤ ·))

/-- Try a task on a node: where it fits its resources are reserved. -/
def reserve (nodesCapacities : Dict NodeName Resources) (ratios : Dict NodeName (Option ℚ))
    (appsSpec : Dict AppName Resources) (app : AppName) (task : TaskName)
    (acc : Dict NodeName Resources × List TaskName) (node : NodeName) :
    Except Exc (Dict NodeName Resources × List TaskName) := do
  let used ← acc.1.item node
  let spec ← appsSpec.item app
  let requestedAndUsed ← sumResources used spec
  let capacity ← nodesCapacities.item node
  let ratio ← ratios.item node
  let answer ← enoughResourcesOnNode capacity requestedAndUsed ratio
  -- the loop goes on with the next node
  if answer.enough then pure (acc.1.set node requestedAndUsed, acc.2 ++ [task])
  else pure acc

/-- Try a task on all the PMEM nodes. -/
def reserveTask (nodesCapacities : Dict NodeName Resources) (ratios : Dict NodeName (Option ℚ))
    (appsSpec : Dict AppName Resources) (app : AppName)
    (acc : Dict NodeName Resources × List TaskName) (task : TaskName) :
    Except Exc (Dict NodeName Resources × List TaskName) :=
  acc.1.keys.foldlM (reserve nodesCapacities ratios appsSpec app task) acc

/-- `_get_tasks_to_reschedule`. -/
def getTasksToReschedule (self : Score) (reschedule consider : RescheduleApps)
    (appsProfile : AppsProfile) (appsOnNode : Dict NodeName Apps) : Except Exc (List TaskName) :=
  if consider.len = 0 then pure []
  else do
    let dataProvider := self.fit.dataProvider
    let appsSpec ← dataProvider.getAppsRequestedResources self.fit.dimensions
    let appsOnPmemNodes ← self.onPmem appsOnNode
    let used ← getNodesUsedResources self.fit.dimensions appsOnPmemNodes appsSpec
    let freed ← freePmem reschedule appsSpec used
    let nodesCapacities ← dataProvider.getNodesCapacities self.fit.dimensions
    let pmemNodesCapacities ← self.onPmem nodesCapacities
    let ratios ← pmemNodesCapacities.comprehendM fun _ capacities => calculateReadWriteRatio capacities
    let planned ← (sortedConsider appsProfile consider).foldlM (fun acc p =>
      p.2.foldlM (reserveTask nodesCapacities ratios appsSpec p.1) acc) freed
    pure planned.2

def reschedule (self : Score) : Except Exc (List TaskName) := do
  let counts ← self.fit.dataProvider.getAppsCounts
  let appsProfile ← self.fit.dataProvider.getAppsProfile
  let found ← self.misplaced appsProfile counts.1
  self.getTasksToReschedule found.1 found.2 appsProfile counts.1

def algorithm (self : Score) (maxNodeScore : ℚ) : BaseAlgorithm where
  dataProvider := self.fit.dataProvider
  dimensions := self.fit.dimensions
  maxNodeScore := maxNodeScore
  appFitNode := self.appFitNode
  appFitNodes := self.appFitNodes
  priorityForNode := fun _ _ _ => pure 0
  rescheduleTasks := self.reschedule

end Score

end Wca.Scheduler
