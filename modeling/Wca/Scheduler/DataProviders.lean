import Wca.Scheduler.ClusterSimulator

/-!
# What the algorithms know of the cluster

A `DataProvider` answers the queries of an algorithm. `ClusterSimulator.dataProvider` answers from
the state of the simulator.
-/

namespace Wca.Scheduler

open Py

/-- The tasks of each app. -/
abbrev Apps := Dict AppName (List TaskName)

/-- A node is of PMEM or of DRAM, or of whatever else its label says. -/
abbrev NodeType := String

def NodeType.PMEM : NodeType := "pmem"

def NodeType.DRAM : NodeType := "dram"

/-- A score of each app: the lower, the better it is off on PMEM. -/
abbrev AppsProfile := Dict AppName ℚ

structure DataProvider where
  /-- the apps on the nodes, and how many tasks of an app are unassigned -/
  getAppsCounts : Except Exc (Dict NodeName Apps × Dict AppName Nat)
  getNodesCapacities : List ResourceType → Except Exc (Dict NodeName Resources)
  getAppsRequestedResources : List ResourceType → Except Exc (Dict AppName Resources)
  getDramHitRatio : NodeName → Except Exc ℚ
  getNodesType : Except Exc (Dict NodeName NodeType)
  getAppsProfile : Except Exc AppsProfile

/-- What is known of the cluster for one call of an algorithm. -/
structure QueryDataProviderInfo where
  nodesCapacities : Dict NodeName Resources
  assignedApps : Dict NodeName Apps
  appsSpec : Dict AppName Resources
  appsUnassigned : Dict AppName Nat

def queryDataProvider (dataProvider : DataProvider) (dimensions : List ResourceType) :
    Except Exc QueryDataProviderInfo := do
  let counts ← dataProvider.getAppsCounts
  let nodesCapacities ← dataProvider.getNodesCapacities dimensions
  let appsSpec ← dataProvider.getAppsRequestedResources dimensions
  pure { nodesCapacities, assignedApps := counts.1, appsSpec, appsUnassigned := counts.2 }

/-- `{r: data[r] for r in resources}`. -/
def pick (data : Resources) (resources : List ResourceType) : Except Exc Resources :=
  resources.foldlM (fun picked r => do
    let v ← data.item r
    pure (picked.set r v)) ∅

namespace ClusterSimulator

def getNodesCapacities (simulator : ClusterSimulator) (resources : List ResourceType) :
    Except Exc (Dict NodeName Resources) :=
  simulator.nodes.foldlM (fun r node => do
    let capacity ← pick node.initial resources
    pure (r.set node.name capacity)) ∅

/-- Count a task with its app: on its node, or among the unassigned. -/
def countTask (counts : Dict NodeName Apps × Dict AppName Nat) (task : Task) :
    Except Exc (Dict NodeName Apps × Dict AppName Nat) :=
  let appName := task.getCoreName
  match task.assignment with
  | some node => do
    let apps ← counts.1.item node.name
    let tasks := (apps.get? appName).getD []
    pure (counts.1.set node.name (apps.set appName (tasks ++ [task.name])), counts.2)
  | none => pure (counts.1, counts.2.set appName ((counts.2.get? appName).getD 0 + 1))

def getAppsCounts (simulator : ClusterSimulator) :
    Except Exc (Dict NodeName Apps × Dict AppName Nat) :=
  simulator.tasks.foldlM countTask (.ofItems (simulator.nodes.map fun node => (node.name, ∅)), ∅)

def getAppsRequestedResources (simulator : ClusterSimulator) (resources : List ResourceType) :
    Except Exc (Dict AppName Resources) :=
  simulator.tasks.foldlM (fun appsRequested task => do
    let requested ← pick task.requested resources
    pure (appsRequested.set task.getCoreName requested)) ∅

/-- The answers from the state of the simulator. The profiles and the types of the nodes are up to
the scores that are tried. -/
def dataProvider (getNodesType : ClusterSimulator → Except Exc (Dict NodeName NodeType))
    (getAppsProfile : ClusterSimulator → Except Exc AppsProfile) (simulator : ClusterSimulator) :
    DataProvider where
  getAppsCounts := simulator.getAppsCounts
  getNodesCapacities := simulator.getNodesCapacities
  getAppsRequestedResources := simulator.getAppsRequestedResources
  getDramHitRatio := fun _ => pure 1
  getNodesType := getNodesType simulator
  getAppsProfile := getAppsProfile simulator

end ClusterSimulator

end Wca.Scheduler
