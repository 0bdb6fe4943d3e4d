import Wca.Scheduler.Algorithms

/-!
# HierBAR

`HierBAR` groups the nodes by the shape of their capacities, and of the nodes that passed the first
pass it keeps those in the best of the groups that has any.
-/

namespace Wca.Scheduler

open Py ResourceType Resources

/-- The average of the resources: their sum, divided by how many there are. -/
def calcAverageResources (listOfResources : List Resources) : Except Exc Resources :=
  match listOfResources with
  | [] => pure ∅
  | first :: rest => do
    let sumOfResources ← rest.foldlM sumResources first
    divideResources sumOfResources (sumOfResources.map fun _ _ => listOfResources.length) none

/-- Resources in whole units, in the order of the dimensions' names. -/
abbrev Shape := List (ResourceType × ℤ)

/-- The dimensions in the order of their names. -/
def dimensionsInOrder : List ResourceType := [CPU, MEM, MEMBW, MEMBW_FLAT, MEMBW_READ, MEMBW_WRITE, WSS]

def resourcesToShape (resources : Resources) : Shape :=
  dimensionsInOrder.filterMap fun d => (resources.get? d).map fun v => (d, v.num.tdiv v.den)

/-- `dict(shape)`. -/
def shapeResources (shape : Shape) : Resources := .ofItems (shape.map fun p => (p.1, (p.2 : ℚ)))

def createShapesFromNodes (nodeCapacities : Dict NodeName Resources) : Dict NodeName Shape :=
  nodeCapacities.map fun _ nodeCapacity => resourcesToShape nodeCapacity

def reverseNodeShapes (nodeShapes : Dict NodeName Shape) : Dict Shape (List NodeName) :=
  nodeShapes.items.foldl (fun shapesToNodes p =>
    shapesToNodes.set p.2 ((shapesToNodes.get? p.2).getD [] ++ [p.1])) ∅

/-- One new shape in place of several: that of the average of their nodes. -/
def createNewShape (shapesToNodes : Dict Shape (List NodeName)) (nodeCapacities : Dict NodeName Resources)
    (shapes : List Shape) : Except Exc (Shape × List NodeName) := do
  let names ← shapes.mapM fun shape => (shapesToNodes.item shape : Except Exc (List NodeName))
  let nodes ← names.flatten.mapM fun n => (nodeCapacities.item n : Except Exc Resources)
  let avgResources ← calcAverageResources nodes
  pure (resourcesToShape avgResources, names.flatten)

/-- Merge the shapes into two, by their ratio of reads to writes. -/
def mergeShapes (mergeThreshold : ℚ) (nodeCapacities : Dict NodeName Resources)
    (shapesToNodes : Dict Shape (List NodeName)) : Except Exc (Dict Shape (List NodeName)) :=
  if shapesToNodes.len < 2 then pure shapesToNodes
  else do
    let ratios ← shapesToNodes.keys.mapM fun shape => do
      let ratio ← calculateReadWriteRatio (shapeResources shape)
      pure (shape, ratio)
    -- a shape without the two bandwidths is ignored
    let aboveShapes := ratios.filterMap fun p => if p.2.any (mergeThreshold < ·) then some p.1 else none
    let belowShapes := ratios.filterMap fun p => if p.2.any (· ≤ mergeThreshold) then some p.1 else none
    let above ← createNewShape shapesToNodes nodeCapacities aboveShapes
    let below ← createNewShape shapesToNodes nodeCapacities belowShapes
    let newShapes : Dict Shape (List NodeName) := if above.1 ≠ [] then Dict.set ∅ above.1 above.2 else ∅
    pure (if below.1 ≠ [] then newShapes.set below.1 below.2 else newShapes)

/-- The variance of a sample, of which `statistics.stdev` is the root. -/
def variance (values : List ℚ) : Except Exc ℚ :=
  if values.length < 2 then
    .error (.builtin (.ValueError "variance requires at least two data points"))
  else
    let mean := values.sum / values.length
    .ok ((values.map fun v => (v - mean) * (v - mean)).sum / (values.length - 1))

/-- How unevenly the request takes of each class of nodes. The variances stand for their roots: they
are in the same order. -/
def calculateClassVariances (nodeCapacities : Dict NodeName Resources) (requested : Resources)
    (shapesToNodes : Dict Shape (List NodeName)) : Except Exc (Dict Shape ℚ) :=
  shapesToNodes.comprehendM fun _ nodeNamesOfThisShape => do
    let capacities ← nodeNamesOfThisShape.mapM fun n => (nodeCapacities.item n : Except Exc Resources)
    let averaged ← calcAverageResources capacities
    let ratio ← calculateReadWriteRatio averaged
    let fraction ← divideResources requested averaged ratio
    variance fraction.values

/-- The first class, of the sorted ones, that has any of the nodes: its variance and those nodes. -/
def chooseClass (nodeNames : List NodeName) (shapesToNodes : Dict Shape (List NodeName)) :
    List (Shape × ℚ) → Except Exc (ℚ × List NodeName)
  | [] => .error (.builtin (.AssertionError "Last class has to match!"))
  | (classShape, classVariance) :: rest => do
    let best ← shapesToNodes.item classShape
    -- a set, of which the order is not specified
    let accepted := (nodeNames.filter (· ∈ best)).dedup
    if accepted ≠ [] then pure (classVariance, accepted)
    else chooseClass nodeNames shapesToNodes rest

/-- The fields of a `HierBAR` object. -/
structure HierBAR where
  fit : Fit
  mergeThreshold : Option ℚ

namespace HierBAR

/-- The classes of the nodes, and the class of each node. -/
def classes (self : HierBAR) (nodeCapacities : Dict NodeName Resources) :
    Except Exc (Dict Shape (List NodeName) × Dict NodeName Shape) := do
  let nodeShapes := createShapesFromNodes nodeCapacities
  let shapesToNodes := reverseNodeShapes nodeShapes
  match self.mergeThreshold with
  | none => pure (shapesToNodes, nodeShapes)
  | some mergeThreshold => do
    let shapesToNodes ← mergeShapes mergeThreshold nodeCapacities shapesToNodes
    pure (shapesToNodes, .ofItems (shapesToNodes.items.flatMap fun p => p.2.map fun node => (node, p.1)))

/-- Every node that was not accepted, with the variance of its class. -/
def failNodes (classVariances : Dict Shape ℚ) (nodeShapes : Dict NodeName Shape) (matching : ℚ)
    (failedNames : List NodeName) : Except Exc (Dict NodeName FailureMessage) :=
  failedNames.foldlM (fun failed failedNodeName => do
    let shape ← nodeShapes.item failedNodeName
    let failedNodeVariance ← classVariances.item shape
    pure (failed.set failedNodeName (.notBestClass matching failedNodeVariance))) ∅

def appFitNodes (self : HierBAR) (nodeNames : List NodeName) (appName : AppName)
    (queried : QueryDataProviderInfo) :
    Except Exc (List NodeName × Dict NodeName FailureMessage) := do
  let classes ← self.classes queried.nodesCapacities
  let requested ← queried.appsSpec.item appName
  let classVariances ← calculateClassVariances queried.nodesCapacities requested classes.1
  let sorted := classVariances.items.mergeSort fun a b => a.2 ≤ b.2
  let chosen ← chooseClass nodeNames classes.1 sorted
  let failedNames := nodeNames.filter (· ∉ chosen.2)
  let failed ← failNodes classVariances classes.2 chosen.1 failedNames
  pure (chosen.2, failed)

def algorithm (self : HierBAR) (maxNodeScore : ℚ)
    (priorityForNode : NodeName → AppName → QueryDataProviderInfo → Except Exc ℚ) :
    BaseAlgorithm :=
  { self.fit.algorithm maxNodeScore priorityForNode with appFitNodes := self.appFitNodes }

/-- What is accepted was offered. -/
theorem chooseClass_ok {nodeNames : List NodeName} {shapesToNodes : Dict Shape (List NodeName)}
    {sorted : List (Shape × ℚ)} {chosen : ℚ × List NodeName}
    (h : chooseClass nodeNames shapesToNodes sorted = .ok chosen) :
    ∀ name ∈ chosen.2, name ∈ nodeNames := by
  induction sorted with
  | nil => cases h
  | cons p rest ih =>
    obtain ⟨classShape, classVariance⟩ := p
    obtain ⟨best, -, h⟩ := except_bind_ok_iff.mp h
    dsimp only at h
    split at h
    · cases h
      exact fun name hname => (List.mem_filter.mp (List.mem_dedup.mp hname)).1
    · exact ih h

theorem failNodes_ok {classVariances : Dict Shape ℚ} {nodeShapes : Dict NodeName Shape} {matching : ℚ}
    {failedNames : List NodeName} {failed : Dict NodeName FailureMessage}
    (h : failNodes classVariances nodeShapes matching failedNames = .ok failed) :
    ∀ name, name ∈ failed ↔ name ∈ failedNames := by
  refine except_foldlM_ok (I := fun pre (failed : Dict NodeName FailureMessage) =>
    ∀ name, name ∈ failed ↔ name ∈ pre) h (fun name => ?_) ?_
  · exact ⟨fun hin => (nomatch hin), fun hin => (nomatch hin)⟩
  · intro pre a post failed failed' _ hI hstep name
    obtain ⟨shape, -, hstep⟩ := except_bind_ok_iff.mp hstep
    obtain ⟨thisVariance, -, hstep⟩ := except_bind_ok_iff.mp hstep
    cases hstep
    rw [Dict.mem_def, Dict.mem_keys_set, ← Dict.mem_def, hI, List.mem_append, List.mem_singleton,
      or_comm]

/-- The nodes are divided into those of one class and the failed ones. -/
theorem appFitNodes_ok {self : HierBAR} {nodeNames : List NodeName} {appName : AppName}
    {queried : QueryDataProviderInfo} {r : List NodeName × Dict NodeName FailureMessage}
    (h : self.appFitNodes nodeNames appName queried = .ok r) :
    (∀ name ∈ r.1, name ∈ nodeNames) ∧ ∀ name, name ∈ r.2 ↔ name ∈ nodeNames ∧ name ∉ r.1 := by
  obtain ⟨classes, -, h⟩ := except_bind_ok_iff.mp h
  obtain ⟨requested, -, h⟩ := except_bind_ok_iff.mp h
  obtain ⟨classVariances, -, h⟩ := except_bind_ok_iff.mp h
  obtain ⟨chosen, hchosen, h⟩ := except_bind_ok_iff.mp h
  obtain ⟨failed, hfailed, h⟩ := except_bind_ok_iff.mp h
  cases h
  refine ⟨chooseClass_ok hchosen, fun name => ?_⟩
  rw [failNodes_ok hfailed, List.mem_filter, decide_eq_true_eq]

end HierBAR

end Wca.Scheduler
