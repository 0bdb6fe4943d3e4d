import Wca.Scheduler.DataProviders

/-!
# The algorithms

The arithmetic on resources that the algorithms share, `Fit`, and the two passes of
`BaseAlgorithm.filter`. A class of algorithms is a value of `BaseAlgorithm`: its methods, with the
fields of the object in them.
-/

namespace Wca.Scheduler

open Py ResourceType Resources

/-! ## Arithmetic on resources -/

/-- Add what so many tasks of an app request. -/
def addApp (dimensions : List ResourceType) (appsSpec : Dict AppName Resources) (used : Resources)
    (app : AppName × Nat) : Except Exc Resources :=
  dimensions.foldlM (fun used dim => do
    let spec ← appsSpec.item app.1
    let requested ← spec.item dim
    let sofar ← used.item dim
    pure (used.set dim (sofar + requested * app.2))) used

/-- What the apps use, by how many tasks there are of each. -/
def usedResourcesOnNode (dimensions : List ResourceType) (assignedAppsCounts : Dict AppName Nat)
    (appsSpec : Dict AppName Resources) : Except Exc Resources :=
  assignedAppsCounts.items.foldlM (addApp dimensions appsSpec)
    (.ofItems (dimensions.map fun dim => (dim, 0)))

/-- `_check_keys`. -/
def checkKeys (a b : Resources) : Except Exc Unit :=
  if SameKeys a b then .ok ()
  else .error (.builtin (.ValueError "the same dimensions must be provided for both resources"))

theorem checkKeys_ok_iff {a b : Resources} {u : Unit} : checkKeys a b = .ok u ↔ SameKeys a b := by
  unfold checkKeys
  split <;> simp_all

def sumResources (a b : Resources) : Except Exc Resources := do
  checkKeys a b
  pure (a.map fun resource v => v + b.amount resource)

def subtractResources (a b : Resources) (membwReadWriteRatio : Option ℚ) : Except Exc Resources := do
  checkKeys a b
  match membwReadWriteRatio with
  | none => pure (a.map fun dimension v => v - b.amount dimension)
  | some ratio =>
    let c := a.subtractOthers b
    if MEMBW_READ ∈ a then do
      assert (MEMBW_WRITE ∈ a) ""
      let readInWrites ← truediv (b.amount MEMBW_READ) ratio
      let read := a.amount MEMBW_READ - (b.amount MEMBW_READ + b.amount MEMBW_WRITE * ratio)
      let write := a.amount MEMBW_WRITE - (b.amount MEMBW_WRITE + readInWrites)
      pure ((c.set MEMBW_READ read).set MEMBW_WRITE write)
    else pure c

def calculateReadWriteRatio (capacity : Resources) : Except Exc (Option ℚ) :=
  if MEMBW_READ ∈ capacity then do
    assert (MEMBW_WRITE ∈ capacity) ""
    let ratio ← truediv (capacity.amount MEMBW_READ) (capacity.amount MEMBW_WRITE)
    pure (some ratio)
  else pure none

/-- Replace reads and writes by what both take together. -/
def flatMembwReadWrite (a : Resources) (membwReadWriteRatio : ℚ) : Except Exc Resources :=
  if MEMBW_READ ∈ a then do
    assert (MEMBW_WRITE ∈ a) ""
    let b : Resources := (a.erase MEMBW_READ).erase MEMBW_WRITE
    pure (b.set MEMBW_FLAT (a.amount MEMBW_READ + membwReadWriteRatio * a.amount MEMBW_WRITE))
  else pure a

def divideResources (a b : Resources) (membwReadWriteRatio : Option ℚ) : Except Exc Resources := do
  assert (SameKeys a b) "the same dimensions must be provided for both resources"
  let flat (r : Resources) : Except Exc Resources :=
    match membwReadWriteRatio with
    | some ratio => flatMembwReadWrite r ratio
    | none => pure r
  let a ← flat a
  let b ← flat b
  a.comprehendM fun dimension v => truediv v (b.amount dimension)

/-- What is used, free, requested and there at all, in the context of a node and an app. -/
structure NodeUsage where
  used : Resources
  free : Resources
  requested : Resources
  capacity : Resources
  membwReadWriteRatio : Option ℚ

def usedFreeRequested (nodeName : NodeName) (appName : AppName) (dimensions : List ResourceType)
    (nodesCapacities : Dict NodeName Resources) (assignedApps : Dict NodeName Apps)
    (appsSpec : Dict AppName Resources) : Except Exc NodeUsage := do
  let capacity ← nodesCapacities.item nodeName
  let membwReadWriteRatio ← calculateReadWriteRatio capacity
  let apps ← assignedApps.item nodeName
  let used ← usedResourcesOnNode dimensions (apps.map fun _ tasks => tasks.length) appsSpec
  let requested ← appsSpec.item appName
  let free ← subtractResources capacity used membwReadWriteRatio
  pure { used, free, requested, capacity, membwReadWriteRatio }

/-- The answer to a capacity check: what is missing in the broken dimensions, and what is left. -/
structure Enough where
  enough : Bool
  brokenCapacities : Resources
  free : Resources

def brokenCapacities (free : Resources) : Resources where
  items := (free.items.filter fun p => p.2 < 0).map fun p => (p.1, |p.2|)
  nodup := by
    rw [List.map_map]
    exact free.nodup.sublist ((List.filter_sublist).map _)

def enoughResourcesOnNode (capacity used : Resources) (membwReadWriteRatio : Option ℚ) :
    Except Exc Enough := do
  let free ← subtractResources capacity used membwReadWriteRatio
  let broken := brokenCapacities free
  pure { enough := broken.items.isEmpty, brokenCapacities := broken, free }

def appFits (nodeName : NodeName) (appName : AppName) (dimensions : List ResourceType)
    (nodesCapacities : Dict NodeName Resources) (assignedApps : Dict NodeName Apps)
    (appsSpec : Dict AppName Resources) : Except Exc (Bool × FailureMessage) := do
  let usage ← usedFreeRequested nodeName appName dimensions nodesCapacities assignedApps appsSpec
  let requestedAndUsed ←
    (sumResources usage.requested usage.used).mapError fun _ => .DataMissingException
  let fits ← enoughResourcesOnNode usage.capacity requestedAndUsed usage.membwReadWriteRatio
  pure (fits.enough, if fits.enough then .text "" else .couldNotFit fits.brokenCapacities)

/-! ## The classes -/

/-- An algorithm object, by what its class makes of the methods. -/
structure BaseAlgorithm where
  dataProvider : DataProvider
  dimensions : List ResourceType
  maxNodeScore : ℚ := 10
  appFitNode : NodeName → AppName → QueryDataProviderInfo → Except Exc (Bool × FailureMessage)
  appFitNodes : List NodeName → AppName → QueryDataProviderInfo →
    Except Exc (List NodeName × Dict NodeName FailureMessage)
  priorityForNode : NodeName → AppName → QueryDataProviderInfo → Except Exc ℚ
  rescheduleTasks : Except Exc (List TaskName)

namespace BaseAlgorithm

/-- The default of `app_fit_nodes` accepts all nodes. -/
def acceptAll (nodeNames : List NodeName) (_ : AppName) (_ : QueryDataProviderInfo) :
    Except Exc (List NodeName × Dict NodeName FailureMessage) := pure (nodeNames, ∅)

/-- The first pass: each node by itself. -/
def firstPass (self : BaseAlgorithm) (appName : AppName) (queried : QueryDataProviderInfo)
    (nodesNames : List NodeName) : Except Exc (List NodeName × Dict NodeName FailureMessage) :=
  nodesNames.foldlM (fun passed nodeName => do
    let fit ← self.appFitNode nodeName appName queried
    if fit.1 then pure (passed.1 ++ [nodeName], passed.2)
    else pure (passed.1, passed.2.set nodeName fit.2)) ([], ∅)

def filter (self : BaseAlgorithm) (extenderArgs : ExtenderArgs) : Except Exc ExtenderFilterResult := do
  let appName := extenderArgs.pod.app
  let queried ← queryDataProvider self.dataProvider self.dimensions
  let first ← self.firstPass appName queried extenderArgs.nodeNames
  -- the second pass chooses among the nodes that passed, if there are any
  if first.1 ≠ [] then do
    let second ← self.appFitNodes first.1 appName queried
    pure { nodeNames := second.1, failedNodes := first.2.update second.2 }
  else pure { nodeNames := first.1, failedNodes := first.2 }

def prioritize (self : BaseAlgorithm) (extenderArgs : ExtenderArgs) :
    Except Exc (List HostPriority) := do
  let appName := extenderArgs.pod.app
  let queried ← queryDataProvider self.dataProvider self.dimensions
  (extenderArgs.nodeNames.mergeSort (· ≤ ·)).mapM fun nodeName => do
    let priority ← self.priorityForNode nodeName appName queried
    let scaled := priority * self.maxNodeScore
    pure { host := nodeName, score := scaled.num.tdiv scaled.den }

/-- The algorithm that a class is on the simulator's own reports. -/
def onSimulator (cls : DataProvider → BaseAlgorithm) (report : ClusterSimulator → DataProvider) :
    Algorithm Unit where
  filter := fun simulator args => Py.liftExcept ((cls (report simulator)).filter args)
  prioritize := fun simulator args => Py.liftExcept ((cls (report simulator)).prioritize args)
  reschedule := fun simulator => Py.liftExcept (cls (report simulator)).rescheduleTasks

theorem firstPass_ok {self : BaseAlgorithm} {appName : AppName}
    {queried : QueryDataProviderInfo} {nodesNames : List NodeName}
    {passed : List NodeName × Dict NodeName FailureMessage}
    (h : self.firstPass appName queried nodesNames = .ok passed) :
    passed.1.Sublist nodesNames ∧
      (∀ name, name ∈ passed.1 ↔ name ∈ nodesNames ∧
        ∃ message, self.appFitNode name appName queried = .ok (true, message)) ∧
      ∀ name, name ∈ passed.2 ↔ name ∈ nodesNames ∧
        ∃ message, self.appFitNode name appName queried = .ok (false, message) := by
  refine except_foldlM_ok (I := fun pre (passed : List NodeName × Dict NodeName FailureMessage) =>
    passed.1.Sublist pre ∧
      (∀ name, name ∈ passed.1 ↔ name ∈ pre ∧
        ∃ message, self.appFitNode name appName queried = .ok (true, message)) ∧
      ∀ name, name ∈ passed.2 ↔ name ∈ pre ∧
        ∃ message, self.appFitNode name appName queried = .ok (false, message)) h ?_ ?_
  · refine ⟨List.Sublist.refl _, fun name => ?_, fun name => ?_⟩
    · exact ⟨fun hin => (nomatch hin), fun hin => (nomatch hin.1)⟩
    · exact ⟨fun hin => (nomatch hin), fun hin => (nomatch hin.1)⟩
  · rintro pre name post passed passed' - ⟨hsub, hin, hfailed⟩ hstep
    obtain ⟨⟨fits, message⟩, hfit, hstep⟩ := except_bind_ok_iff.mp hstep
    cases fits with
    | true =>
      cases hstep
      refine ⟨hsub.append (List.Sublist.refl _), fun name' => ?_, fun name' => ?_⟩
      · rw [List.mem_append, hin, List.mem_append, List.mem_singleton]
        constructor
        · rintro (⟨hpre, hm⟩ | rfl)
          · exact ⟨.inl hpre, hm⟩
          · exact ⟨.inr rfl, message, hfit⟩
        · rintro ⟨hpre | rfl, hm⟩
          · exact .inl ⟨hpre, hm⟩
          · exact .inr rfl
      · rw [hfailed, List.mem_append, List.mem_singleton]
        constructor
        · rintro ⟨hpre, hm⟩
          exact ⟨.inl hpre, hm⟩
        · rintro ⟨hpre | rfl, m, hm⟩
          · exact ⟨hpre, m, hm⟩
          · rw [hfit] at hm
            cases hm
    | false =>
      cases hstep
      refine ⟨hsub.trans (List.sublist_append_left _ _), fun name' => ?_, fun name' => ?_⟩
      · rw [hin, List.mem_append, List.mem_singleton]
        constructor
        · rintro ⟨hpre, hm⟩
          exact ⟨.inl hpre, hm⟩
        · rintro ⟨hpre | rfl, m, hm⟩
          · exact ⟨hpre, m, hm⟩
          · rw [hfit] at hm
            cases hm
      · rw [Dict.mem_def, Dict.mem_keys_set, ← Dict.mem_def, hfailed, List.mem_append,
          List.mem_singleton]
        constructor
        · rintro (rfl | ⟨hpre, hm⟩)
          · exact ⟨.inr rfl, message, hfit⟩
          · exact ⟨.inl hpre, hm⟩
        · rintro ⟨hpre | rfl, hm⟩
          · exact .inr ⟨hpre, hm⟩
          · exact .inl rfl

theorem firstPass_returns {self : BaseAlgorithm} {appName : AppName}
    {queried : QueryDataProviderInfo} {nodesNames : List NodeName}
    {passed : List NodeName × Dict NodeName FailureMessage}
    (h : self.firstPass appName queried nodesNames = .ok passed) :
    ∀ name ∈ nodesNames, ∃ fit, self.appFitNode name appName queried = .ok fit := by
  intro name hname
  obtain ⟨_, _, hstep⟩ := except_foldlM_ok_mem h name hname
  obtain ⟨fit, hfit, -⟩ := except_bind_ok_iff.mp hstep
  exact ⟨fit, hfit⟩

/-- A node that is offered and is not failed passed the first pass. -/
theorem filter_passed {self : BaseAlgorithm} {args : ExtenderArgs}
    {result : ExtenderFilterResult} (h : self.filter args = .ok result) :
    ∃ queried, queryDataProvider self.dataProvider self.dimensions = .ok queried ∧
      ∀ name ∈ args.nodeNames, name ∉ result.failedNodes →
        ∃ message, self.appFitNode name args.pod.app queried = .ok (true, message) := by
  obtain ⟨queried, hq, h⟩ := except_bind_ok_iff.mp h
  obtain ⟨first, hfirst, h⟩ := except_bind_ok_iff.mp h
  refine ⟨queried, hq, fun name hname hnot => ?_⟩
  have hpass := firstPass_ok hfirst
  have hfailed : name ∉ first.2 := by
    split at h
    · obtain ⟨second, -, h⟩ := except_bind_ok_iff.mp h
      cases h
      exact fun hin => hnot (Dict.mem_keys_update.mpr (.inl hin))
    · cases h
      exact hnot
  obtain ⟨⟨fits, message⟩, hfit⟩ := firstPass_returns hfirst name hname
  cases fits with
  | true => exact ⟨message, hfit⟩
  | false => exact absurd ((hpass.2.2 name).mpr ⟨hname, message, hfit⟩) hfailed

/-- Only nodes that are offered get a priority. -/
theorem prioritize_hosts {self : BaseAlgorithm} {args : ExtenderArgs}
    {result : List HostPriority} (h : self.prioritize args = .ok result) :
    ∀ p ∈ result, p.host ∈ args.nodeNames := by
  obtain ⟨queried, -, h⟩ := except_bind_ok_iff.mp h
  intro p hp
  obtain ⟨name, hname, hprio⟩ := forall₂_exists_left (except_mapM_ok_iff.mp h) hp
  obtain ⟨priority, -, hprio⟩ := except_bind_ok_iff.mp hprio
  cases hprio
  exact List.mem_mergeSort.mp hname

end BaseAlgorithm

/-- The fields of a `Fit` object. -/
structure Fit where
  dataProvider : DataProvider
  dimensions : List ResourceType
  cpuScaleFactor : ℚ := 1
  /-- what the data provider said when the object was made -/
  pmemNodes : List NodeName

namespace Fit

/-- The capacities with the cpus of the PMEM nodes scaled. -/
def scaledCapacities (self : Fit) (nodesCapacities : Dict NodeName Resources) :
    Except Exc (Dict NodeName Resources) :=
  nodesCapacities.comprehendM fun node capacity =>
    if node ∈ self.pmemNodes then do
      let cpu ← capacity.item CPU
      pure (capacity.set CPU (cpu * self.cpuScaleFactor))
    else pure capacity

/-- With a factor of one, what was read of the scaled capacities is what is there. -/
theorem get?_scaledCapacities {fit : Fit} (hscale : fit.cpuScaleFactor = 1)
    {capacities r : Dict NodeName Resources} (h : fit.scaledCapacities capacities = .ok r)
    {node : NodeName} {capacity : Resources} (hget : r.get? node = some capacity) :
    capacities.get? node = some capacity := by
  obtain ⟨capacity', hget', hscaled⟩ := Dict.comprehendM_get? h hget
  split at hscaled
  · obtain ⟨cpu, hcpu, he⟩ := except_bind_ok_iff.mp hscaled
    cases he
    have hcpu := Dict.item_ok_iff.mp (liftM_ok_iff.mp hcpu)
    rw [hget', hscale, mul_one, Dict.set_of_get? hcpu]
  · cases hscaled
    exact hget'

def appFitNode (self : Fit) (nodeName : NodeName) (appName : AppName)
    (queried : QueryDataProviderInfo) : Except Exc (Bool × FailureMessage) := do
  let newNodesCapacities ← self.scaledCapacities queried.nodesCapacities
  appFits nodeName appName self.dimensions newNodesCapacities queried.assignedApps queried.appsSpec

/-- `Fit` and the classes that only change the priorities: `BAR`, `LeastUsed` and `LeastUsedBAR`. -/
def algorithm (self : Fit) (maxNodeScore : ℚ)
    (priorityForNode : NodeName → AppName → QueryDataProviderInfo → Except Exc ℚ) :
    BaseAlgorithm where
  dataProvider := self.dataProvider
  dimensions := self.dimensions
  maxNodeScore := maxNodeScore
  appFitNode := self.appFitNode
  appFitNodes := BaseAlgorithm.acceptAll
  priorityForNode := priorityForNode
  rescheduleTasks := pure []

end Fit

end Wca.Scheduler
