import Wca.Scheduler.Score

/-!
# Evictions

The plan of `Score` tries a task on every PMEM node and goes on after the first one where it fits.
Beside it stands the plan that reserves what a task requests once, on the first such node
(`OneEach`). The two are the same as long as no task, at its turn, fits on a second node (`Clear`).
-/

namespace Wca.Scheduler.Score

open Py Resources

/-- What the plan starts from. -/
structure PlanStart where
  appsSpec : Dict AppName Resources
  /-- what is used on the PMEM nodes, once the tasks that go are taken off -/
  used : Dict NodeName Resources
  /-- the tasks that go -/
  removed : List TaskName
  nodesCapacities : Dict NodeName Resources
  ratios : Dict NodeName (Option ℚ)

/-- `_get_tasks_to_reschedule`, up to the first task that is considered. -/
def planStart (self : Score) (reschedule : RescheduleApps) (appsOnNode : Dict NodeName Apps) :
    Except Exc PlanStart := do
  let dataProvider := self.fit.dataProvider
  let appsSpec ← dataProvider.getAppsRequestedResources self.fit.dimensions
  let appsOnPmemNodes ← self.onPmem appsOnNode
  let used ← getNodesUsedResources self.fit.dimensions appsOnPmemNodes appsSpec
  let freed ← freePmem reschedule appsSpec used
  let nodesCapacities ← dataProvider.getNodesCapacities self.fit.dimensions
  let pmemNodesCapacities ← self.onPmem nodesCapacities
  let ratios ← pmemNodesCapacities.comprehendM fun _ capacities => calculateReadWriteRatio capacities
  pure { appsSpec, used := freed.1, removed := freed.2, nodesCapacities, ratios }

/-- The considered tasks with their apps, in the order of their turns. -/
def turns (appsProfile : AppsProfile) (consider : RescheduleApps) : List (AppName × TaskName) :=
  (sortedConsider appsProfile consider).flatMap fun p => p.2.map fun task => (p.1, task)

/-- The considered tasks of the apps without a score, which have no turn. -/
def unscored (appsProfile : AppsProfile) (consider : RescheduleApps) : List (AppName × TaskName) :=
  (consider.items.filter (·.1 ∉ appsProfile)).flatMap fun p =>
    p.2.values.flatten.map fun task => (p.1, task)

namespace PlanStart

variable {s : PlanStart} {app : AppName} {task : TaskName} {node : NodeName}
  {used used' used'' : Dict NodeName Resources} {acc acc' : Dict NodeName Resources × List TaskName}
  {l l' : List (AppName × TaskName)} {planned planned' returned : List TaskName}

/-- What is used on a node with a task of the app there, and whether the node has so much. -/
def tried (s : PlanStart) (app : AppName) (used : Dict NodeName Resources) (node : NodeName) :
    Except Exc (Resources × Bool) := do
  let usedOnNode ← used.item node
  let spec ← s.appsSpec.item app
  let requestedAndUsed ← sumResources usedOnNode spec
  let capacity ← s.nodesCapacities.item node
  let ratio ← s.ratios.item node
  let answer ← enoughResourcesOnNode capacity requestedAndUsed ratio
  pure (requestedAndUsed, answer.enough)

/-- A task of the app fits on the node. -/
def fits (s : PlanStart) (app : AppName) (used : Dict NodeName Resources) (node : NodeName) : Bool :=
  match s.tried app used node with
  | .ok answer => answer.2
  | .error _ => false

/-- The PMEM nodes where a task of the app fits, in the order they are tried. -/
def roomy (s : PlanStart) (app : AppName) (used : Dict NodeName Resources) : List NodeName :=
  used.keys.filter (s.fits app used)

/-- One node's worth of resources reserved for a task of the app. -/
def put (s : PlanStart) (app : AppName) (used : Dict NodeName Resources) (node : NodeName) :
    Dict NodeName Resources :=
  match s.tried app used node with
  | .ok answer => used.set node answer.1
  | .error _ => used

/-- The plan that reserves once for each task that is returned, on the first PMEM node where it
fits, and leaves a task out only if it fits on none. -/
inductive OneEach (s : PlanStart) : Dict NodeName Resources → List (AppName × TaskName) →
    List TaskName → Dict NodeName Resources → Prop where
  | done (used : Dict NodeName Resources) : OneEach s used [] [] used
  | leftOut {used used' : Dict NodeName Resources} {app : AppName} {task : TaskName}
      {others : List (AppName × TaskName)} {planned : List TaskName}
      (nowhere : ∀ node ∈ used, s.fits app used node = false)
      (rest : OneEach s used others planned used') :
      OneEach s used ((app, task) :: others) planned used'
  | returned {used used' : Dict NodeName Resources} {app : AppName} {task : TaskName}
      {node : NodeName} {nodes : List NodeName} {others : List (AppName × TaskName)}
      {planned : List TaskName} (first : s.roomy app used = node :: nodes)
      (rest : OneEach s (s.put app used node) others planned used') :
      OneEach s used ((app, task) :: others) (task :: planned) used'

/-- No task at its turn, with those before it reserved once, fits on two PMEM nodes, nor on one if
its name was returned before. The tasks that have no turn fit nowhere at the end. -/
def Clear (s : PlanStart) (unscored : List (AppName × TaskName)) : Dict NodeName Resources →
    List TaskName → List (AppName × TaskName) → Prop
  | used, _, [] => ∀ p ∈ unscored, s.roomy p.1 used = []
  | used, returned, (app, task) :: rest =>
    match s.roomy app used with
    | [] => s.Clear unscored used returned rest
    | [node] => task ∉ returned ∧ s.Clear unscored (s.put app used node) (returned ++ [task]) rest
    | _ => False

theorem roomy_eq_nil_iff : s.roomy app used = [] ↔ ∀ node ∈ used, s.fits app used node = false := by
  rw [roomy, List.filter_eq_nil_iff]
  simp only [Bool.not_eq_true]
  exact Iff.rfl

/-- The plan that reserves once is a function of what is considered. -/
theorem OneEach.unique (h : s.OneEach used l planned used')
    (h' : s.OneEach used l planned' used'') : planned' = planned ∧ used'' = used' := by
  induction h generalizing planned' used'' with
  | done used =>
    cases h'
    exact ⟨rfl, rfl⟩
  | leftOut nowhere _ ih =>
    cases h' with
    | leftOut _ rest => exact ih rest
    | returned first _ => exact absurd (first.symm.trans (roomy_eq_nil_iff.mpr nowhere)) (List.cons_ne_nil _ _)
  | returned first _ ih =>
    cases h' with
    | leftOut nowhere _ => exact absurd (first.symm.trans (roomy_eq_nil_iff.mpr nowhere)) (List.cons_ne_nil _ _)
    | returned first' rest =>
      cases first.symm.trans first'
      obtain ⟨rfl, rfl⟩ := ih rest
      exact ⟨rfl, rfl⟩

theorem OneEach.append (h : s.OneEach used l planned used')
    (h' : s.OneEach used' l' planned' used'') : s.OneEach used (l ++ l') (planned ++ planned') used'' := by
  induction h with
  | done used => exact h'
  | leftOut nowhere _ ih => exact .leftOut nowhere (ih h')
  | returned first _ ih => exact .returned first (ih h')

theorem OneEach.split (h : s.OneEach used (l ++ l') planned used'') :
    ∃ before after used', planned = before ++ after ∧ s.OneEach used l before used' ∧
      s.OneEach used' l' after used'' := by
  induction l generalizing used planned with
  | nil => exact ⟨[], planned, used, rfl, .done used, h⟩
  | cons p l ih =>
    cases h with
    | leftOut nowhere rest =>
      obtain ⟨before, after, used', rfl, hbefore, hafter⟩ := ih rest
      exact ⟨before, after, used', rfl, .leftOut nowhere hbefore, hafter⟩
    | returned first rest =>
      obtain ⟨before, after, used', rfl, hbefore, hafter⟩ := ih rest
      exact ⟨_ :: before, after, used', rfl, .returned first hbefore, hafter⟩

/-- Nothing of what is considered is returned just where nothing fits. -/
theorem oneEach_nil_iff : s.OneEach used l [] used ↔ ∀ p ∈ l, s.roomy p.1 used = [] := by
  induction l with
  | nil => exact ⟨fun _ p hp => absurd hp List.not_mem_nil, fun _ => .done used⟩
  | cons p l ih =>
    rw [List.forall_mem_cons, ← ih]
    constructor
    · intro h
      cases h with
      | leftOut nowhere rest => exact ⟨roomy_eq_nil_iff.mpr nowhere, rest⟩
    · rintro ⟨hnil, hrest⟩
      exact .leftOut (roomy_eq_nil_iff.mp hnil) hrest

theorem OneEach.used_of_nil (h : s.OneEach used l [] used') : used' = used := by
  induction l with
  | nil =>
    cases h
    rfl
  | cons p l ih =>
    cases h with
    | leftOut nowhere rest => exact ih rest

/-! ## One turn -/

theorem tried_congr (h : used'.get? node = used.get? node) :
    s.tried app used' node = s.tried app used node := by
  have hitem : (used'.item node : Except Exn Resources) = used.item node := by
    rw [Dict.item, Dict.item, h]
  rw [tried, tried, hitem]

theorem reserve_ok (h : reserve s.nodesCapacities s.ratios s.appsSpec app task acc node = .ok acc') :
    (s.fits app acc.1 node = true → acc' = (s.put app acc.1 node, acc.2 ++ [task])) ∧
      (s.fits app acc.1 node = false → acc' = acc) := by
  simp only [reserve, except_bind_ok_iff] at h
  obtain ⟨usedOnNode, hused, spec, hspec, total, htotal, capacity, hcapacity, ratio, hratio, answer,
    hanswer, h⟩ := h
  have htried : s.tried app acc.1 node = .ok (total, answer.enough) := by
    simp only [tried, except_bind_ok_iff]
    exact ⟨usedOnNode, hused, spec, hspec, total, htotal, capacity, hcapacity, ratio, hratio, answer,
      hanswer, rfl⟩
  rw [fits, put, htried]
  dsimp only
  split at h
  · next henough =>
    cases h
    exact ⟨fun _ => rfl, fun hnot => absurd (henough.symm.trans hnot) (by decide)⟩
  · next henough =>
    cases h
    exact ⟨fun hfits => absurd hfits henough, fun _ => rfl⟩

theorem get?_put_of_ne {node' : NodeName} (h : node' ≠ node) :
    (s.put app used node).get? node' = used.get? node' := by
  unfold put
  split
  · exact Dict.get?_set_of_ne h
  · rfl

theorem fits_congr (h : used'.get? node = used.get? node) :
    s.fits app used' node = s.fits app used node := by
  rw [fits, fits, tried_congr h]

/-- A turn reserves on every PMEM node where the task fits, and returns the task as often. -/
theorem reserveTask_ok
    (h : reserveTask s.nodesCapacities s.ratios s.appsSpec app acc task = .ok acc') :
    acc' = ((s.roomy app acc.1).foldl (s.put app) acc.1,
      acc.2 ++ List.replicate (s.roomy app acc.1).length task) := by
  have hrun := except_foldlM_ok (I := fun pre (acc'' : Dict NodeName Resources × List TaskName) =>
    (∀ node ∈ acc.1.keys, node ∉ pre → acc''.1.get? node = acc.1.get? node) ∧
      acc'' = ((pre.filter (s.fits app acc.1)).foldl (s.put app) acc.1,
        acc.2 ++ List.replicate (pre.filter (s.fits app acc.1)).length task)) h ?_ ?_
  · exact hrun.2
  · exact ⟨fun _ _ _ => rfl, Prod.ext rfl (List.append_nil _).symm⟩
  · intro pre node post r r' hsplit hI hstep
    obtain ⟨hsame, hr⟩ := hI
    have hnd : (pre ++ node :: post).Nodup := hsplit ▸ acc.1.nodup
    have hnew : node ∉ pre := fun hin =>
      (List.nodup_append'.mp hnd).2.2 hin List.mem_cons_self
    have hin : node ∈ acc.1.keys := hsplit ▸ List.mem_append_right _ List.mem_cons_self
    have hfits : s.fits app r.1 node = s.fits app acc.1 node := fits_congr (hsame node hin hnew)
    obtain ⟨hyes, hno⟩ := reserve_ok hstep
    rw [hfits] at hyes hno
    rw [List.filter_append, List.filter_singleton]
    cases hcase : s.fits app acc.1 node with
    | true =>
      obtain rfl := hyes hcase
      refine ⟨fun node' hin' hnot => ?_, ?_⟩
      · obtain ⟨hpre, hne⟩ := not_or.mp (mt List.mem_append.mpr hnot)
        rw [get?_put_of_ne fun he => hne (List.mem_singleton.mpr he)]
        exact hsame node' hin' hpre
      · rw [hr]
        simp [List.replicate_succ', List.foldl_append]
    | false =>
      obtain rfl := hno hcase
      refine ⟨fun node' hin' hnot => hsame node' hin' ?_, ?_⟩
      · exact fun hpre => hnot (List.mem_append_left _ hpre)
      · rw [hr]
        simp

/-! ## All turns -/

/-- The turns of the tasks, one after the other. -/
def run (s : PlanStart) (acc : Dict NodeName Resources × List TaskName)
    (l : List (AppName × TaskName)) : Except Exc (Dict NodeName Resources × List TaskName) :=
  l.foldlM (fun acc p => reserveTask s.nodesCapacities s.ratios s.appsSpec p.1 acc p.2) acc

theorem run_cons_ok {p : AppName × TaskName} (h : s.run acc (p :: l) = .ok acc') :
    s.run ((s.roomy p.1 acc.1).foldl (s.put p.1) acc.1,
      acc.2 ++ List.replicate (s.roomy p.1 acc.1).length p.2) l = .ok acc' := by
  rw [run, List.foldlM_cons, except_bind_ok_iff] at h
  obtain ⟨acc'', hturn, h⟩ := h
  rw [← reserveTask_ok hturn]
  exact h

theorem run_foldlM (l : List (AppName × List TaskName)) :
    l.foldlM (fun acc p => p.2.foldlM
      (reserveTask s.nodesCapacities s.ratios s.appsSpec p.1) acc) acc =
      s.run acc (l.flatMap fun p => p.2.map fun task => (p.1, task)) := by
  induction l generalizing acc with
  | nil => rfl
  | cons p l ih =>
    rw [List.foldlM_cons, List.flatMap_cons, run, List.foldlM_append, List.foldlM_map]
    exact bind_congr fun acc => ih

theorem returned_initial (h : s.run acc l = .ok acc') : acc.2 <+: acc'.2 := by
  induction l generalizing acc with
  | nil =>
    cases h
    exact List.prefix_refl _
  | cons p l ih => exact (List.prefix_append _ _).trans (ih (run_cons_ok h))

/-- Where no name is returned twice, no task fitted on a second node, and the plan is the one that
reserves once. -/
theorem oneEach_of_nodup (h : s.run acc l = .ok acc') (hnd : acc'.2.Nodup) :
    ∃ planned, acc'.2 = acc.2 ++ planned ∧ s.OneEach acc.1 l planned acc'.1 ∧
      ((∀ p ∈ l', s.roomy p.1 acc'.1 = []) → s.Clear l' acc.1 acc.2 l) := by
  induction l generalizing acc with
  | nil =>
    cases h
    exact ⟨[], (List.append_nil _).symm, .done _, fun hnil => hnil⟩
  | cons p l ih =>
    have hrest := run_cons_ok h
    have hturn := (returned_initial hrest).sublist.nodup hnd
    obtain ⟨planned, hplanned, hone, hclear⟩ := ih hrest
    cases hroomy : s.roomy p.1 acc.1 with
    | nil =>
      rw [hroomy, List.length_nil, List.replicate_zero, List.append_nil] at hplanned hone hclear
      refine ⟨planned, hplanned, .leftOut (roomy_eq_nil_iff.mp hroomy) hone, fun hnil => ?_⟩
      rw [Clear, hroomy]
      exact hclear hnil
    | cons node nodes =>
      rw [hroomy] at hturn hplanned hone hclear
      obtain ⟨-, htwice, hnew⟩ := List.nodup_append'.mp hturn
      have hlen : nodes.length + 1 ≤ 1 := List.nodup_replicate.mp htwice
      obtain rfl : nodes = [] := List.length_eq_zero_iff.mp (by omega)
      refine ⟨p.2 :: planned, ?_, .returned hroomy hone, fun hnil => ?_⟩
      · rw [hplanned, List.append_assoc]
        rfl
      · rw [Clear, hroomy]
        exact ⟨fun hin => hnew hin List.mem_cons_self, hclear hnil⟩

/-- Where no task fits on a second node, every name is returned once, and the plan is the one that
reserves once. -/
theorem oneEach_of_clear (h : s.run acc l = .ok acc') (hnd : acc.2.Nodup)
    (hclear : s.Clear l' acc.1 acc.2 l) :
    acc'.2.Nodup ∧ (∃ planned, acc'.2 = acc.2 ++ planned ∧ s.OneEach acc.1 l planned acc'.1) ∧
      ∀ p ∈ l', s.roomy p.1 acc'.1 = [] := by
  induction l generalizing acc with
  | nil =>
    cases h
    exact ⟨hnd, ⟨[], (List.append_nil _).symm, .done _⟩, hclear⟩
  | cons p l ih =>
    have hrest := run_cons_ok h
    rw [Clear] at hclear
    split at hclear
    · next hroomy =>
      rw [hroomy, List.length_nil, List.replicate_zero, List.append_nil, List.foldl_nil] at hrest
      obtain ⟨hnd', ⟨planned, hplanned, hone⟩, hnil⟩ := ih hrest hnd hclear
      exact ⟨hnd', ⟨planned, hplanned, .leftOut (roomy_eq_nil_iff.mp hroomy) hone⟩, hnil⟩
    · next node hroomy =>
      rw [hroomy] at hrest
      obtain ⟨hnew, hclear⟩ := hclear
      have hnd₁ : (acc.2 ++ [p.2]).Nodup :=
        List.nodup_append'.mpr ⟨hnd, List.nodup_singleton _, List.disjoint_singleton.mpr hnew⟩
      obtain ⟨hnd', ⟨planned, hplanned, hone⟩, hnil⟩ := ih hrest hnd₁ hclear
      refine ⟨hnd', ⟨p.2 :: planned, ?_, .returned hroomy hone⟩, hnil⟩
      rw [hplanned, List.append_assoc]
      rfl
    · exact absurd hclear id

end PlanStart

variable {self : Score} {reschedule consider : RescheduleApps} {appsProfile : AppsProfile}
  {appsOnNode : Dict NodeName Apps} {result : List TaskName}

theorem getTasksToReschedule_eq (h : consider.len ≠ 0) :
    self.getTasksToReschedule reschedule consider appsProfile appsOnNode =
      (do
        let s ← self.planStart reschedule appsOnNode
        let planned ← s.run (s.used, s.removed) (turns appsProfile consider)
        pure planned.2) := by
  simp only [getTasksToReschedule, if_neg h, planStart, bind_assoc, pure_bind, turns,
    ← PlanStart.run_foldlM]

/-- What is asked of the returned tasks. No name is there twice, and a considered task is left out
only if it fits on no PMEM node when the tasks that go are taken off and every considered task
returned before it takes the resources of one node. -/
structure EvictsOnce (score : Score) (reschedule consider : RescheduleApps) (appsProfile : AppsProfile)
    (appsOnNode : Dict NodeName Apps) (result : List TaskName) : Prop where
  nodup : result.Nodup
  leftOut : consider.len ≠ 0 → ∃ s planned used, score.planStart reschedule appsOnNode = .ok s ∧
    result = s.removed ++ planned ∧
    s.OneEach s.used (turns appsProfile consider ++ unscored appsProfile consider) planned used

/-- No task that goes is named twice, and no considered task fits on a second PMEM node. -/
def NeverTwice (self : Score) (reschedule consider : RescheduleApps) (appsProfile : AppsProfile)
    (appsOnNode : Dict NodeName Apps) : Prop :=
  consider.len ≠ 0 → ∃ s, self.planStart reschedule appsOnNode = .ok s ∧ s.removed.Nodup ∧
    s.Clear (unscored appsProfile consider) s.used s.removed (turns appsProfile consider)

def twoTasksOn (pmemNodes : List NodeName) : Dict NodeName Apps :=
  .ofItems (("node-dram", .ofItems [("memcached", ["memcached-0", "memcached-1"])]) ::
    pmemNodes.map fun node => (node, ∅))

def twoTasks (pmemNodes : List NodeName) : Score where
  fit :=
    { dataProvider :=
        { getAppsCounts := pure (twoTasksOn pmemNodes, ∅)
          getNodesCapacities := fun _ => pure (.ofItems
            (("node-dram", .ofItems [(.CPU, 10)]) ::
              pmemNodes.map fun node => (node, .ofItems [(.CPU, 10)])))
          getAppsRequestedResources := fun _ => pure
            (.ofItems [("memcached", .ofItems [(.CPU, 8)])])
          getDramHitRatio := fun _ => pure 1
          getNodesType := pure (.ofItems (("node-dram", .DRAM) :: pmemNodes.map fun node => (node, .PMEM)))
          getAppsProfile := pure (.ofItems [("memcached", 0), ("redis", 2), ("stress", 2)]) }
      dimensions := [.CPU]
      pmemNodes }
  scoreTarget := some 1
  nodesType := .ofItems (("node-dram", .DRAM) :: pmemNodes.map fun node => (node, .PMEM))

def twoTasksConsider : RescheduleApps :=
  .ofItems [("memcached", .ofItems [("node-dram", ["memcached-0", "memcached-1"])])]

def twoTasksProfile : AppsProfile := .ofItems [("memcached", 0), ("redis", 2), ("stress", 2)]

theorem turns_twoTasks : turns twoTasksProfile twoTasksConsider =
    [("memcached", "memcached-0"), ("memcached", "memcached-1")] := by
  have hsorted : sortedConsider twoTasksProfile twoTasksConsider =
      [("memcached", ["memcached-0", "memcached-1"])] := by
    unfold sortedConsider
    rw [List.mergeSort_of_pairwise (by decide +kernel)]
    have htasks : (["memcached-0", "memcached-1"] : List TaskName).mergeSort (· ≤ ·) =
        ["memcached-0", "memcached-1"] := List.mergeSort_of_pairwise (by decide +kernel)
    exact congrArg (fun tasks => [("memcached", tasks)]) htasks
  rw [turns, hsorted]
  rfl

theorem twoTasks_onOneNode : (twoTasks ["pmem-0"]).getTasksToReschedule ∅ twoTasksConsider
    twoTasksProfile (twoTasksOn ["pmem-0"]) = .ok ["memcached-0"] := by
  rw [getTasksToReschedule_eq (by decide), turns_twoTasks]
  decide +kernel

end Wca.Scheduler.Score
