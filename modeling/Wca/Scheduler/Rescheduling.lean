import Wca.Scheduler.FitRefinement
import Wca.Scheduler.Score

/-!
# Whether rescheduling is feasible

`Score.reschedule` takes tasks off DRAM nodes that it means to put on PMEM nodes. It plans with the
capacities that the nodes report, and `Fit` checks with the cpus of PMEM nodes scaled. A task that
fits on several nodes is reserved on all of them, so what the plan counts as used is at least what
the tasks use on the nodes they are first reserved on. The tasks can then be put there one by one,
if the scaling leaves no node less than it reports.
-/

namespace Wca.Scheduler

open Py ResourceType Resources

/-- A task of an app is on a node. -/
def OnNode (assignedApps : Dict NodeName Apps) (node : NodeName) (app : AppName) (task : TaskName) :
    Prop :=
  ∃ apps, assignedApps.get? node = some apps ∧ ∃ tasks, apps.get? app = some tasks ∧ task ∈ tasks

/-- A task of an app that is to be put on a node. -/
structure Placed where
  task : TaskName
  app : AppName
  node : NodeName

/-- The tasks of the apps on a node with another one there. -/
def Placed.on (p : Placed) (apps : Apps) : Apps :=
  apps.set p.app ((apps.get? p.app).getD [] ++ [p.task])

/-- The cluster with a task put on its node. -/
def QueryDataProviderInfo.put (queried : QueryDataProviderInfo) (p : Placed) :
    QueryDataProviderInfo :=
  { queried with
    assignedApps :=
      queried.assignedApps.set p.node (p.on ((queried.assignedApps.get? p.node).getD ∅)) }

namespace Score

/-- The cluster with tasks taken off the PMEM nodes. -/
def takeOffPmem (self : Score) (tasks : List TaskName) (queried : QueryDataProviderInfo) :
    QueryDataProviderInfo :=
  { queried with
    assignedApps := queried.assignedApps.map fun node apps =>
      if self.nodesType.get? node = some .PMEM then apps.map fun _ on => on.filter (· ∉ tasks)
      else apps }

/-- The tasks can be put on PMEM nodes one after the other: each passes the check of `Fit` with the
ones before it in place. -/
def CanPut (self : Score) : QueryDataProviderInfo → List Placed → Prop
  | _, [] => True
  | queried, p :: rest =>
    self.nodesType.get? p.node = some .PMEM ∧
      (∃ message, self.fit.appFitNode p.node p.app queried = .ok (true, message)) ∧
      self.CanPut (queried.put p) rest

/-- A task of an app is on a DRAM node. -/
def OnDram (self : Score) (queried : QueryDataProviderInfo) (app : AppName) (task : TaskName) : Prop :=
  ∃ node, self.nodesType.get? node = some .DRAM ∧ OnNode queried.assignedApps node app task

/-- The tasks to reschedule that are on DRAM nodes can all be put on PMEM nodes, once the ones that
are on PMEM nodes are taken off. -/
structure Feasible (score : Score) (queried : QueryDataProviderInfo) (result : List TaskName)
    (placed : List Placed) : Prop where
  all : ∀ app task, task ∈ result → score.OnDram queried app task →
    ∃ p ∈ placed, p.app = app ∧ p.task = task
  only : ∀ p ∈ placed, p.task ∈ result ∧ score.OnDram queried p.app p.task
  once : (placed.map Placed.task).Nodup
  canPut : score.CanPut (score.takeOffPmem result queried) placed

/-- What is known of a cluster: a task has one app and one node, and no amount is negative. -/
structure WellFormed (dimensions : List ResourceType) (queried : QueryDataProviderInfo) : Prop where
  dimensions : dimensions.Nodup
  once : ∀ node node' app app' task, OnNode queried.assignedApps node app task →
    OnNode queried.assignedApps node' app' task → node = node' ∧ app = app'
  requests : ∀ app requested, queried.appsSpec.get? app = some requested → requested.NonNeg
  capacities : ∀ node capacity, queried.nodesCapacities.get? node = some capacity → capacity.NonNeg

/-- The nodes with scaled cpus have cpus, and those of PMEM get no less than they report. -/
def ScalesUp (self : Score) (nodesCapacities : Dict NodeName Resources) : Prop :=
  ∀ node ∈ self.fit.pmemNodes, ∀ capacity, nodesCapacities.get? node = some capacity →
    CPU ∈ capacity ∧ (self.nodesType.get? node = some .PMEM →
      capacity.amount CPU ≤ capacity.amount CPU * self.fit.cpuScaleFactor)

end Score

/-! ## The check on a node -/

/-- What amounts take from a node with such a ratio of its bandwidths. -/
def taken (ratio : Option ℚ) (used : Resources) (d : ResourceType) : ℚ :=
  match ratio with
  | none => used.amount d
  | some ratio => demand ratio used d

/-- There is a ratio just where both bandwidths are dimensions. -/
def RatioFor (capacity : Resources) (ratio : Option ℚ) : Prop :=
  (MEMBW_READ ∉ capacity ∧ ratio = none) ∨
    (capacity.HasMembw ∧ ratio = some (capacity.amount MEMBW_READ / capacity.amount MEMBW_WRITE))

theorem RatioFor.nonneg {capacity : Resources} {ratio : Option ℚ} (h : RatioFor capacity ratio)
    (hcapacity : capacity.NonNeg) : ∀ q ∈ ratio, 0 ≤ q := by
  rcases h with ⟨-, rfl⟩ | ⟨-, rfl⟩
  · exact fun q hq => absurd hq (Option.not_mem_none q)
  · intro q hq
    cases hq
    exact div_nonneg (hcapacity.amount _) (hcapacity.amount _)

theorem ratioFor_of_ok {capacity : Resources} {ratio : Option ℚ}
    (h : calculateReadWriteRatio capacity = .ok ratio) : RatioFor capacity ratio := by
  unfold calculateReadWriteRatio at h
  split at h
  · next hread =>
    obtain ⟨hassert, h⟩ := except_seq_ok_iff.mp h
    obtain ⟨q, hq, h⟩ := except_bind_ok_iff.mp h
    cases h
    exact .inr ⟨⟨hread, assert_ok_iff.mp hassert⟩, congrArg some (truediv_ok_iff.mp hq).2⟩
  · next hread =>
    cases h
    exact .inl ⟨hread, rfl⟩

/-- The ratio only depends on the two bandwidths. -/
theorem calculateReadWriteRatio_congr {a b : Resources} (hkeys : a.SameKeys b)
    (hread : a.amount MEMBW_READ = b.amount MEMBW_READ)
    (hwrite : a.amount MEMBW_WRITE = b.amount MEMBW_WRITE) :
    calculateReadWriteRatio a = calculateReadWriteRatio b := by
  unfold calculateReadWriteRatio
  simp only [hkeys.iff, hread, hwrite]

theorem subtractResources_ok_iff {capacity used free : Resources} {ratio : Option ℚ}
    (hratio : RatioFor capacity ratio) :
    subtractResources capacity used ratio = .ok free ↔
      capacity.SameKeys used ∧ ratio ≠ some 0 ∧
        free = capacity.map fun d v => v - taken ratio used d := by
  rcases hratio with ⟨-, rfl⟩ | ⟨hboth, rfl⟩
  · rw [subtractResources_none_iff]
    exact and_congr_right fun _ => ⟨fun h => ⟨(Option.some_ne_none _).symm, h⟩, fun h => h.2⟩
  · rw [subtractResources_some_iff ⟨fun _ => hboth.2, fun _ => hboth.1⟩]
    refine and_congr_right fun _ => and_congr_left' ?_
    rw [ne_eq, ne_eq, Option.some.injEq]
    exact ⟨fun h => h hboth, fun h _ => h⟩

/-- More is taken where more is used. -/
theorem taken_mono {ratio : Option ℚ} (hratio : ∀ q ∈ ratio, 0 ≤ q) {a b : Resources}
    (hkeys : a.SameKeys b) (h : ∀ d, a.amount d ≤ b.amount d) (d : ResourceType) :
    taken ratio a d ≤ taken ratio b d := by
  cases ratio with
  | none => exact h d
  | some q =>
    have hq : 0 ≤ q := hratio q rfl
    simp only [taken, demand, hkeys.hasMembw]
    split
    · split
      · split
        · exact add_le_add (h _) (mul_le_mul_of_nonneg_right (h _) hq)
        · exact add_le_add (h _) (div_le_div_of_nonneg_right (h _) hq)
      · exact le_refl 0
    · exact h d

theorem enough_iff {capacity used : Resources} {ratio : Option ℚ} {answer : Enough}
    (hratio : RatioFor capacity ratio)
    (h : enoughResourcesOnNode capacity used ratio = .ok answer) :
    answer.enough = true ↔ ∀ d ∈ capacity, taken ratio used d ≤ capacity.amount d := by
  obtain ⟨free, hfree, h⟩ := except_bind_ok_iff.mp h
  cases h
  obtain ⟨-, -, rfl⟩ := (subtractResources_ok_iff hratio).mp hfree
  rw [brokenCapacities_isEmpty_iff]
  refine forall_congr' fun d => ?_
  rw [mem_map]
  refine imp_congr_right fun hd => ?_
  rw [amount_map hd, sub_nonneg]

/-- The apps were reported to request something in every dimension. -/
def Requested (dimensions : List ResourceType) (appsSpec : Dict AppName Resources) (app : AppName) :
    Prop :=
  ∀ d ∈ dimensions, ∃ spec, appsSpec.get? app = some spec ∧ d ∈ spec

/-- What the tasks of apps use in a dimension. -/
def useOf (appsSpec : Dict AppName Resources) (d : ResourceType) (apps : Apps) : ℚ :=
  (apps.items.map fun p => specAmount appsSpec d p.1 * (p.2.length : ℚ)).sum

theorem addApp_returns {dimensions : List ResourceType} {appsSpec : Dict AppName Resources}
    {app : AppName × Nat} {used : Resources} (happ : Requested dimensions appsSpec app.1)
    (hused : ∀ d, d ∈ used ↔ d ∈ dimensions) :
    ∃ r, addApp dimensions appsSpec used app = .ok r ∧ ∀ d, d ∈ r ↔ d ∈ dimensions := by
  refine except_foldlM_returns (I := fun r : Resources => ∀ d, d ∈ r ↔ d ∈ dimensions) hused ?_
  intro d hd r hr
  obtain ⟨spec, hspec, hin⟩ := happ d hd
  obtain ⟨requested, hrequested⟩ := Dict.mem_keys_iff_get?.mp hin
  obtain ⟨sofar, hsofar⟩ := Dict.mem_keys_iff_get?.mp ((hr d).mpr hd)
  refine ⟨r.set d (sofar + requested * app.2), ?_, fun d' => ?_⟩
  · simp only [Dict.item_ok_iff.mpr hspec, Dict.item_ok_iff.mpr hrequested,
      Dict.item_ok_iff.mpr hsofar, liftM_ok, except_ok_bind]
    rfl
  · rw [Dict.mem_def, Dict.mem_keys_set, ← Dict.mem_def, hr, or_iff_right_iff_imp]
    rintro rfl
    exact hd

/-- What the apps on a node use is found when all of them request something in every dimension. -/
theorem usedResourcesOnNode_returns {dimensions : List ResourceType} (hnd : dimensions.Nodup)
    {appsSpec : Dict AppName Resources} {apps : Apps}
    (h : ∀ app ∈ apps.keys, Requested dimensions appsSpec app) :
    ∃ used, usedResourcesOnNode dimensions (apps.map fun _ tasks => tasks.length) appsSpec = .ok used ∧
      (∀ d, d ∈ used ↔ d ∈ dimensions) ∧ ∀ d ∈ dimensions, used.amount d = useOf appsSpec d apps := by
  have hreturns : ∃ used, usedResourcesOnNode dimensions (apps.map fun _ tasks => tasks.length)
      appsSpec = .ok used ∧ ∀ d, d ∈ used ↔ d ∈ dimensions := by
    refine except_foldlM_returns (I := fun r : Resources => ∀ d, d ∈ r ↔ d ∈ dimensions) ?_ ?_
    · intro d
      rw [Dict.mem_def, Dict.mem_keys_ofItems]
      simp
    · intro p hp used hused
      obtain ⟨q, hq, rfl⟩ := List.mem_map.mp hp
      exact addApp_returns (h q.1 (Dict.mem_keys.mpr ⟨q.2, hq⟩)) hused
  obtain ⟨used, hused, -⟩ := hreturns
  obtain ⟨hkeys, hamount⟩ := usedResourcesOnNode_ok hnd hused
  refine ⟨used, hused, hkeys, fun d hd => (hamount d hd).trans ?_⟩
  rw [useOf, Dict.items_map, List.map_map]
  rfl

theorem requested_of_addApp {dimensions : List ResourceType} {appsSpec : Dict AppName Resources}
    {app : AppName × Nat} {used r : Resources} (h : addApp dimensions appsSpec used app = .ok r) :
    Requested dimensions appsSpec app.1 := by
  intro d hd
  obtain ⟨_, _, hstep⟩ := except_foldlM_ok_mem h d hd
  obtain ⟨spec, hspec, hstep⟩ := except_bind_ok_iff.mp hstep
  obtain ⟨requested, hrequested, -⟩ := except_bind_ok_iff.mp hstep
  exact ⟨spec, Dict.item_ok_iff.mp (liftM_ok_iff.mp hspec),
    Dict.mem_keys_iff_get?.mpr ⟨_, Dict.item_ok_iff.mp (liftM_ok_iff.mp hrequested)⟩⟩

theorem sumResources_returns {a b : Resources} (h : a.SameKeys b) :
    ∃ r, sumResources a b = .ok r :=
  ⟨_, except_seq_ok_iff.mpr ⟨checkKeys_ok_iff.mpr h, rfl⟩⟩

/-- An app passes the check on a node that has room for more than there is with it. -/
theorem appFits_of_room {node : NodeName} {app : AppName} {dimensions : List ResourceType}
    {nodesCapacities : Dict NodeName Resources} {assignedApps : Dict NodeName Apps}
    {appsSpec : Dict AppName Resources} {capacity requested planned : Resources} {apps : Apps}
    {ratio : Option ℚ} (hnd : dimensions.Nodup)
    (hcapacity : nodesCapacities.get? node = some capacity) (hnonneg : capacity.NonNeg)
    (hkeys : ∀ d, d ∈ capacity ↔ d ∈ dimensions)
    (hratio : calculateReadWriteRatio capacity = .ok ratio) (hne : ratio ≠ some 0)
    (happs : assignedApps.get? node = some apps)
    (hall : ∀ app ∈ apps.keys, Requested dimensions appsSpec app)
    (hrequested : appsSpec.get? app = some requested) (hsame : ∀ d, d ∈ requested ↔ d ∈ dimensions)
    (hplanned : ∀ d, d ∈ planned ↔ d ∈ dimensions)
    (hle : ∀ d ∈ dimensions, useOf appsSpec d apps + requested.amount d ≤ planned.amount d)
    (hroom : ∀ d ∈ capacity, taken ratio planned d ≤ capacity.amount d) :
    ∃ message, appFits node app dimensions nodesCapacities assignedApps appsSpec =
      .ok (true, message) := by
  have hfor := ratioFor_of_ok hratio
  obtain ⟨used, hused, husedKeys, hamount⟩ := usedResourcesOnNode_returns hnd hall
  have hfree : ∃ free, subtractResources capacity used ratio = .ok free :=
    ⟨_, (subtractResources_ok_iff hfor).mpr
      ⟨sameKeys_of_iff fun d => (hkeys d).trans (husedKeys d).symm, hne, rfl⟩⟩
  obtain ⟨free, hfree⟩ := hfree
  obtain ⟨total, htotal⟩ :=
    sumResources_returns (sameKeys_of_iff fun d => (hsame d).trans (husedKeys d).symm)
  obtain ⟨-, htotalKeys, htotalAmount⟩ := sumResources_ok htotal
  have hsub : ∃ left, subtractResources capacity total ratio = .ok left :=
    ⟨_, (subtractResources_ok_iff hfor).mpr
      ⟨sameKeys_of_iff fun d => ((hkeys d).trans (hsame d).symm).trans (htotalKeys.iff d).symm, hne,
        rfl⟩⟩
  obtain ⟨left, hleft⟩ := hsub
  have hanswer : enoughResourcesOnNode capacity total ratio =
      .ok ⟨(brokenCapacities left).items.isEmpty, brokenCapacities left, left⟩ := by
    rw [enoughResourcesOnNode, hleft]
    rfl
  -- what there is with the app is at most what was planned
  have htotalLe : ∀ d, total.amount d ≤ planned.amount d := by
    intro d
    by_cases hd : d ∈ dimensions
    · rw [htotalAmount, hamount d hd, add_comm]
      exact hle d hd
    · rw [amount_of_not_mem (mt (hplanned d).mp hd),
        amount_of_not_mem fun h => hd ((hsame d).mp ((htotalKeys.iff d).mp h))]
  have henough : (brokenCapacities left).items.isEmpty = true := by
    refine (enough_iff hfor hanswer).mpr fun d hd => ?_
    refine (taken_mono (hfor.nonneg hnonneg) ?_ htotalLe d).trans (hroom d hd)
    exact sameKeys_of_iff fun d => ((htotalKeys.iff d).trans (hsame d)).trans (hplanned d).symm
  refine ⟨.text "", ?_⟩
  rw [appFits, usedFreeRequested, Dict.item_ok_iff.mpr hcapacity, Dict.item_ok_iff.mpr happs,
    Dict.item_ok_iff.mpr hrequested]
  simp only [liftM_ok, except_ok_bind, hratio, hused, hfree, pure, Except.pure, htotal,
    Except.mapError, hanswer, henough, if_true]

namespace Score

/-! ## The tasks on the wrong type of node -/

/-- The tasks of an app on a node. -/
def find (apps : RescheduleApps) (app : AppName) (node : NodeName) : Option (List TaskName) :=
  (apps.get? app).bind (·.get? node)

theorem find_note {apps : RescheduleApps} {app app' : AppName} {node node' : NodeName}
    {tasks : List TaskName} : find (note apps app node tasks) app' node' =
      if app' = app ∧ node' = node then some tasks else find apps app' node' := by
  unfold find note
  rw [Dict.get?_set]
  by_cases happ : app' = app
  · subst happ
    rw [if_pos rfl, Option.bind_some, Dict.get?_set]
    by_cases hnode : node' = node
    · rw [if_pos hnode, if_pos ⟨rfl, hnode⟩]
    · rw [if_neg hnode, if_neg fun h => hnode h.2]
      cases apps.get? app' with
      | none => rfl
      | some nodes => rfl
  · rw [if_neg happ, if_neg fun h => happ h.1]

/-- Note the tasks on a node of the apps that are to be noted. -/
def noteAll (c : AppName → Bool) (node : NodeName) (l : List (AppName × List TaskName))
    (apps : RescheduleApps) : RescheduleApps :=
  l.foldl (fun apps q => if c q.1 then note apps q.1 node q.2 else apps) apps

theorem find_noteAll {c : AppName → Bool} {node node' : NodeName} {app : AppName}
    {tasks : List TaskName} {l : List (AppName × List TaskName)} (hnd : (l.map Prod.fst).Nodup)
    {apps : RescheduleApps} (hfresh : ∀ q ∈ l, find apps q.1 node = none) :
    find (noteAll c node l apps) app node' = some tasks ↔
      (node' = node ∧ c app = true ∧ (app, tasks) ∈ l) ∨ find apps app node' = some tasks := by
  induction l generalizing apps with
  | nil => exact ⟨.inr, fun h => h.resolve_left fun h => absurd h.2.2 List.not_mem_nil⟩
  | cons q l ih =>
    rw [List.map_cons, List.nodup_cons] at hnd
    have hq := hfresh q List.mem_cons_self
    have hl := fun q' hq' => hfresh q' (List.mem_cons_of_mem _ hq')
    have hother : ∀ q' ∈ l, q'.1 ≠ q.1 := fun q' hq' he => hnd.1 (he ▸ List.mem_map_of_mem hq')
    rw [noteAll, List.foldl_cons, ← noteAll]
    by_cases hc : c q.1 = true
    · rw [if_pos hc, ih hnd.2, find_note]
      · by_cases he : app = q.1 ∧ node' = node
        · obtain ⟨rfl, rfl⟩ := he
          rw [if_pos ⟨rfl, rfl⟩, hq, Option.some.injEq, List.mem_cons, Prod.ext_iff]
          have hnot : (q.1, tasks) ∉ l := fun hin => hother _ hin rfl
          simp [hnot, hc, eq_comm]
        · rw [if_neg he, List.mem_cons]
          refine or_congr_left (and_congr_right fun hnode => and_congr_right fun _ => ?_)
          rw [or_iff_right]
          exact fun hpair => he ⟨congrArg Prod.fst hpair, hnode⟩
      · intro q' hq'
        rw [find_note, if_neg fun h => hother q' hq' h.1]
        exact hl q' hq'
    · rw [if_neg hc, ih hnd.2 hl]
      refine or_congr_left (and_congr_right fun _ => and_congr_right fun happ => ?_)
      rw [List.mem_cons, or_iff_right]
      intro he
      exact hc (congrArg Prod.fst he ▸ happ)

/-- The tasks of the apps that are on nodes of such a type, and are better off on another. -/
def Wrong (self : Score) (appsProfile : AppsProfile) (nodeType : NodeType)
    (l : List (NodeName × Apps)) (app : AppName) (node : NodeName) (tasks : List TaskName) : Prop :=
  self.nodesType.get? node = some nodeType ∧ self.appFitNodeType appsProfile app nodeType = false ∧
    ∃ apps, (node, apps) ∈ l ∧ apps.get? app = some tasks

/-- One node of the loop: what it notes of the nodes of either type. -/
theorem misplaced_step (self : Score) (appsProfile : AppsProfile) (node : NodeName)
    (nodeType : NodeType) (l : List (AppName × List TaskName))
    (found : RescheduleApps × RescheduleApps) :
    l.foldl (fun found q =>
      if self.appFitNodeType appsProfile q.1 nodeType then found
      else if nodeType = .PMEM then (note found.1 q.1 node q.2, found.2)
      else if nodeType = .DRAM then (found.1, note found.2 q.1 node q.2)
      else found) found =
      (noteAll (fun app => nodeType = .PMEM ∧ self.appFitNodeType appsProfile app nodeType = false)
          node l found.1,
        noteAll (fun app => nodeType = .DRAM ∧ self.appFitNodeType appsProfile app nodeType = false)
          node l found.2) := by
  induction l generalizing found with
  | nil => rfl
  | cons q l ih =>
    rw [List.foldl_cons, ih, noteAll, noteAll, noteAll, noteAll, List.foldl_cons, List.foldl_cons]
    have hne : NodeType.PMEM ≠ NodeType.DRAM := by decide
    by_cases hfit : self.appFitNodeType appsProfile q.1 nodeType = true
    · simp [hfit]
    · by_cases hpmem : nodeType = .PMEM
      · subst hpmem
        simp [hfit, hne]
      · by_cases hdram : nodeType = .DRAM
        · subst hdram
          simp [hfit, hne.symm]
        · simp [hfit, hpmem, hdram]

variable {self : Score} {appsProfile : AppsProfile} {appsOnNode : Dict NodeName Apps}

theorem wrong_snoc {nodeType nodeType' : NodeType} {pre : List (NodeName × Apps)} {node : NodeName}
    {apps : Apps} {noted : RescheduleApps}
    (h : ∀ app node tasks, find noted app node = some tasks ↔
      self.Wrong appsProfile nodeType pre app node tasks)
    (hfresh : ∀ apps, (node, apps) ∉ pre) (htype : self.nodesType.get? node = some nodeType')
    (app : AppName) (node' : NodeName) (tasks : List TaskName) :
    find (noteAll (fun app => nodeType' = nodeType ∧
        self.appFitNodeType appsProfile app nodeType' = false) node apps.items noted)
      app node' = some tasks ↔ self.Wrong appsProfile nodeType (pre ++ [(node, apps)]) app node' tasks := by
  have hnone : ∀ app, find noted app node = none := by
    intro app
    rw [Option.eq_none_iff_forall_ne_some]
    intro tasks hfind
    obtain ⟨-, -, apps', hin, -⟩ := (h app node tasks).mp hfind
    exact hfresh apps' hin
  rw [find_noteAll apps.nodup fun q _ => hnone q.1, h, decide_eq_true_eq]
  unfold Wrong
  constructor
  · rintro (⟨rfl, ⟨rfl, hfit⟩, hin⟩ | ⟨ht, hfit, apps', hin, hget⟩)
    · exact ⟨htype, hfit, apps, List.mem_append_right _ List.mem_cons_self,
        Dict.get?_eq_some_iff.mpr hin⟩
    · exact ⟨ht, hfit, apps', List.mem_append_left _ hin, hget⟩
  · rintro ⟨ht, hfit, apps', hin, hget⟩
    rcases List.mem_append.mp hin with hin | hin
    · exact .inr ⟨ht, hfit, apps', hin, hget⟩
    · cases List.mem_singleton.mp hin
      cases htype.symm.trans ht
      exact .inl ⟨rfl, ⟨rfl, hfit⟩, Dict.get?_eq_some_iff.mp hget⟩

/-- What is noted: the apps on the wrong type of node, with all their tasks there. -/
theorem misplaced_ok {found : RescheduleApps × RescheduleApps}
    (h : self.misplaced appsProfile appsOnNode = .ok found) :
    (∀ app node tasks, find found.1 app node = some tasks ↔
        self.Wrong appsProfile .PMEM appsOnNode.items app node tasks) ∧
      ∀ app node tasks, find found.2 app node = some tasks ↔
        self.Wrong appsProfile .DRAM appsOnNode.items app node tasks := by
  refine except_foldlM_ok (I := fun pre (found : RescheduleApps × RescheduleApps) =>
    (∀ app node tasks, find found.1 app node = some tasks ↔
        self.Wrong appsProfile .PMEM pre app node tasks) ∧
      ∀ app node tasks, find found.2 app node = some tasks ↔
        self.Wrong appsProfile .DRAM pre app node tasks) h ?_ ?_
  · have hnil : ∀ nodeType app node tasks, find ∅ app node = some tasks ↔
        self.Wrong appsProfile nodeType [] app node tasks := by
      intro nodeType app node tasks
      constructor
      · exact fun h => absurd h (Option.some_ne_none _).symm
      · rintro ⟨-, -, apps, hin, -⟩
        exact absurd hin List.not_mem_nil
    exact ⟨hnil _, hnil _⟩
  · rintro pre ⟨node, apps⟩ post found found' hl ⟨hpmem, hdram⟩ hstep
    obtain ⟨nodeType, htype, hstep⟩ := except_bind_ok_iff.mp hstep
    rw [misplaced_step] at hstep
    cases hstep
    have htype := Dict.item_ok_iff.mp (liftM_ok_iff.mp htype)
    have hfresh : ∀ apps', (node, apps') ∉ pre := by
      intro apps' hin
      exact (Dict.nodup_of_items_append hl).1 (List.mem_map.mpr ⟨_, hin, rfl⟩)
    exact ⟨wrong_snoc hpmem hfresh htype, wrong_snoc hdram hfresh htype⟩

/-! ## Freeing the PMEM nodes -/

/-- On every node so much less is used than before. -/
def Less (used used' : Dict NodeName Resources) (less : NodeName → ResourceType → ℚ) : Prop :=
  ∀ node r', used'.get? node = some r' → ∃ r, used.get? node = some r ∧ r'.SameKeys r ∧
    ∀ d ∈ r, r'.amount d = r.amount d - less node d

theorem Less.refl {used : Dict NodeName Resources} {less : NodeName → ResourceType → ℚ}
    (h : ∀ node d, less node d = 0) : Less used used less :=
  fun node r hr => ⟨r, hr, sameKeys_of_iff fun _ => Iff.rfl, fun d _ => by rw [h, sub_zero]⟩

theorem Less.trans {used used' used'' : Dict NodeName Resources}
    {less less' less'' : NodeName → ResourceType → ℚ} (h : Less used used' less)
    (h' : Less used' used'' less') (hsum : ∀ node d, less'' node d = less node d + less' node d) :
    Less used used'' less'' := by
  intro node r'' hr''
  obtain ⟨r', hr', hkeys', hamount'⟩ := h' node r'' hr''
  obtain ⟨r, hr, hkeys, hamount⟩ := h node r' hr'
  refine ⟨r, hr, hkeys'.trans hkeys, fun d hd => ?_⟩
  rw [hamount' d ((hkeys.iff d).mpr hd), hamount d hd, hsum, sub_sub]

theorem freeTask_ok {app : AppName} {node : NodeName} {appsSpec : Dict AppName Resources}
    {used used' : Dict NodeName Resources} (h : freeTask app node appsSpec used = .ok used') :
    Less used used' fun node' d => if node' = node then specAmount appsSpec d app else 0 := by
  obtain ⟨usedOnNode, hused, h⟩ := except_bind_ok_iff.mp h
  obtain ⟨spec, hspec, h⟩ := except_bind_ok_iff.mp h
  obtain ⟨left, hleft, h⟩ := except_bind_ok_iff.mp h
  cases h
  have hused := Dict.item_ok_iff.mp (liftM_ok_iff.mp hused)
  have hspec := Dict.item_ok_iff.mp (liftM_ok_iff.mp hspec)
  obtain ⟨-, rfl⟩ := subtractResources_none_iff.mp hleft
  intro node' r' hr'
  rw [Dict.get?_set] at hr'
  split at hr'
  · next he =>
    cases hr'
    refine ⟨usedOnNode, he ▸ hused, sameKeys_map, fun d hd => ?_⟩
    simp only [amount_map hd, if_pos he, specAmount, hspec, Option.getD_some]
  · next hne =>
    refine ⟨r', hr', sameKeys_of_iff fun _ => Iff.rfl, fun d _ => ?_⟩
    simp only [if_neg hne, sub_zero]

/-- The tasks of an app on one node. -/
theorem freeTasks_ok {app : AppName} {node : NodeName} {appsSpec : Dict AppName Resources}
    {l : List TaskName} {acc acc' : Dict NodeName Resources × List TaskName}
    (h : l.foldlM (fun (acc : Dict NodeName Resources × List TaskName) task => do
      let used ← freeTask app node appsSpec acc.1
      pure (used, acc.2 ++ [task])) acc = .ok acc') :
    Less acc.1 acc'.1 (fun node' d =>
        if node' = node then specAmount appsSpec d app * (l.length : ℚ) else 0) ∧
      acc'.2 = acc.2 ++ l := by
  refine except_foldlM_ok (I := fun pre (acc' : Dict NodeName Resources × List TaskName) =>
    Less acc.1 acc'.1 (fun node' d =>
        if node' = node then specAmount appsSpec d app * (pre.length : ℚ) else 0) ∧
      acc'.2 = acc.2 ++ pre) h ⟨Less.refl fun _ _ => by simp, (List.append_nil _).symm⟩ ?_
  rintro pre task post r r' - ⟨hless, htasks⟩ hstep
  obtain ⟨used, hfree, hstep⟩ := except_bind_ok_iff.mp hstep
  cases hstep
  refine ⟨hless.trans (freeTask_ok hfree) fun node' d => ?_, by rw [htasks, List.append_assoc]⟩
  split
  · rw [List.length_append, List.length_singleton]
    push_cast
    ring
  · exact (add_zero 0).symm

/-- The tasks of an app on all its nodes. -/
theorem freeApp_ok {app : AppName} {nodes : Dict NodeName (List TaskName)}
    {appsSpec : Dict AppName Resources} {acc acc' : Dict NodeName Resources × List TaskName}
    (h : nodes.items.foldlM (fun (acc : Dict NodeName Resources × List TaskName) q =>
      if q.1 ∈ acc.1 then q.2.foldlM (fun (acc : Dict NodeName Resources × List TaskName) task => do
        let used ← freeTask app q.1 appsSpec acc.1
        pure (used, acc.2 ++ [task])) acc
      else .error (.builtin (.RuntimeError "Capacities of %r not available!"))) acc = .ok acc') :
    Less acc.1 acc'.1 (fun node d =>
        specAmount appsSpec d app * (((nodes.get? node).getD []).length : ℚ)) ∧
      acc'.2 = acc.2 ++ nodes.items.flatMap Prod.snd := by
  have hrun := except_foldlM_ok
    (I := fun pre (acc' : Dict NodeName Resources × List TaskName) =>
      Less acc.1 acc'.1 (fun node d => (pre.map fun q : NodeName × List TaskName =>
        if node = q.1 then specAmount appsSpec d app * (q.2.length : ℚ) else 0).sum) ∧
      acc'.2 = acc.2 ++ pre.flatMap Prod.snd) h ⟨Less.refl fun _ _ => rfl, (List.append_nil _).symm⟩ ?_
  · have hsum : ∀ node d, (nodes.items.map fun q : NodeName × List TaskName =>
        if node = q.1 then specAmount appsSpec d app * (q.2.length : ℚ) else 0).sum =
          specAmount appsSpec d app * (((nodes.get? node).getD []).length : ℚ) := by
      intro node d
      rw [Dict.sum_items_pick fun tasks : List TaskName =>
        specAmount appsSpec d app * (tasks.length : ℚ)]
      cases nodes.get? node <;> simp
    simpa only [hsum] using hrun
  · rintro pre q post r r' - ⟨hless, htasks⟩ hstep
    split at hstep
    · obtain ⟨hless', htasks'⟩ := freeTasks_ok hstep
      refine ⟨hless.trans hless' fun node d => ?_, ?_⟩
      · rw [List.map_append, List.sum_append, List.map_singleton, List.sum_singleton]
      · rw [htasks', htasks, List.append_assoc, List.flatMap_append, List.flatMap_singleton]
    · cases hstep

/-- What the noted tasks use on a node. -/
def freedOn (appsSpec : Dict AppName Resources) (l : List (AppName × Dict NodeName (List TaskName)))
    (node : NodeName) (d : ResourceType) : ℚ :=
  (l.map fun p => specAmount appsSpec d p.1 * (((p.2.get? node).getD []).length : ℚ)).sum

/-- Of what is used on a node as much goes as the noted tasks there use. -/
theorem freePmem_ok {noted : RescheduleApps} {appsSpec : Dict AppName Resources}
    {used : Dict NodeName Resources} {freed : Dict NodeName Resources × List TaskName}
    (h : freePmem noted appsSpec used = .ok freed) :
    Less used freed.1 (freedOn appsSpec noted.items) ∧
      ∀ task, task ∈ freed.2 ↔ ∃ app node tasks, find noted app node = some tasks ∧ task ∈ tasks := by
  have hrun := except_foldlM_ok
    (I := fun pre (acc : Dict NodeName Resources × List TaskName) =>
      Less used acc.1 (freedOn appsSpec pre) ∧
        acc.2 = pre.flatMap fun p : AppName × Dict NodeName (List TaskName) =>
          p.2.items.flatMap Prod.snd) h ⟨Less.refl fun _ _ => rfl, rfl⟩ ?_
  · refine ⟨hrun.1, fun task => ?_⟩
    rw [hrun.2]
    simp only [List.mem_flatMap, find, Option.bind_eq_some_iff, Dict.get?_eq_some_iff, Prod.exists]
    constructor
    · rintro ⟨app, nodes, hin, node, tasks, hin', htask⟩
      exact ⟨app, node, tasks, ⟨nodes, hin, hin'⟩, htask⟩
    · rintro ⟨app, node, tasks, ⟨nodes, hin, hin'⟩, htask⟩
      exact ⟨app, nodes, hin, node, tasks, hin', htask⟩
  · rintro pre p post r r' - ⟨hless, htasks⟩ hstep
    obtain ⟨hless', htasks'⟩ := freeApp_ok hstep
    refine ⟨hless.trans hless' fun node d => ?_, ?_⟩
    · rw [freedOn, List.map_append, List.sum_append, List.map_singleton, List.sum_singleton, freedOn]
    · rw [htasks', htasks, List.flatMap_append, List.flatMap_singleton]

/-! ## The plan -/

/-- So much is planned to be used on a node, in every dimension, and no less is used by the apps. -/
structure Room (dimensions : List ResourceType) (appsSpec : Dict AppName Resources)
    (planned : Resources) (apps : Apps) : Prop where
  keys : ∀ d, d ∈ planned ↔ d ∈ dimensions
  requested : ∀ app ∈ apps.keys, Requested dimensions appsSpec app
  le : ∀ d ∈ dimensions, useOf appsSpec d apps ≤ planned.amount d

theorem onPmem_ok {V : Type} {d r : Dict NodeName V} (h : self.onPmem d = .ok r) {node : NodeName}
    {v : V} (hv : r.get? node = some v) :
    d.get? node = some v ∧ self.nodesType.get? node = some .PMEM := by
  suffices hI : (node, v) ∈ d.items ∧ self.nodesType.get? node = some .PMEM from
    ⟨Dict.get?_eq_some_iff.mpr hI.1, hI.2⟩
  refine except_foldlM_ok (I := fun pre (r : Dict NodeName V) => r.get? node = some v →
    (node, v) ∈ pre ∧ self.nodesType.get? node = some .PMEM) h
    (fun hv => absurd hv (Option.some_ne_none _).symm) ?_ hv
  rintro pre p post r r' - hI hstep hv
  obtain ⟨nodeType, htype, hstep⟩ := except_bind_ok_iff.mp hstep
  cases hstep
  have htype := Dict.item_ok_iff.mp (liftM_ok_iff.mp htype)
  have hold : r.get? node = some v → (node, v) ∈ pre ++ [p] ∧
      self.nodesType.get? node = some .PMEM :=
    fun hv => ⟨List.mem_append_left _ (hI hv).1, (hI hv).2⟩
  split at hv
  · next hpmem =>
    rw [Dict.get?_set] at hv
    split at hv
    · next he =>
      cases hv
      refine ⟨List.mem_append_right _ ?_, ?_⟩
      · rw [he]
        exact List.mem_singleton.mpr rfl
      · rw [he, htype, hpmem]
    · exact hold hv
  · exact hold hv

theorem room_start {dimensions : List ResourceType} (hnd : dimensions.Nodup)
    {appsSpec : Dict AppName Resources} {apps : Apps} {used : Resources}
    (h : usedResourcesOnNode dimensions (apps.map fun _ tasks => tasks.length) appsSpec = .ok used) :
    (∀ d, d ∈ used ↔ d ∈ dimensions) ∧ (∀ app ∈ apps.keys, Requested dimensions appsSpec app) ∧
      ∀ d ∈ dimensions, used.amount d = useOf appsSpec d apps := by
  have hrequested : ∀ app ∈ apps.keys, Requested dimensions appsSpec app := by
    intro app happ
    obtain ⟨tasks, hin⟩ := Dict.mem_keys.mp happ
    obtain ⟨_, _, hstep⟩ := except_foldlM_ok_mem h (app, tasks.length)
      (List.mem_map.mpr ⟨(app, tasks), hin, rfl⟩)
    exact requested_of_addApp hstep
  obtain ⟨used', hused, hkeys, hamount⟩ := usedResourcesOnNode_returns hnd hrequested
  cases h.symm.trans hused
  exact ⟨hkeys, hrequested, hamount⟩

private theorem sum_filter {α : Type} (l : List α) (p : α → Bool) (g : α → ℚ) :
    ((l.filter p).map g).sum = (l.map fun a => if p a then g a else 0).sum := by
  rw [List.sum_map_ite (fun a => p a = true) g (fun _ => 0) l]
  simp

/-- The noted tasks on a PMEM node use what its misplaced apps do. -/
theorem freedOn_eq {noted : RescheduleApps}
    (hnoted : ∀ app node tasks, find noted app node = some tasks ↔
      self.Wrong appsProfile .PMEM appsOnNode.items app node tasks)
    {node : NodeName} {apps : Apps} (happs : appsOnNode.get? node = some apps)
    (htype : self.nodesType.get? node = some .PMEM) (appsSpec : Dict AppName Resources)
    (d : ResourceType) : freedOn appsSpec noted.items node d =
      (apps.items.map fun q => if self.appFitNodeType appsProfile q.1 .PMEM = false then
        specAmount appsSpec d q.1 * (q.2.length : ℚ) else 0).sum := by
  have hmem : ∀ app tasks, find noted app node = some tasks ↔
      (app, tasks) ∈ apps.items ∧ self.appFitNodeType appsProfile app .PMEM = false := by
    intro app tasks
    rw [hnoted, ← Dict.get?_eq_some_iff]
    constructor
    · rintro ⟨-, hfit, apps', hin, hget⟩
      cases happs.symm.trans (Dict.get?_eq_some_iff.mpr hin)
      exact ⟨hget, hfit⟩
    · rintro ⟨hget, hfit⟩
      exact ⟨htype, hfit, apps, Dict.get?_eq_some_iff.mp happs, hget⟩
  have hperm : ((noted.items.filter fun p => (p.2.get? node).isSome).map fun p =>
      (p.1, (p.2.get? node).getD [])).Perm
        (apps.items.filter fun q => self.appFitNodeType appsProfile q.1 .PMEM = false) := by
    refine (List.perm_ext_iff_of_nodup ?_ ?_).mpr ?_
    · apply List.Nodup.of_map Prod.fst
      rw [List.map_map]
      exact noted.nodup.sublist (List.filter_sublist.map _)
    · exact .of_map _ (apps.nodup.sublist (List.filter_sublist.map _))
    · rintro ⟨app, tasks⟩
      rw [List.mem_filter, decide_eq_true_eq, ← hmem, find, Option.bind_eq_some_iff, List.mem_map]
      constructor
      · rintro ⟨⟨app', nodes⟩, hin, he⟩
        obtain ⟨hin, hsome⟩ := List.mem_filter.mp hin
        obtain ⟨tasks', htasks⟩ := Option.isSome_iff_exists.mp hsome
        rw [htasks] at he
        cases he
        exact ⟨nodes, Dict.get?_eq_some_iff.mpr hin, htasks⟩
      · rintro ⟨nodes, hnodes, htasks⟩
        refine ⟨(app, nodes), List.mem_filter.mpr ⟨Dict.get?_eq_some_iff.mp hnodes, ?_⟩, ?_⟩
        · rw [htasks, Option.isSome_some]
        · rw [htasks, Option.getD_some]
  have hsum := (hperm.map fun q => specAmount appsSpec d q.1 * (q.2.length : ℚ)).sum_eq
  rw [List.map_map, sum_filter, sum_filter] at hsum
  simp only [decide_eq_true_eq] at hsum
  rw [← hsum, freedOn]
  refine congrArg List.sum (List.map_congr_left fun p _ => ?_)
  cases h : p.2.get? node with
  | none => simp
  | some tasks => simp [h]

/-- Once the tasks that go are off a PMEM node, no more is used there than was left. -/
theorem useOf_takeOff {noted : RescheduleApps}
    (hnoted : ∀ app node tasks, find noted app node = some tasks ↔
      self.Wrong appsProfile .PMEM appsOnNode.items app node tasks)
    {node : NodeName} {apps : Apps} (happs : appsOnNode.get? node = some apps)
    (htype : self.nodesType.get? node = some .PMEM) {appsSpec : Dict AppName Resources}
    {d : ResourceType} (hnonneg : ∀ app, 0 ≤ specAmount appsSpec d app) {result : List TaskName}
    (hresult : ∀ app tasks, find noted app node = some tasks → ∀ task ∈ tasks, task ∈ result) :
    useOf appsSpec d (apps.map fun _ on => on.filter (· ∉ result)) ≤
      useOf appsSpec d apps - freedOn appsSpec noted.items node d := by
  rw [freedOn_eq hnoted happs htype, le_sub_iff_add_le, useOf, useOf, Dict.items_map, List.map_map,
    ← List.sum_map_add]
  refine List.sum_le_sum fun q hq => ?_
  have hw := hnonneg q.1
  by_cases hfit : self.appFitNodeType appsProfile q.1 .PMEM = false
  · have hnil : q.2.filter (· ∉ result) = [] := by
      rw [List.filter_eq_nil_iff]
      intro task htask
      have hwrong := (hnoted q.1 node q.2).mpr ⟨htype, hfit, apps, Dict.get?_eq_some_iff.mp happs,
        Dict.get?_eq_some_iff.mpr hq⟩
      simp [hresult q.1 q.2 hwrong task htask]
    simp only [Function.comp_apply, hnil, if_pos hfit]
    simp
  · rw [if_neg hfit, add_zero]
    refine mul_le_mul_of_nonneg_left ?_ hw
    exact_mod_cast List.length_filter_le _ _

/-- The scaled capacities are there, and are no less than what the PMEM nodes report. -/
theorem scaled_of_scalesUp {nodesCapacities : Dict NodeName Resources}
    (h : self.ScalesUp nodesCapacities) :
    ∃ scaledCapacities, self.fit.scaledCapacities nodesCapacities = .ok scaledCapacities ∧
      ∀ node capacity, nodesCapacities.get? node = some capacity →
        self.nodesType.get? node = some .PMEM → ∃ scaled, scaledCapacities.get? node = some scaled ∧
          scaled.SameKeys capacity ∧ (∀ d, capacity.amount d ≤ scaled.amount d) ∧
          ∀ d, d ≠ CPU → scaled.amount d = capacity.amount d := by
  have hreturns : ∃ scaledCapacities,
      self.fit.scaledCapacities nodesCapacities = .ok scaledCapacities := by
    refine Dict.comprehendM_returns fun node capacity hin => ?_
    by_cases hpmem : node ∈ self.fit.pmemNodes
    · obtain ⟨cpu, hcpu⟩ := Dict.mem_keys_iff_get?.mp
        (h node hpmem capacity (Dict.get?_eq_some_iff.mpr hin)).1
      rw [if_pos hpmem, Dict.item_ok_iff.mpr hcpu]
      exact ⟨_, rfl⟩
    · rw [if_neg hpmem]
      exact ⟨_, rfl⟩
  obtain ⟨scaledCapacities, hscaled⟩ := hreturns
  refine ⟨scaledCapacities, hscaled, fun node capacity hcapacity htype => ?_⟩
  obtain ⟨scaled, hone, hget⟩ :=
    (Dict.comprehendM_ok hscaled).2 node capacity (Dict.get?_eq_some_iff.mp hcapacity)
  refine ⟨scaled, hget, ?_⟩
  by_cases hpmem : node ∈ self.fit.pmemNodes
  · obtain ⟨hin, hle⟩ := h node hpmem capacity hcapacity
    rw [if_pos hpmem] at hone
    obtain ⟨cpu, hcpu, hone⟩ := except_bind_ok_iff.mp hone
    cases hone
    have hcpu := amount_of_get? (Dict.item_ok_iff.mp (liftM_ok_iff.mp hcpu))
    refine ⟨sameKeys_of_iff fun d => ?_, fun d => ?_, fun d hd => ?_⟩
    · rw [Dict.mem_def, Dict.mem_keys_set, ← Dict.mem_def, or_iff_right_iff_imp]
      rintro rfl
      exact hin
    · rw [amount_set]
      split
      · next he =>
        rw [he, ← hcpu]
        exact hle htype
      · exact le_refl _
    · rw [amount_set, if_neg hd]
  · rw [if_neg hpmem] at hone
    cases hone
    exact ⟨sameKeys_of_iff fun _ => Iff.rfl, fun _ => le_refl _, fun _ _ => rfl⟩

end Score

/-- The cluster with tasks put on their nodes, one after the other. -/
def QueryDataProviderInfo.putAll (queried : QueryDataProviderInfo) (placed : List Placed) :
    QueryDataProviderInfo := placed.foldl QueryDataProviderInfo.put queried

theorem QueryDataProviderInfo.putAll_snoc {queried : QueryDataProviderInfo} {placed : List Placed}
    {p : Placed} : queried.putAll (placed ++ [p]) = (queried.putAll placed).put p :=
  List.foldl_append

theorem QueryDataProviderInfo.putAll_cons {queried : QueryDataProviderInfo} {placed : List Placed}
    {p : Placed} : queried.putAll (p :: placed) = (queried.put p).putAll placed := rfl

@[simp] theorem QueryDataProviderInfo.nodesCapacities_putAll {queried : QueryDataProviderInfo}
    {placed : List Placed} : (queried.putAll placed).nodesCapacities = queried.nodesCapacities := by
  induction placed generalizing queried with
  | nil => rfl
  | cons p placed ih => exact ih

@[simp] theorem QueryDataProviderInfo.appsSpec_putAll {queried : QueryDataProviderInfo}
    {placed : List Placed} : (queried.putAll placed).appsSpec = queried.appsSpec := by
  induction placed generalizing queried with
  | nil => rfl
  | cons p placed ih => exact ih

theorem useOf_on {appsSpec : Dict AppName Resources} {d : ResourceType} {apps : Apps} {p : Placed} :
    useOf appsSpec d (p.on apps) = useOf appsSpec d apps + specAmount appsSpec d p.app := by
  rw [useOf, Placed.on,
    Dict.sum_items_set fun app (tasks : List TaskName) => specAmount appsSpec d app * (tasks.length : ℚ),
    ← useOf]
  cases apps.get? p.app with
  | none => simp
  | some tasks =>
    simp
    ring

@[simp] theorem QueryDataProviderInfo.assignedApps_put {queried : QueryDataProviderInfo}
    {p : Placed} : (queried.put p).assignedApps =
      queried.assignedApps.set p.node (p.on ((queried.assignedApps.get? p.node).getD ∅)) := rfl

namespace Score

section Room

variable {dimensions : List ResourceType} {appsSpec : Dict AppName Resources}
  {planned requested total : Resources} {apps : Apps}

/-- More may be planned than is needed. -/
theorem Room.more (h : Room dimensions appsSpec planned apps) (hnonneg : requested.NonNeg)
    (htotal : sumResources planned requested = .ok total) : Room dimensions appsSpec total apps := by
  obtain ⟨-, hkeys, hamount⟩ := sumResources_ok htotal
  refine ⟨fun d => (hkeys.iff d).trans (h.keys d), h.requested, fun d hd => ?_⟩
  rw [hamount]
  exact le_add_of_le_of_nonneg (h.le d hd) (hnonneg.amount d)

/-- A task that was planned has room. -/
theorem Room.put {p : Placed} (h : Room dimensions appsSpec planned apps)
    (hrequested : appsSpec.get? p.app = some requested)
    (htotal : sumResources planned requested = .ok total) :
    Room dimensions appsSpec total (p.on apps) := by
  obtain ⟨hsame, hkeys, hamount⟩ := sumResources_ok htotal
  refine ⟨fun d => (hkeys.iff d).trans (h.keys d), fun app happ => ?_, fun d hd => ?_⟩
  · rcases Dict.mem_keys_set.mp happ with rfl | happ
    · exact fun d hd => ⟨requested, hrequested, (hsame.iff d).mp ((h.keys d).mpr hd)⟩
    · exact h.requested app happ
  · rw [useOf_on, hamount, specAmount, hrequested, Option.getD_some]
    have := h.le d hd
    linarith

end Room

theorem canPut_snoc {self : Score} {queried : QueryDataProviderInfo} {placed : List Placed}
    {p : Placed} : self.CanPut queried (placed ++ [p]) ↔ self.CanPut queried placed ∧
      self.nodesType.get? p.node = some .PMEM ∧
      ∃ message, self.fit.appFitNode p.node p.app (queried.putAll placed) = .ok (true, message) := by
  induction placed generalizing queried with
  | nil =>
    rw [List.nil_append, CanPut, CanPut, QueryDataProviderInfo.putAll, List.foldl_nil]
    simp only [CanPut, and_true, true_and]
  | cons q placed ih =>
    rw [List.cons_append, CanPut, CanPut, ih, QueryDataProviderInfo.putAll_cons, and_assoc, and_assoc]

/-- How far the plan is. What it counts as used on a PMEM node leaves room for the tasks there and
the ones it placed, which can be put there in this order. -/
structure Plan (score : Score) (start : QueryDataProviderInfo) (freed : List TaskName)
    (Considered : AppName → TaskName → Prop) (acc : Dict NodeName Resources × List TaskName)
    (placed : List Placed) : Prop where
  room : ∀ node planned, acc.1.get? node = some planned →
    score.nodesType.get? node = some .PMEM ∧
      ∃ apps, (start.putAll placed).assignedApps.get? node = some apps ∧
        Room score.fit.dimensions start.appsSpec planned apps
  canPut : score.CanPut start placed
  tasks : ∀ task, task ∈ acc.2 ↔ task ∈ freed ∨ task ∈ placed.map Placed.task
  once : (placed.map Placed.task).Nodup
  considered : ∀ p ∈ placed, Considered p.app p.task

section Plan

variable {self : Score} {start : QueryDataProviderInfo} {freed : List TaskName}
  {Considered : AppName → TaskName → Prop} {acc acc' : Dict NodeName Resources × List TaskName}
  {ratios : Dict NodeName (Option ℚ)} {app : AppName} {task : TaskName}

/-- The ratios of the bandwidths are those of the nodes. -/
def RatiosOf (ratios : Dict NodeName (Option ℚ)) (nodesCapacities : Dict NodeName Resources) : Prop :=
  ∀ node ratio, ratios.get? node = some ratio → ∃ capacity,
    nodesCapacities.get? node = some capacity ∧ calculateReadWriteRatio capacity = .ok ratio

variable (hnd : self.fit.dimensions.Nodup)
  (hrequests : ∀ app requested, start.appsSpec.get? app = some requested → requested.NonNeg)
  (hcapacities : ∀ node capacity, start.nodesCapacities.get? node = some capacity → capacity.NonNeg)
  (hscales : self.ScalesUp start.nodesCapacities) (hratios : RatiosOf ratios start.nodesCapacities)

include hrequests in
theorem specAmount_nonneg (d : ResourceType) (app : AppName) :
    0 ≤ specAmount start.appsSpec d app := by
  unfold specAmount
  cases h : start.appsSpec.get? app with
  | none => exact le_refl 0
  | some requested => exact (hrequests app requested h).amount d

include hnd hcapacities hscales hratios

/-- Where the plan reserves a task on a node, the node passes the check with the tasks so far. -/
theorem fits_of_enough {node : NodeName} {planned requested total capacity : Resources}
    {ratio : Option ℚ} {answer : Enough} {placed : List Placed}
    (hplan : self.Plan start freed Considered acc placed) (hused : acc.1.get? node = some planned)
    (hrequested : start.appsSpec.get? app = some requested)
    (htotal : sumResources planned requested = .ok total)
    (hcapacity : start.nodesCapacities.get? node = some capacity)
    (hratio : ratios.get? node = some ratio)
    (hanswer : enoughResourcesOnNode capacity total ratio = .ok answer)
    (henough : answer.enough = true) :
    ∃ message, self.fit.appFitNode node app (start.putAll placed) = .ok (true, message) := by
  obtain ⟨htype, apps, happs, hroom⟩ := hplan.room node planned hused
  obtain ⟨scaledCapacities, hscaled, hall⟩ := scaled_of_scalesUp hscales
  obtain ⟨scaled, hget, hsame, hge, hother⟩ := hall node capacity hcapacity htype
  obtain ⟨capacity', hcapacity', hok⟩ := hratios node ratio hratio
  cases hcapacity.symm.trans hcapacity'
  obtain ⟨hkeys, htotalKeys, htotalAmount⟩ := sumResources_ok htotal
  have hfor := ratioFor_of_ok hok
  obtain ⟨free, hfree, -⟩ := except_bind_ok_iff.mp hanswer
  obtain ⟨hcapKeys, hne, -⟩ := (subtractResources_ok_iff hfor).mp hfree
  have hroomFor := (enough_iff hfor hanswer).mp henough
  have hnonneg := hcapacities node capacity hcapacity
  have hscaledRatio : calculateReadWriteRatio scaled = .ok ratio :=
    (calculateReadWriteRatio_congr hsame (hother _ (by decide)) (hother _ (by decide))).trans hok
  have htotalDims : ∀ d, d ∈ total ↔ d ∈ self.fit.dimensions :=
    fun d => (htotalKeys.iff d).trans (hroom.keys d)
  have hscaledNonneg : scaled.NonNeg := by
    intro v hv
    obtain ⟨d, hd⟩ := Dict.mem_values.mp hv
    rw [← amount_of_mem hd]
    exact (hnonneg.amount d).trans (hge d)
  have hle : ∀ d ∈ self.fit.dimensions,
      useOf start.appsSpec d apps + requested.amount d ≤ total.amount d := by
    intro d hd
    rw [htotalAmount]
    have := hroom.le d hd
    linarith
  obtain ⟨message, hfits⟩ := appFits_of_room hnd hget hscaledNonneg
    (fun d => ((hsame.iff d).trans (hcapKeys.iff d)).trans (htotalDims d)) hscaledRatio hne happs
    hroom.requested hrequested (fun d => (hkeys.iff d).symm.trans (hroom.keys d)) htotalDims hle
    fun d hd => (hroomFor d ((hsame.iff d).mp hd)).trans (hge d)
  refine ⟨message, ?_⟩
  rw [Fit.appFitNode, QueryDataProviderInfo.nodesCapacities_putAll,
    QueryDataProviderInfo.appsSpec_putAll, hscaled]
  exact hfits

include hrequests

/-- One node that a task is tried on. -/
theorem plan_reserve {node : NodeName} {placed : List Placed}
    (hplan : self.Plan start freed Considered acc placed)
    (hconsidered : Considered app task)
    (h : reserve start.nodesCapacities ratios start.appsSpec app task acc node = .ok acc') :
    ∃ placed', self.Plan start freed Considered acc' placed' := by
  obtain ⟨planned, hused, h⟩ := except_bind_ok_iff.mp h
  obtain ⟨requested, hrequested, h⟩ := except_bind_ok_iff.mp h
  obtain ⟨total, htotal, h⟩ := except_bind_ok_iff.mp h
  obtain ⟨capacity, hcapacity, h⟩ := except_bind_ok_iff.mp h
  obtain ⟨ratio, hratio, h⟩ := except_bind_ok_iff.mp h
  obtain ⟨answer, hanswer, h⟩ := except_bind_ok_iff.mp h
  have hused := Dict.item_ok_iff.mp (liftM_ok_iff.mp hused)
  have hrequested := Dict.item_ok_iff.mp (liftM_ok_iff.mp hrequested)
  have hcapacity := Dict.item_ok_iff.mp (liftM_ok_iff.mp hcapacity)
  have hratio := Dict.item_ok_iff.mp (liftM_ok_iff.mp hratio)
  split at h
  · next henough =>
    cases h
    have hfits := fits_of_enough hnd hcapacities hscales hratios hplan hused hrequested
      htotal hcapacity hratio hanswer henough
    obtain ⟨htype, apps, happs, hroom⟩ := hplan.room node planned hused
    obtain ⟨hkeys, htotalKeys, htotalAmount⟩ := sumResources_ok htotal
    by_cases hin : task ∈ placed.map Placed.task
    · -- the task has its node, and is reserved on one more
      refine ⟨placed, fun node' planned' hget => ?_, hplan.canPut, fun t => ?_, hplan.once,
        hplan.considered⟩
      · rw [Dict.get?_set] at hget
        split at hget
        · next he =>
          cases hget
          exact ⟨he ▸ htype, apps, he ▸ happs, hroom.more (hrequests app requested hrequested) htotal⟩
        · exact hplan.room node' planned' hget
      · rw [List.mem_append, List.mem_singleton, hplan.tasks, or_iff_left_of_imp]
        rintro rfl
        exact .inr hin
    · have hput : Room self.fit.dimensions start.appsSpec total
          (Placed.on ⟨task, app, node⟩ apps) := hroom.put hrequested htotal
      refine ⟨placed ++ [⟨task, app, node⟩], fun node' planned' hget => ?_,
        canPut_snoc.mpr ⟨hplan.canPut, htype, ?_⟩, fun t => ?_, ?_, fun p hp => ?_⟩
      · rw [Dict.get?_set] at hget
        rw [QueryDataProviderInfo.putAll_snoc, QueryDataProviderInfo.assignedApps_put, Dict.get?_set]
        split at hget
        · next he =>
          cases hget
          rw [if_pos he, happs, Option.getD_some]
          exact ⟨he ▸ htype, _, rfl, hput⟩
        · next hne =>
          rw [if_neg hne]
          exact hplan.room node' planned' hget
      · exact hfits
      · rw [List.mem_append, List.mem_singleton, hplan.tasks, List.map_append, List.mem_append,
          List.map_singleton, List.mem_singleton, or_assoc]
      · rw [List.map_append, List.map_singleton]
        refine List.nodup_append.mpr ⟨hplan.once, List.nodup_singleton _, fun t ht t' ht' he => ?_⟩
        have hsame : t = task := he.trans (List.mem_singleton.mp ht')
        exact hin (hsame ▸ ht)
      · rcases List.mem_append.mp hp with hp | hp
        · exact hplan.considered p hp
        · rw [List.mem_singleton.mp hp]
          exact hconsidered
  · cases h
    exact ⟨placed, hplan⟩

/-- The whole loop over the tasks that are considered. -/
theorem plan_all {l : List (AppName × List TaskName)} {placed : List Placed}
    (hplan : self.Plan start freed Considered acc placed)
    (hconsidered : ∀ p ∈ l, ∀ task ∈ p.2, Considered p.1 task)
    (h : l.foldlM (fun acc p =>
      p.2.foldlM (reserveTask start.nodesCapacities ratios start.appsSpec p.1) acc) acc = .ok acc') :
    ∃ placed', self.Plan start freed Considered acc' placed' := by
  refine except_foldlM_inv (I := fun acc => ∃ placed, self.Plan start freed Considered acc placed)
    ⟨placed, hplan⟩ (fun p hp acc acc' hacc hstep => ?_) h
  refine except_foldlM_inv (I := fun acc => ∃ placed, self.Plan start freed Considered acc placed)
    hacc (fun task htask acc acc' hacc hstep => ?_) hstep
  refine except_foldlM_inv (I := fun acc => ∃ placed, self.Plan start freed Considered acc placed)
    hacc (fun node _ acc acc' hacc hstep => ?_) hstep
  obtain ⟨placed, hplan⟩ := hacc
  exact plan_reserve hnd hrequests hcapacities hscales hratios hplan (hconsidered p hp task htask)
    hstep

end Plan

/-- The tasks that are considered are those on the wrong DRAM nodes. -/
theorem mem_sortedConsider {consider : RescheduleApps} {appsProfile : AppsProfile}
    {p : AppName × List TaskName} (hp : p ∈ sortedConsider appsProfile consider) {task : TaskName}
    (htask : task ∈ p.2) : ∃ node tasks, find consider p.1 node = some tasks ∧ task ∈ tasks := by
  obtain ⟨q, -, hq⟩ := List.mem_filterMap.mp hp
  obtain ⟨nodes, hnodes, rfl⟩ := Option.map_eq_some_iff.mp hq
  obtain ⟨tasks, htasks, hin⟩ := List.mem_flatten.mp (List.mem_mergeSort.mp htask)
  obtain ⟨node, hnode⟩ := Dict.mem_values.mp htasks
  refine ⟨node, tasks, ?_, hin⟩
  rw [find, hnodes, Option.bind_some, Dict.get?_eq_some_iff.mpr hnode]

/-- The plan only adds tasks. -/
theorem planned_of_freed {nodesCapacities : Dict NodeName Resources}
    {ratios : Dict NodeName (Option ℚ)} {appsSpec : Dict AppName Resources}
    {l : List (AppName × List TaskName)} {acc acc' : Dict NodeName Resources × List TaskName}
    (h : l.foldlM (fun acc p =>
      p.2.foldlM (reserveTask nodesCapacities ratios appsSpec p.1) acc) acc = .ok acc') :
    ∀ task ∈ acc.2, task ∈ acc'.2 := by
  intro t ht
  refine except_foldlM_inv (I := fun acc : Dict NodeName Resources × List TaskName => t ∈ acc.2) ht
    (fun p _ acc acc' ht hstep => ?_) h
  refine except_foldlM_inv (I := fun acc : Dict NodeName Resources × List TaskName => t ∈ acc.2) ht
    (fun task _ acc acc' ht hstep => ?_) hstep
  refine except_foldlM_inv (I := fun acc : Dict NodeName Resources × List TaskName => t ∈ acc.2) ht
    (fun node _ acc acc' ht hstep => ?_) hstep
  simp only [reserve, except_bind_ok_iff] at hstep
  obtain ⟨_, -, _, -, _, -, _, -, _, -, answer, -, hstep⟩ := hstep
  split at hstep
  · cases hstep
    exact List.mem_append_left _ ht
  · cases hstep
    exact ht

variable {self : Score} {appsProfile : AppsProfile} {appsOnNode : Dict NodeName Apps}

section Start

variable {noted : RescheduleApps} {queried : QueryDataProviderInfo} {result : List TaskName}
  {appsOnPmemNodes : Dict NodeName Apps} {used : Dict NodeName Resources}
  {freed : Dict NodeName Resources × List TaskName}

/-- Before the first task is tried there is room for the ones that stay. -/
theorem plan_start (hwf : WellFormed self.fit.dimensions queried)
    (hnoted : ∀ app node tasks, find noted app node = some tasks ↔
      self.Wrong appsProfile .PMEM queried.assignedApps.items app node tasks)
    (hpmem : self.onPmem queried.assignedApps = .ok appsOnPmemNodes)
    (hused : getNodesUsedResources self.fit.dimensions appsOnPmemNodes queried.appsSpec = .ok used)
    (hfreed : freePmem noted queried.appsSpec used = .ok freed)
    (hresult : ∀ task ∈ freed.2, task ∈ result) (Considered : AppName → TaskName → Prop) :
    self.Plan (self.takeOffPmem result queried) freed.2 Considered freed [] := by
  obtain ⟨hless, htasks⟩ := freePmem_ok hfreed
  refine ⟨fun node planned hget => ?_, trivial, fun task => ?_, List.nodup_nil, fun p hp => ?_⟩
  · obtain ⟨r, hr, hkeys, hamount⟩ := hless node planned hget
    obtain ⟨apps, happs, hr⟩ := Dict.comprehendM_get? hused hr
    obtain ⟨happs, htype⟩ := onPmem_ok hpmem happs
    obtain ⟨hrKeys, hrequested, hrAmount⟩ := room_start hwf.dimensions hr
    refine ⟨htype, apps.map fun _ on => on.filter (· ∉ result), ?_, ?_, ?_, fun d hd => ?_⟩
    · rw [QueryDataProviderInfo.putAll, List.foldl_nil, takeOffPmem, Dict.get?_map, happs,
        Option.map_some, if_pos htype]
    · exact fun d => (hkeys.iff d).trans (hrKeys d)
    · intro app happ
      obtain ⟨tasks, hin⟩ := Dict.mem_keys.mp happ
      obtain ⟨q, hq, he⟩ := List.mem_map.mp hin
      cases he
      exact hrequested q.1 (Dict.mem_keys.mpr ⟨q.2, hq⟩)
    · rw [hamount d ((hrKeys d).mpr hd), hrAmount d hd]
      refine useOf_takeOff hnoted happs htype (specAmount_nonneg hwf.requests d) ?_
      exact fun app tasks hfind task htask =>
        hresult task ((htasks task).mpr ⟨app, node, tasks, hfind, htask⟩)
  · rw [List.map_nil, or_iff_left List.not_mem_nil]
  · exact absurd hp List.not_mem_nil

end Start

theorem onNode_of_wrong {nodeType : NodeType} {app : AppName} {node : NodeName}
    {tasks : List TaskName} (h : self.Wrong appsProfile nodeType appsOnNode.items app node tasks)
    {task : TaskName} (htask : task ∈ tasks) : OnNode appsOnNode node app task := by
  obtain ⟨-, -, apps, hin, hget⟩ := h
  exact ⟨apps, Dict.get?_eq_some_iff.mpr hin, tasks, hget, htask⟩

def oneTaskCounts : Dict NodeName Apps × Dict AppName Nat :=
  (.ofItems [("node-dram", .ofItems [("memcached", ["memcached-0"])]), ("node-pmem", ∅)], ∅)

def oneTaskCapacities : Dict NodeName Resources :=
  .ofItems [("node-dram", .ofItems [(CPU, 10)]), ("node-pmem", .ofItems [(CPU, 10)])]

def oneTaskRequests : Dict AppName Resources := .ofItems [("memcached", .ofItems [(CPU, 8)])]

def oneTask (cpuScaleFactor : ℚ) : Score where
  fit :=
    { dataProvider :=
        { getAppsCounts := pure oneTaskCounts
          getNodesCapacities := fun _ => pure oneTaskCapacities
          getAppsRequestedResources := fun _ => pure oneTaskRequests
          getDramHitRatio := fun _ => pure 1
          getNodesType := pure (.ofItems [("node-dram", .DRAM), ("node-pmem", .PMEM)])
          getAppsProfile := pure (.ofItems [("memcached", 0), ("redis", 2), ("stress", 2)]) }
      dimensions := [CPU]
      cpuScaleFactor
      pmemNodes := ["node-pmem"] }
  scoreTarget := some 1
  nodesType := .ofItems [("node-dram", .DRAM), ("node-pmem", .PMEM)]

def oneTaskQueried : QueryDataProviderInfo where
  nodesCapacities := oneTaskCapacities
  assignedApps := oneTaskCounts.1
  appsSpec := oneTaskRequests
  appsUnassigned := ∅

def oneTaskConsider : RescheduleApps :=
  .ofItems [("memcached", .ofItems [("node-dram", ["memcached-0"])])]

theorem sortedConsider_oneTask :
    sortedConsider (.ofItems [("memcached", 0), ("redis", 2), ("stress", 2)]) oneTaskConsider =
      [("memcached", ["memcached-0"])] := by
  unfold sortedConsider
  rw [List.mergeSort_of_pairwise (by decide +kernel)]
  have hone : (["memcached-0"] : List TaskName).mergeSort (· ≤ ·) = ["memcached-0"] :=
    List.mergeSort_singleton _
  exact congrArg (fun tasks => [("memcached", tasks)]) hone

theorem reschedule_oneTask (cpuScaleFactor : ℚ) :
    (oneTask cpuScaleFactor).reschedule = .ok ["memcached-0"] := by
  have hscale : (oneTask cpuScaleFactor).reschedule = (oneTask 1).reschedule := rfl
  have hfound : (oneTask 1).misplaced (.ofItems [("memcached", 0), ("redis", 2), ("stress", 2)])
      oneTaskCounts.1 = .ok (∅, oneTaskConsider) := by decide +kernel
  have hrun : (oneTask 1).reschedule =
      (oneTask 1).getTasksToReschedule ∅ oneTaskConsider
        (.ofItems [("memcached", 0), ("redis", 2), ("stress", 2)]) oneTaskCounts.1 := by
    exact congrArg (· >>= fun found => (oneTask 1).getTasksToReschedule found.1 found.2
      (.ofItems [("memcached", 0), ("redis", 2), ("stress", 2)]) oneTaskCounts.1) hfound
  rw [hscale, hrun, getTasksToReschedule, sortedConsider_oneTask]
  decide +kernel

theorem onNode_oneTask {node : NodeName} {app : AppName} {task : TaskName}
    (h : OnNode oneTaskQueried.assignedApps node app task) : node = "node-dram" ∧ app = "memcached" := by
  obtain ⟨apps, happs, tasks, htasks, -⟩ := h
  have hin := Dict.get?_eq_some_iff.mp happs
  have hitems : oneTaskQueried.assignedApps.items =
    [("node-dram", .ofItems [("memcached", ["memcached-0"])]), ("node-pmem", ∅)] := by decide +kernel
  rw [hitems, List.mem_cons, List.mem_singleton] at hin
  rcases hin with he | he
  · cases he
    exact ⟨rfl, List.mem_singleton.mp (Dict.mem_keys_iff_get?.mpr ⟨tasks, htasks⟩)⟩
  · cases he
    exact absurd htasks (Option.some_ne_none _).symm

theorem wellFormed_oneTask : WellFormed [CPU] oneTaskQueried := by
  refine ⟨List.nodup_singleton _, fun node node' app app' task h h' => ?_, ?_, ?_⟩
  · obtain ⟨rfl, rfl⟩ := onNode_oneTask h
    obtain ⟨rfl, rfl⟩ := onNode_oneTask h'
    exact ⟨rfl, rfl⟩
  · intro app requested h
    have hall : ∀ requested ∈ oneTaskRequests.values, ∀ v ∈ requested.values, (0 : ℚ) ≤ v := by
      decide +kernel
    exact hall requested (Dict.mem_values.mpr ⟨app, Dict.get?_eq_some_iff.mp h⟩)
  · intro node capacity h
    have hall : ∀ capacity ∈ oneTaskCapacities.values, ∀ v ∈ capacity.values, (0 : ℚ) ≤ v := by
      decide +kernel
    exact hall capacity (Dict.mem_values.mpr ⟨node, Dict.get?_eq_some_iff.mp h⟩)

theorem scalesUp_oneTask : (oneTask 1).ScalesUp oneTaskQueried.nodesCapacities := by
  intro node _ capacity h
  have hall : ∀ capacity ∈ oneTaskCapacities.values, CPU ∈ capacity := by decide +kernel
  refine ⟨hall capacity (Dict.mem_values.mpr ⟨node, Dict.get?_eq_some_iff.mp h⟩), fun _ => ?_⟩
  exact (mul_one _).ge

end Score

end Wca.Scheduler
