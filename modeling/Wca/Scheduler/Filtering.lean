import Wca.Scheduler.HierBAR
import Wca.Scheduler.Score

/-!
# What the filter does with the offered nodes

A node that is offered should end up among the nodes to use or among the failed ones, and not among
both. It does for every class but `Score`, whose second pass drops the nodes of the other type.
-/

namespace Wca.Scheduler

open Py

/-- The answer divides the offered nodes into those to use and the failed ones. -/
structure Partitions (offered : List NodeName) (result : ExtenderFilterResult) : Prop where
  disjoint : ∀ name ∈ result.nodeNames, name ∉ result.failedNodes
  union : ∀ name, name ∈ offered ↔ name ∈ result.nodeNames ∨ name ∈ result.failedNodes

/-- Who takes the nodes that have not failed takes the nodes to use. -/
theorem Partitions.mem_nodeNames_iff {offered : List NodeName} {result : ExtenderFilterResult}
    (h : Partitions offered result) {name : NodeName} :
    name ∈ offered.filter (· ∉ result.failedNodes) ↔ name ∈ result.nodeNames := by
  rw [List.mem_filter, decide_eq_true_eq, h.union]
  constructor
  · rintro ⟨hin | hfailed, hnot⟩
    · exact hin
    · exact absurd hfailed hnot
  · intro hin
    exact ⟨.inl hin, h.disjoint name hin⟩

namespace BaseAlgorithm

/-- The node passes the first pass. -/
def Passes (self : BaseAlgorithm) (appName : AppName) (name : NodeName) : Prop :=
  ∃ queried message, queryDataProvider self.dataProvider self.dimensions = .ok queried ∧
    self.appFitNode name appName queried = .ok (true, message)

/-- A call that returns: what passed the first pass, what failed it, and what the second pass made
of the former, if there was any. -/
structure Filtered (algorithm : BaseAlgorithm) (args : ExtenderArgs) (result : ExtenderFilterResult)
    (passed : List NodeName) (failed : Dict NodeName FailureMessage) : Prop where
  passed_iff : ∀ name, name ∈ passed ↔ name ∈ args.nodeNames ∧ algorithm.Passes args.pod.app name
  offered_iff : ∀ name, name ∈ args.nodeNames ↔ name ∈ passed ∨ name ∈ failed
  disjoint : ∀ name ∈ passed, name ∉ failed
  second : (passed = [] ∧ result = { nodeNames := [], failedNodes := failed }) ∨
    ∃ queried accepted rejected, passed ≠ [] ∧
      algorithm.appFitNodes passed args.pod.app queried = .ok (accepted, rejected) ∧
      result = { nodeNames := accepted, failedNodes := failed.update rejected }

variable {self : BaseAlgorithm} {args : ExtenderArgs} {result : ExtenderFilterResult}

theorem filter_ok (h : self.filter args = .ok result) :
    ∃ passed failed, Filtered self args result passed failed := by
  obtain ⟨queried, hq, h⟩ := except_bind_ok_iff.mp h
  obtain ⟨⟨passed, failed⟩, hfirst, h⟩ := except_bind_ok_iff.mp h
  obtain ⟨-, hpassed, hfailed⟩ := firstPass_ok hfirst
  have hreturns := firstPass_returns hfirst
  refine ⟨passed, failed, fun name => ?_, fun name => ?_, fun name hname hin => ?_, ?_⟩
  · rw [hpassed]
    refine and_congr_right fun _ => ⟨fun ⟨m, hm⟩ => ⟨queried, m, hq, hm⟩, ?_⟩
    rintro ⟨queried', m, hq', hm⟩
    cases hq.symm.trans hq'
    exact ⟨m, hm⟩
  · rw [hpassed, hfailed]
    constructor
    · intro hname
      obtain ⟨⟨fits, message⟩, hfit⟩ := hreturns name hname
      cases fits with
      | true => exact .inl ⟨hname, message, hfit⟩
      | false => exact .inr ⟨hname, message, hfit⟩
    · rintro (⟨hname, -⟩ | ⟨hname, -⟩)
      · exact hname
      · exact hname
  · obtain ⟨-, message, hfit⟩ := (hpassed name).mp hname
    obtain ⟨-, message', hfit'⟩ := (hfailed name).mp hin
    rw [hfit] at hfit'
    cases hfit'
  · dsimp only at h
    split at h
    · next hne =>
      obtain ⟨⟨accepted, rejected⟩, hsecond, h⟩ := except_bind_ok_iff.mp h
      cases h
      exact .inr ⟨queried, accepted, rejected, hne, hsecond, rfl⟩
    · next hnil =>
      cases h
      have hnil : passed = [] := not_not.mp hnil
      exact .inl ⟨hnil, by rw [hnil]⟩

namespace Filtered

variable {passed : List NodeName} {failed : Dict NodeName FailureMessage}

/-- Where no node passes, all of them failed. -/
theorem partitions_nil (h : Filtered self args result passed failed) (hnil : passed = [])
    (hresult : result = { nodeNames := [], failedNodes := failed }) :
    Partitions args.nodeNames result := by
  rw [hresult]
  refine ⟨fun name hname => (nomatch hname), fun name => ?_⟩
  rw [h.offered_iff, hnil]

/-- The offered nodes are divided just when the second pass loses none of those it is given. -/
theorem partitions_iff (h : Filtered self args result passed failed) {accepted : List NodeName}
    {rejected : Dict NodeName FailureMessage}
    (hresult : result = { nodeNames := accepted, failedNodes := failed.update rejected })
    (haccepted : ∀ name ∈ accepted, name ∈ passed ∧ name ∉ rejected)
    (hrejected : ∀ name ∈ rejected, name ∈ passed) :
    Partitions args.nodeNames result ↔ ∀ name ∈ passed, name ∈ accepted ∨ name ∈ rejected := by
  rw [hresult]
  constructor
  · intro hpart name hname
    rcases (hpart.union name).mp ((h.offered_iff name).mpr (.inl hname)) with hin | hin
    · exact .inl hin
    · rcases Dict.mem_keys_update.mp hin with hfailed | hin
      · exact absurd hfailed (h.disjoint name hname)
      · exact .inr hin
  · intro hall
    constructor
    · intro name hname hin
      rcases Dict.mem_keys_update.mp hin with hfailed | hin
      · exact h.disjoint name (haccepted name hname).1 hfailed
      · exact (haccepted name hname).2 hin
    · intro name
      rw [h.offered_iff]
      constructor
      · rintro (hpassed | hfailed)
        · rcases hall name hpassed with hin | hin
          · exact .inl hin
          · exact .inr (Dict.mem_keys_update.mpr (.inr hin))
        · exact .inr (Dict.mem_keys_update.mpr (.inl hfailed))
      · rintro (hin | hin)
        · exact .inl (haccepted name hin).1
        · rcases Dict.mem_keys_update.mp hin with hfailed | hin
          · exact .inr hfailed
          · exact .inl (hrejected name hin)

end Filtered

end BaseAlgorithm

/-! ## Class by class -/

/-- `Fit` and its kind accept all the nodes of the first pass. -/
theorem Fit.filter_divides {self : Fit} {maxNodeScore : ℚ}
    {priorityForNode : NodeName → AppName → QueryDataProviderInfo → Except Exc ℚ} {args : ExtenderArgs}
    {result : ExtenderFilterResult}
    (h : (self.algorithm maxNodeScore priorityForNode).filter args = .ok result) :
    Partitions args.nodeNames result := by
  obtain ⟨passed, failed, hf⟩ := BaseAlgorithm.filter_ok h
  rcases hf.second with ⟨hnil, hresult⟩ | ⟨queried, accepted, rejected, -, hsecond, hresult⟩
  · exact hf.partitions_nil hnil hresult
  · cases hsecond
    refine (hf.partitions_iff hresult (fun name hname => ⟨hname, fun hin => (nomatch hin)⟩)
      fun name hin => (nomatch hin)).mpr ?_
    exact fun name hname => .inl hname

/-- `HierBAR` fails the nodes of the other classes. -/
theorem HierBAR.filter_divides {self : HierBAR} {maxNodeScore : ℚ}
    {priorityForNode : NodeName → AppName → QueryDataProviderInfo → Except Exc ℚ} {args : ExtenderArgs}
    {result : ExtenderFilterResult}
    (h : (self.algorithm maxNodeScore priorityForNode).filter args = .ok result) :
    Partitions args.nodeNames result := by
  obtain ⟨passed, failed, hf⟩ := BaseAlgorithm.filter_ok h
  rcases hf.second with ⟨hnil, hresult⟩ | ⟨queried, accepted, rejected, -, hsecond, hresult⟩
  · exact hf.partitions_nil hnil hresult
  · obtain ⟨haccepted, hrejected⟩ := appFitNodes_ok hsecond
    refine (hf.partitions_iff hresult (fun name hname => ⟨haccepted name hname, fun hin => ?_⟩)
      fun name hin => ((hrejected name).mp hin).1).mpr fun name hname => ?_
    · exact ((hrejected name).mp hin).2 hname
    · by_cases hin : name ∈ accepted
      · exact .inl hin
      · exact .inr ((hrejected name).mpr ⟨hname, hin⟩)

namespace Score

/-- The node is of the type that is best for the app. -/
def Prefers (self : Score) (appName : AppName) (name : NodeName) : Prop :=
  ∃ nodesType appsProfile, self.fit.dataProvider.getNodesType = .ok nodesType ∧
    self.fit.dataProvider.getAppsProfile = .ok appsProfile ∧
    nodesType.get? name = some (getAppNodeType appsProfile appName self.scoreTarget)

theorem preferred_ok {self : Score} {nodesType : Dict NodeName NodeType} {appsProfile : AppsProfile}
    {appName : AppName} {nodeNames fitNodes : List NodeName}
    (h : self.preferred nodesType appsProfile appName nodeNames = .ok fitNodes) :
    ∀ name, name ∈ fitNodes ↔ name ∈ nodeNames ∧
      nodesType.get? name = some (getAppNodeType appsProfile appName self.scoreTarget) := by
  refine except_foldlM_ok (I := fun pre (fitNodes : List NodeName) => ∀ name, name ∈ fitNodes ↔
    name ∈ pre ∧ nodesType.get? name = some (getAppNodeType appsProfile appName self.scoreTarget)) h
    (fun name => ⟨fun hin => (nomatch hin), fun hin => (nomatch hin.1)⟩) ?_
  intro pre node post fitNodes fitNodes' _ hI hstep name
  obtain ⟨nodeType, hitem, hstep⟩ := except_bind_ok_iff.mp hstep
  have hget := Dict.item_ok_iff.mp (liftM_ok_iff.mp hitem)
  rw [List.mem_append, List.mem_singleton]
  split at hstep
  · next hfit =>
    cases hstep
    have htype : nodeType = getAppNodeType appsProfile appName self.scoreTarget := of_decide_eq_true hfit
    rw [List.mem_append, List.mem_singleton, hI]
    constructor
    · rintro (⟨hpre, ht⟩ | rfl)
      · exact ⟨.inl hpre, ht⟩
      · exact ⟨.inr rfl, htype ▸ hget⟩
    · rintro ⟨hpre | rfl, ht⟩
      · exact .inl ⟨hpre, ht⟩
      · exact .inr rfl
  · next hfit =>
    cases hstep
    rw [hI]
    constructor
    · rintro ⟨hpre, ht⟩
      exact ⟨.inl hpre, ht⟩
    · rintro ⟨hpre | rfl, ht⟩
      · exact ⟨hpre, ht⟩
      · exact absurd (decide_eq_true (Option.some.inj (hget.symm.trans ht))) hfit

/-- `Score` fails no node in its second pass: either it keeps all, or only the preferred ones. -/
theorem appFitNodes_ok {self : Score} {nodeNames accepted : List NodeName} {appName : AppName}
    (queried : QueryDataProviderInfo) {rejected : Dict NodeName FailureMessage} (hne : nodeNames ≠ [])
    (h : self.appFitNodes nodeNames appName queried = .ok (accepted, rejected)) :
    rejected = ∅ ∧
      ((self.strictModePlacement = false ∧ (∀ name ∈ nodeNames, ¬self.Prefers appName name) ∧
        accepted = nodeNames) ∨
      (¬(self.strictModePlacement = false ∧ ∀ name ∈ nodeNames, ¬self.Prefers appName name) ∧
        ∀ name, name ∈ accepted ↔ name ∈ nodeNames ∧ self.Prefers appName name)) := by
  rw [appFitNodes, if_pos hne] at h
  obtain ⟨nodesType, htypes, h⟩ := except_bind_ok_iff.mp h
  obtain ⟨appsProfile, hprofile, h⟩ := except_bind_ok_iff.mp h
  obtain ⟨fitNodes, hfit, h⟩ := except_bind_ok_iff.mp h
  have hpref : ∀ name, name ∈ fitNodes ↔ name ∈ nodeNames ∧ self.Prefers appName name := by
    intro name
    rw [preferred_ok hfit]
    refine and_congr_right fun _ => ⟨fun hget => ⟨_, _, htypes, hprofile, hget⟩, ?_⟩
    rintro ⟨nodesType', appsProfile', htypes', hprofile', hget⟩
    cases htypes.symm.trans htypes'
    cases hprofile.symm.trans hprofile'
    exact hget
  have hnone : fitNodes = [] ↔ ∀ name ∈ nodeNames, ¬self.Prefers appName name := by
    rw [List.eq_nil_iff_forall_not_mem]
    constructor
    · intro hnil name hname hp
      exact hnil name ((hpref name).mpr ⟨hname, hp⟩)
    · intro hnone name hin
      obtain ⟨hname, hp⟩ := (hpref name).mp hin
      exact hnone name hname hp
  split at h
  · next hc =>
    cases h
    exact ⟨rfl, .inl ⟨hc.2, hnone.mp hc.1, rfl⟩⟩
  · next hc =>
    cases h
    exact ⟨rfl, .inr ⟨fun hall => hc ⟨hnone.mpr hall.2, hall.1⟩, hpref⟩⟩

/-- `Score` divides the offered nodes just when the ones that pass the first pass are all of the
preferred type, or none is and placement is not strict. -/
theorem filter_partitions_iff {self : Score} {maxNodeScore : ℚ} {args : ExtenderArgs}
    {result : ExtenderFilterResult} (h : (self.algorithm maxNodeScore).filter args = .ok result) :
    Partitions args.nodeNames result ↔
      (∀ name ∈ args.nodeNames, (self.algorithm maxNodeScore).Passes args.pod.app name →
        self.Prefers args.pod.app name) ∨
      (self.strictModePlacement = false ∧
        ∀ name ∈ args.nodeNames, (self.algorithm maxNodeScore).Passes args.pod.app name →
          ¬self.Prefers args.pod.app name) := by
  obtain ⟨passed, failed, hf⟩ := BaseAlgorithm.filter_ok h
  have hall : ∀ P : NodeName → Prop, (∀ name ∈ args.nodeNames,
      (self.algorithm maxNodeScore).Passes args.pod.app name → P name) ↔ ∀ name ∈ passed, P name := by
    intro P
    simp only [hf.passed_iff, and_imp]
  rw [hall, hall]
  rcases hf.second with ⟨hnil, hresult⟩ | ⟨queried, accepted, rejected, hne, hsecond, hresult⟩
  · refine iff_of_true (hf.partitions_nil hnil hresult) (.inl fun name hname => ?_)
    rw [hnil] at hname
    cases hname
  · obtain ⟨rfl, haccepted⟩ := appFitNodes_ok queried hne hsecond
    have hsub : ∀ name ∈ accepted, name ∈ passed := by
      rcases haccepted with ⟨-, -, rfl⟩ | ⟨-, haccepted⟩
      · exact fun name hname => hname
      · exact fun name hname => ((haccepted name).mp hname).1
    rw [hf.partitions_iff hresult (fun name hname => ⟨hsub name hname, fun hin => (nomatch hin)⟩)
      fun name hin => (nomatch hin)]
    have hempty : ∀ name, name ∉ (∅ : Dict NodeName FailureMessage) := fun name hin => (nomatch hin)
    simp only [hempty, or_false]
    rcases haccepted with ⟨hstrict, hnone, rfl⟩ | ⟨hnot, haccepted⟩
    · exact iff_of_true (fun name hname => hname) (.inr ⟨hstrict, hnone⟩)
    · rw [or_iff_left hnot]
      exact forall₂_congr fun name hname => by rw [haccepted, and_iff_right hname]

end Score

namespace SmallCluster

/-- What is known of one DRAM and one PMEM node, and of three apps. -/
def twoTypes : DataProvider where
  getAppsCounts := .ok (.ofItems [("dram_0", ∅), ("pmem_0", ∅)], ∅)
  getNodesCapacities := fun _ =>
    .ok (.ofItems [("dram_0", .ofItems [(.CPU, 10), (.MEM, 10)]),
      ("pmem_0", .ofItems [(.CPU, 10), (.MEM, 100)])])
  getAppsRequestedResources := fun _ => .ok (.ofItems [("memcached", .ofItems [(.CPU, 1), (.MEM, 5)])])
  getDramHitRatio := fun _ => .ok 1
  getNodesType := .ok (.ofItems [("dram_0", .DRAM), ("pmem_0", .PMEM)])
  getAppsProfile := .ok (.ofItems [("memcached", -2), ("redis", 1), ("stress", 2)])

def score : Score where
  fit := { dataProvider := twoTypes, dimensions := [.CPU, .MEM], pmemNodes := [] }
  scoreTarget := some (-1)
  nodesType := .ofItems [("dram_0", .DRAM), ("pmem_0", .PMEM)]

def args : ExtenderArgs where
  pod := { app := "memcached", name := "memcached___0" }
  nodeNames := ["dram_0", "pmem_0"]

end SmallCluster

end Wca.Scheduler
