import Wca.Scheduler.Algorithms
import Wca.Scheduler.Capacity

/-!
# The check of `Fit` refines the check of the simulator

`Fit` adds up what the apps on a node use and compares strictly; the simulator takes off the
requests of the tasks one by one, and compares with a tolerance. On what the simulator reports of
itself the two leave the same free resources.
-/

namespace Wca.Scheduler

open Py ResourceType Resources

namespace Resources

theorem amount_set {r : Resources} {k d : ResourceType} {v : ℚ} :
    amount (r.set k v) d = if d = k then v else r.amount d := by
  unfold amount
  rw [Dict.get?_set]
  split <;> rfl

/-- The demand of a sum, by the demands of the summands. -/
theorem demand_add {ratio : ℚ} {a b c : Resources} {d : ResourceType} (hab : a.HasMembw ↔ c.HasMembw)
    (hb : b.HasMembw ↔ c.HasMembw) (h : ∀ d, c.amount d = a.amount d + b.amount d) :
    demand ratio c d = demand ratio a d + demand ratio b d := by
  simp only [demand, hab, hb, h]
  split
  · split
    · split
      · ring
      · ring
    · ring
  · rfl

theorem demand_congr {ratio : ℚ} {a b : Resources} {d : ResourceType} (hab : a.HasMembw ↔ b.HasMembw)
    (h : ∀ d, a.amount d = b.amount d) : demand ratio a d = demand ratio b d := by
  simp only [demand, hab, h]

end Resources

/-! ## What the simulator reports -/

theorem pick_ok {data r : Resources} {resources : List ResourceType} (h : pick data resources = .ok r) :
    (∀ d, d ∈ r ↔ d ∈ resources) ∧ ∀ d ∈ resources, r.amount d = data.amount d := by
  refine except_foldlM_ok (I := fun pre (r : Resources) =>
    (∀ d, d ∈ r ↔ d ∈ pre) ∧ ∀ d ∈ pre, r.amount d = data.amount d) h ⟨fun d => ?_, fun d hd => ?_⟩ ?_
  · exact ⟨fun hd => (nomatch hd), fun hd => (nomatch hd)⟩
  · cases hd
  · rintro pre d _ r r' - ⟨hkeys, hamount⟩ hstep
    obtain ⟨v, hv, hr⟩ := except_bind_ok_iff.mp hstep
    cases hr
    have hitem := amount_of_get? (Dict.item_ok_iff.mp (liftM_ok_iff.mp hv))
    constructor
    · intro d'
      rw [Dict.mem_def, Dict.mem_keys_set, ← Dict.mem_def, hkeys, List.mem_append,
        List.mem_singleton, or_comm]
    · intro d' hd'
      rw [amount_set]
      split
      · next he => rw [he, hitem]
      · next he =>
        rcases List.mem_append.mp hd' with hpre | hd'
        · exact hamount d' hpre
        · exact absurd (List.mem_singleton.mp hd') he

namespace ClusterSimulator

variable {sim : ClusterSimulator}

/-- The node that is found is the only one of its name. -/
theorem getNodeByName_ok {name : NodeName} {node : Node} (h : sim.getNodeByName name = .ok node) :
    node ∈ sim.nodes ∧ node.name = name ∧ ∀ m ∈ sim.nodes, m.name = name → m = node := by
  unfold getNodeByName at h
  split at h
  · next m hm =>
    cases h
    have hmem : ∀ m, m ∈ sim.nodes ∧ m.name = name ↔ m = node := by
      intro m
      rw [← List.mem_singleton (b := node), ← hm, List.mem_filter, decide_eq_true_eq]
    obtain ⟨hnode, hname⟩ := (hmem node).mpr rfl
    exact ⟨hnode, hname, fun m hin hm => (hmem m).mp ⟨hin, hm⟩⟩
  · cases h

theorem getNodesCapacities_ok {name : NodeName} {node : Node}
    (hnode : sim.getNodeByName name = .ok node) {resources : List ResourceType}
    {r : Dict NodeName Resources} (h : sim.getNodesCapacities resources = .ok r) :
    ∃ capacity, pick node.initial resources = .ok capacity ∧ r.get? name = some capacity := by
  obtain ⟨hmem, hname, honly⟩ := getNodeByName_ok hnode
  refine except_foldlM_ok (I := fun pre (r : Dict NodeName Resources) => node ∈ pre →
    ∃ capacity, pick node.initial resources = .ok capacity ∧ r.get? name = some capacity) h
    (fun hin => (nomatch hin)) ?_ hmem
  intro pre m post r r' hl hI hstep hin
  obtain ⟨capacity, hpick, hr⟩ := except_bind_ok_iff.mp hstep
  cases hr
  by_cases hm : m.name = name
  · cases honly m (by rw [hl]; simp) hm
    exact ⟨capacity, hpick, hm ▸ Dict.get?_set_self⟩
  · rw [Dict.get?_set_of_ne (Ne.symm hm)]
    rcases List.mem_append.mp hin with hpre | hin
    · exact hI hpre
    · cases List.mem_singleton.mp hin
      exact absurd hname hm

theorem getAppsRequestedResources_ok {resources : List ResourceType} {r : Dict AppName Resources}
    (h : sim.getAppsRequestedResources resources = .ok r) :
    (∀ t ∈ sim.tasks, ∃ spec, r.get? t.getCoreName = some spec) ∧
      ∀ app spec, r.get? app = some spec →
        ∃ t ∈ sim.tasks, t.getCoreName = app ∧ pick t.requested resources = .ok spec := by
  refine except_foldlM_ok (I := fun pre (r : Dict AppName Resources) =>
    (∀ t ∈ pre, ∃ spec, r.get? t.getCoreName = some spec) ∧
      ∀ app spec, r.get? app = some spec →
        ∃ t ∈ sim.tasks, t.getCoreName = app ∧ pick t.requested resources = .ok spec) h
    ⟨fun t ht => (nomatch ht), fun app spec hget => (nomatch hget)⟩ ?_
  rintro pre t post r r' hl ⟨hall, hfrom⟩ hstep
  obtain ⟨requested, hpick, hr⟩ := except_bind_ok_iff.mp hstep
  cases hr
  constructor
  · intro t' ht'
    rw [Dict.get?_set]
    split
    · exact ⟨_, rfl⟩
    · next hne =>
      rcases List.mem_append.mp ht' with hpre | ht'
      · exact hall t' hpre
      · exact absurd (congrArg Task.getCoreName (List.mem_singleton.mp ht')) hne
  · intro app spec hget
    rw [Dict.get?_set] at hget
    split at hget
    · next he =>
      cases hget
      exact ⟨t, by rw [hl]; simp, he.symm, hpick⟩
    · exact hfrom app spec hget

/-- The tasks counted on a node are the ones on it, by their apps. -/
theorem getAppsCounts_ok {name : NodeName} {node : Node} (hnode : sim.getNodeByName name = .ok node)
    (hplaced : ∀ t ∈ sim.tasks, ∀ m, t.assignment = some m → m ∈ sim.nodes)
    {counts : Dict NodeName Apps × Dict AppName Nat} (h : sim.getAppsCounts = .ok counts)
    {apps : Apps} (happs : counts.1.get? name = some apps) (w : AppName → ℚ) :
    (apps.items.map fun p => w p.1 * (p.2.length : ℚ)).sum =
      ((node.onNode sim.tasks).map fun t => w t.getCoreName).sum := by
  obtain ⟨hmem, hname, honly⟩ := getNodeByName_ok hnode
  refine except_foldlM_ok (I := fun pre (counts : Dict NodeName Apps × Dict AppName Nat) =>
    ∀ apps : Apps, counts.1.get? name = some apps →
      (apps.items.map fun p => w p.1 * (p.2.length : ℚ)).sum =
        ((node.onNode pre).map fun t => w t.getCoreName).sum) h ?_ ?_ apps happs
  · intro apps happs
    obtain ⟨m, -, he⟩ := List.mem_map.mp (Dict.mem_of_get?_ofItems happs)
    cases he
    rfl
  · intro pre t post counts counts' hl hI hstep apps happs
    have ht : t ∈ sim.tasks := by rw [hl]; simp
    rw [Node.onNode_append, List.map_append, List.sum_append]
    unfold countTask at hstep
    cases ha : t.assignment with
    | none =>
      simp only [ha] at hstep
      cases hstep
      have hnil : t.assignment ≠ some node := by simp [ha]
      rw [Node.onNode_singleton_of_not hnil, List.map_nil, List.sum_nil, add_zero]
      exact hI apps happs
    | some m =>
      simp only [ha] at hstep
      obtain ⟨apps', hitem, hc⟩ := except_bind_ok_iff.mp hstep
      cases hc
      have happs' := Dict.item_ok_iff.mp (liftM_ok_iff.mp hitem)
      by_cases hm : m.name = name
      · cases honly m (hplaced t ht m ha) hm
        rw [hm, Dict.get?_set_self] at happs
        cases happs
        rw [hm] at happs'
        rw [Dict.sum_items_set (fun app (tasks : List TaskName) => w app * (tasks.length : ℚ)),
          hI apps' happs', Node.onNode_singleton_of ha]
        cases hget : apps'.get? t.getCoreName with
        | none => simp
        | some tasks =>
          simp
          ring
      · have hnil : t.assignment ≠ some node := fun he =>
          hm (Option.some.inj (ha.symm.trans he) ▸ hname)
        rw [Dict.get?_set_of_ne (Ne.symm hm)] at happs
        rw [Node.onNode_singleton_of_not hnil, List.map_nil, List.sum_nil, add_zero]
        exact hI apps happs

end ClusterSimulator

/-! ## What `Fit` makes of it -/

/-- The request of an app for a dimension, as it was reported. -/
def specAmount (appsSpec : Dict AppName Resources) (d : ResourceType) (app : AppName) : ℚ :=
  ((appsSpec.get? app).getD ∅).amount d

theorem addApp_ok {dimensions : List ResourceType} (hnd : dimensions.Nodup)
    {appsSpec : Dict AppName Resources} {app : AppName × Nat} {used r : Resources}
    (h : addApp dimensions appsSpec used app = .ok r) :
    (∀ d, d ∈ r ↔ d ∈ used) ∧ ∀ d, r.amount d =
      if d ∈ dimensions then used.amount d + specAmount appsSpec d app.1 * app.2
      else used.amount d := by
  refine except_foldlM_ok (I := fun pre (r : Resources) =>
    (∀ d, d ∈ r ↔ d ∈ used) ∧ ∀ d, r.amount d =
      if d ∈ pre then used.amount d + specAmount appsSpec d app.1 * app.2 else used.amount d) h
    ⟨fun d => Iff.rfl, fun d => (if_neg (List.not_mem_nil)).symm⟩ ?_
  rintro pre dim post r r' hl ⟨hkeys, hamount⟩ hstep
  obtain ⟨spec, hspec, hstep⟩ := except_bind_ok_iff.mp hstep
  obtain ⟨requested, hrequested, hstep⟩ := except_bind_ok_iff.mp hstep
  obtain ⟨sofar, hsofar, hstep⟩ := except_bind_ok_iff.mp hstep
  cases hstep
  have hspec := Dict.item_ok_iff.mp (liftM_ok_iff.mp hspec)
  have hrequested := Dict.item_ok_iff.mp (liftM_ok_iff.mp hrequested)
  have hsofar := Dict.item_ok_iff.mp (liftM_ok_iff.mp hsofar)
  have hfresh : dim ∉ pre := by
    rw [hl] at hnd
    exact fun hmem => (List.nodup_append.mp hnd).2.2 dim hmem dim List.mem_cons_self rfl
  constructor
  · intro d
    rw [Dict.mem_def, Dict.mem_keys_set, ← Dict.mem_def, hkeys, or_iff_right_iff_imp]
    rintro rfl
    exact (hkeys d).mp (Dict.mem_keys_iff_get?.mpr ⟨_, hsofar⟩)
  · intro d
    rw [amount_set]
    by_cases hd : d = dim
    · subst hd
      have hsum := hamount d
      rw [if_neg hfresh, amount_of_get? hsofar] at hsum
      simp [specAmount, hspec, amount_of_get? hrequested, hsum]
    · simp [hd, hamount]

/-- What is used: over all the apps, so many times the request of each. -/
theorem usedResourcesOnNode_ok {dimensions : List ResourceType} (hnd : dimensions.Nodup)
    {counts : Dict AppName Nat} {appsSpec : Dict AppName Resources} {used : Resources}
    (h : usedResourcesOnNode dimensions counts appsSpec = .ok used) :
    (∀ d, d ∈ used ↔ d ∈ dimensions) ∧ ∀ d ∈ dimensions,
      used.amount d = (counts.items.map fun p => specAmount appsSpec d p.1 * p.2).sum := by
  have hstart : ∀ d v, (Dict.ofItems (dimensions.map fun dim => (dim, (0 : ℚ)))).get? d = some v →
      v = 0 := by
    intro d v hv
    obtain ⟨d', -, he⟩ := List.mem_map.mp (Dict.mem_of_get?_ofItems hv)
    cases he
    rfl
  refine except_foldlM_ok (I := fun (pre : List (AppName × Nat)) (used : Resources) =>
    (∀ d, d ∈ used ↔ d ∈ dimensions) ∧ ∀ d ∈ dimensions,
      used.amount d = (pre.map fun p => specAmount appsSpec d p.1 * p.2).sum) h ⟨fun d => ?_, ?_⟩ ?_
  · rw [Dict.mem_def, Dict.mem_keys_ofItems]
    simp
  · intro d _
    rw [List.map_nil, List.sum_nil, amount]
    cases hget : (Dict.ofItems (dimensions.map fun dim => (dim, (0 : ℚ)))).get? d with
    | none => rfl
    | some v => exact hstart d v hget
  · rintro pre p post used used' - ⟨hkeys, hamount⟩ hstep
    obtain ⟨hkeys', hamount'⟩ := addApp_ok hnd hstep
    refine ⟨fun d => (hkeys' d).trans (hkeys d), fun d hd => ?_⟩
    rw [hamount' d, if_pos hd, hamount d hd]
    simp

/-- Reads and writes are both dimensions, or neither is. -/
def MembwPaired (r : Resources) : Prop := MEMBW_READ ∈ r ↔ MEMBW_WRITE ∈ r

theorem subtractResources_some_iff {a b r : Resources} {ratio : ℚ} (ha : MembwPaired a) :
    subtractResources a b (some ratio) = .ok r ↔
      a.SameKeys b ∧ (a.HasMembw → ratio ≠ 0) ∧ r = a.map fun d v => v - demand ratio b d := by
  rw [subtractResources, except_seq_ok_iff, checkKeys_ok_iff]
  refine and_congr_right fun hkeys => ?_
  by_cases h : a.HasMembw
  · have hb : b.HasMembw := hkeys.hasMembw.mp h
    rw [if_pos h.1, except_seq_ok_iff, assert_ok_iff, except_bind_ok_iff, ← set_read_write h,
      demand_read hb, demand_write hb]
    constructor
    · rintro ⟨-, q, hq, hr⟩
      obtain ⟨hne, rfl⟩ := truediv_ok_iff.mp hq
      exact ⟨fun _ => hne, (Except.ok.inj hr).symm⟩
    · rintro ⟨hne, rfl⟩
      exact ⟨h.2, _, truediv_ok_iff.mpr ⟨hne h, rfl⟩, rfl⟩
  · have hread : MEMBW_READ ∉ a := fun hread => h ⟨hread, ha.mp hread⟩
    rw [if_neg hread, subtractOthers_eq (mt hkeys.hasMembw.mpr h)]
    exact ⟨fun hr => ⟨fun h' => absurd h' h, (Except.ok.inj hr).symm⟩, fun hr => congrArg _ hr.2.symm⟩

theorem subtractResources_none_iff {a b r : Resources} :
    subtractResources a b none = .ok r ↔ a.SameKeys b ∧ r = a.map fun d v => v - b.amount d := by
  rw [subtractResources, except_seq_ok_iff, checkKeys_ok_iff]
  exact and_congr_right fun _ => ⟨fun hr => (Except.ok.inj hr).symm, fun hr => congrArg _ hr.symm⟩

theorem calculateReadWriteRatio_ok_iff {capacity : Resources} (hcap : MembwPaired capacity)
    {ratio : Option ℚ} : calculateReadWriteRatio capacity = .ok ratio ↔
      (capacity.HasMembw ∧ capacity.amount MEMBW_WRITE ≠ 0 ∧
        ratio = some (capacity.amount MEMBW_READ / capacity.amount MEMBW_WRITE)) ∨
      (¬capacity.HasMembw ∧ ratio = none) := by
  unfold calculateReadWriteRatio
  by_cases h : capacity.HasMembw
  · rw [if_pos h.1, except_seq_ok_iff, assert_ok_iff, except_bind_ok_iff]
    simp only [h, h.2, truediv_ok_iff, true_and, not_true, false_and, or_false]
    constructor
    · rintro ⟨q, ⟨hne, rfl⟩, hr⟩
      exact ⟨hne, (Except.ok.inj hr).symm⟩
    · rintro ⟨hne, rfl⟩
      exact ⟨_, ⟨hne, rfl⟩, rfl⟩
  · have hread : MEMBW_READ ∉ capacity := fun hread => h ⟨hread, hcap.mp hread⟩
    rw [if_neg hread]
    simp [h, eq_comm]

/-- The coupled subtraction with the ratio of the capacity itself takes the demand. -/
theorem subtractResources_ratio {capacity used r : Resources} (hcap : MembwPaired capacity)
    {ratio : Option ℚ} (hratio : calculateReadWriteRatio capacity = .ok ratio) :
    subtractResources capacity used ratio = .ok r →
      capacity.SameKeys used ∧ r = capacity.map fun d v => v - demand (ratio.getD 1) used d := by
  intro h
  rcases (calculateReadWriteRatio_ok_iff hcap).mp hratio with ⟨-, -, rfl⟩ | ⟨hnot, rfl⟩
  · obtain ⟨hkeys, -, hr⟩ := (subtractResources_some_iff hcap).mp h
    exact ⟨hkeys, hr⟩
  · obtain ⟨hkeys, rfl⟩ := subtractResources_none_iff.mp h
    refine ⟨hkeys, Dict.ext (List.map_congr_left fun p hp => ?_)⟩
    have hmem : p.1 ∈ capacity := Dict.mem_keys.mpr ⟨p.2, hp⟩
    have hne : p.1 ≠ MEMBW_READ ∧ p.1 ≠ MEMBW_WRITE := by
      refine ⟨fun he => hnot ?_, fun he => hnot ?_⟩
      · exact ⟨he ▸ hmem, hcap.mp (he ▸ hmem)⟩
      · exact ⟨hcap.mpr (he ▸ hmem), he ▸ hmem⟩
    simp only [demand_of_ne hne.1 hne.2]

theorem mem_brokenCapacities {free : Resources} {d : ResourceType} {missing : ℚ} :
    (d, missing) ∈ (brokenCapacities free).items ↔
      d ∈ free ∧ free.amount d < 0 ∧ missing = |free.amount d| := by
  simp only [brokenCapacities, List.mem_map, List.mem_filter, decide_eq_true_eq]
  constructor
  · rintro ⟨⟨d', v⟩, ⟨hmem, hneg⟩, he⟩
    cases he
    rw [amount_of_mem hmem]
    exact ⟨Dict.mem_keys.mpr ⟨v, hmem⟩, hneg, rfl⟩
  · rintro ⟨hd, hneg, rfl⟩
    exact ⟨(d, free.amount d), ⟨mem_items_amount hd, hneg⟩, rfl⟩

theorem brokenCapacities_isEmpty_iff {free : Resources} :
    (brokenCapacities free).items.isEmpty = true ↔ ∀ d ∈ free, 0 ≤ free.amount d := by
  rw [List.isEmpty_iff, List.eq_nil_iff_forall_not_mem]
  constructor
  · intro h d hd
    by_contra hneg
    exact h (d, _) (mem_brokenCapacities.mpr ⟨hd, not_le.mp hneg, rfl⟩)
  · rintro h ⟨d, v⟩ hp
    obtain ⟨hd, hneg, -⟩ := mem_brokenCapacities.mp hp
    exact absurd (h d hd) (not_le.mpr hneg)

theorem enoughResourcesOnNode_ok {capacity used : Resources} (hcap : MembwPaired capacity)
    {ratio : Option ℚ} (hratio : calculateReadWriteRatio capacity = .ok ratio) {answer : Enough}
    (h : enoughResourcesOnNode capacity used ratio = .ok answer) :
    capacity.SameKeys used ∧
      answer.free = capacity.map (fun d v => v - demand (ratio.getD 1) used d) ∧
      answer.brokenCapacities = brokenCapacities answer.free ∧
      (answer.enough = true ↔ ∀ d ∈ answer.free, 0 ≤ answer.free.amount d) := by
  obtain ⟨free, hfree, he⟩ := except_bind_ok_iff.mp h
  cases he
  obtain ⟨hkeys, hr⟩ := subtractResources_ratio hcap hratio hfree
  exact ⟨hkeys, hr, rfl, brokenCapacities_isEmpty_iff⟩

/-- A state of the simulator that is seen in full by an algorithm with these dimensions. -/
structure Reported (dimensions : List ResourceType) (sim : ClusterSimulator) : Prop where
  dimensions : ∀ node ∈ sim.nodes, dimensions.Perm node.initial.keys
  paired : ∀ node ∈ sim.nodes, MembwPaired node.initial
  positive : ∀ node ∈ sim.nodes, node.PositiveMembw
  requests : ∀ t ∈ sim.tasks, Requestable sim.nodes t.requested
  placed : ∀ t ∈ sim.tasks, ∀ node, t.assignment = some node → node ∈ sim.nodes

/-- A task that requests what the tasks of its app do. -/
structure LikeItsApp (sim : ClusterSimulator) (t : Task) : Prop where
  requested : Requestable sim.nodes t.requested
  same : ∀ t' ∈ sim.tasks, t'.getCoreName = t.getCoreName →
    ∀ d, t'.requested.amount d = t.requested.amount d

/-- The ratio of a capacity with the amounts of the node is that of the node. -/
theorem ratio_of_capacity {node : Node} {capacity : Resources} (hpaired : MembwPaired capacity)
    (hkeys : capacity.SameKeys node.initial) (hamount : ∀ d, capacity.amount d = node.initial.amount d)
    {ratio : Option ℚ} (h : calculateReadWriteRatio capacity = .ok ratio) :
    node.getMembwReadWriteRatio = .ok (ratio.getD 1) := by
  rw [Node.getMembwReadWriteRatio_ok_iff, ← hkeys.hasMembw, ← hamount, ← hamount]
  rcases (calculateReadWriteRatio_ok_iff hpaired).mp h with ⟨hboth, hne, rfl⟩ | ⟨hnot, rfl⟩
  · exact ⟨fun _ => ⟨hne, rfl⟩, fun hnot => absurd hboth hnot⟩
  · exact ⟨fun hboth => absurd hboth hnot, fun _ => rfl⟩

/-- Amounts that add up to what the tasks on a node request demand what they load it with. -/
theorem demand_eq_load {node : Node} {tasks : List Task} {used : Resources} {ratio : ℚ}
    (hamount : ∀ d, used.amount d = node.requestedSum tasks d)
    (hkeys : ∀ t ∈ node.onNode tasks, used.HasMembw ↔ t.requested.HasMembw) (d : ResourceType) :
    demand ratio used d = node.load ratio tasks d := by
  by_cases hd : d = MEMBW_READ ∨ d = MEMBW_WRITE
  · by_cases h : used.HasMembw
    · have hall : ∀ t ∈ node.onNode tasks, t.requested.HasMembw := fun t ht => (hkeys t ht).mp h
      rcases hd with rfl | rfl
      · rw [demand_read h, Node.load_read hall, hamount, hamount, mul_comm]
      · rw [demand_write h, Node.load_write hall, hamount, hamount]
    · have hzero : ∀ t ∈ node.onNode tasks, demand ratio t.requested d = 0 := by
        intro t ht
        rw [demand, if_pos hd, if_neg (mt (hkeys t ht).mpr h)]
      rw [demand, if_pos hd, if_neg h, Node.load, List.map_congr_left hzero]
      simp
  · obtain ⟨hr, hw⟩ := not_or.mp hd
    rw [demand_of_ne hr hw, Node.load_of_ne hr hw, hamount]

theorem sumResources_ok {a b r : Resources} (h : sumResources a b = .ok r) :
    a.SameKeys b ∧ r.SameKeys a ∧ ∀ d, r.amount d = a.amount d + b.amount d := by
  rw [sumResources, except_seq_ok_iff, checkKeys_ok_iff] at h
  obtain ⟨hkeys, hr⟩ := h
  cases hr
  refine ⟨hkeys, sameKeys_map, fun d => ?_⟩
  by_cases hd : d ∈ a
  · rw [amount_map hd]
  · rw [amount_of_not_mem (mt mem_map.mp hd), amount_of_not_mem hd,
      amount_of_not_mem (mt (hkeys.iff d).mpr hd), add_zero]

section Reported

variable {fit : Fit} {sim : ClusterSimulator} {node : Node} {t : Task}

theorem Reported.mem_dimensions (h : Reported fit.dimensions sim) (hnode : node ∈ sim.nodes)
    {d : ResourceType} : d ∈ fit.dimensions ↔ d ∈ node.initial := (h.dimensions node hnode).mem_iff

theorem Reported.nodup (h : Reported fit.dimensions sim) (hnode : node ∈ sim.nodes) :
    fit.dimensions.Nodup := (h.dimensions node hnode).nodup_iff.mpr node.initial.nodup

/-- What was picked of resources with the dimensions of the node is all of them. -/
theorem Reported.pick_ok (h : Reported fit.dimensions sim) (hnode : node ∈ sim.nodes)
    {data r : Resources} (hdata : node.initial.SameKeys data) (hpick : pick data fit.dimensions = .ok r) :
    r.SameKeys node.initial ∧ ∀ d, r.amount d = data.amount d := by
  obtain ⟨hkeys, hamount⟩ := Scheduler.pick_ok hpick
  refine ⟨sameKeys_of_iff fun d => (hkeys d).trans (h.mem_dimensions hnode), fun d => ?_⟩
  by_cases hd : d ∈ fit.dimensions
  · exact hamount d hd
  · have hd' : d ∉ data := fun hin => hd ((h.mem_dimensions hnode).mpr ((hdata.iff d).mpr hin))
    rw [amount_of_not_mem fun hin => hd ((hkeys d).mp hin), amount_of_not_mem hd']

variable (h : Reported fit.dimensions sim) (hnode : sim.getNodeByName node.name = .ok node)

include h hnode

/-- The capacity that `Fit` looks at is what the node has. -/
theorem capacity_reported (hscale : fit.cpuScaleFactor = 1) {capacities r : Dict NodeName Resources}
    (hcap : sim.getNodesCapacities fit.dimensions = .ok capacities)
    (hr : fit.scaledCapacities capacities = .ok r) {capacity : Resources}
    (hget : r.get? node.name = some capacity) :
    capacity.SameKeys node.initial ∧ ∀ d, capacity.amount d = node.initial.amount d := by
  have hmem := (ClusterSimulator.getNodeByName_ok hnode).1
  obtain ⟨picked, hpick, hpicked⟩ := ClusterSimulator.getNodesCapacities_ok hnode hcap
  cases (Fit.get?_scaledCapacities hscale hr hget).symm.trans hpicked
  exact h.pick_ok hmem (sameKeys_of_iff fun _ => Iff.rfl) hpick

/-- The request that `Fit` looks at is that of every task of the app. -/
theorem request_reported {appsSpec : Dict AppName Resources}
    (hspec : sim.getAppsRequestedResources fit.dimensions = .ok appsSpec) (ht : LikeItsApp sim t)
    {requested : Resources} (hget : appsSpec.get? t.getCoreName = some requested) :
    requested.SameKeys node.initial ∧ ∀ d, requested.amount d = t.requested.amount d := by
  have hmem := (ClusterSimulator.getNodeByName_ok hnode).1
  obtain ⟨t', ht', hname, hpick⟩ := (ClusterSimulator.getAppsRequestedResources_ok hspec).2 _ _ hget
  obtain ⟨hkeys, hamount⟩ := h.pick_ok hmem ((h.requests t' ht').keys node hmem) hpick
  exact ⟨hkeys, fun d => (hamount d).trans (ht.same t' ht' hname d)⟩

/-- What is used, over the counted apps, is what the tasks on the node request. -/
theorem used_reported (hall : ∀ t ∈ sim.tasks, LikeItsApp sim t)
    {counts : Dict NodeName Apps × Dict AppName Nat}
    (hcounts : sim.getAppsCounts = .ok counts) {appsSpec : Dict AppName Resources}
    (hspec : sim.getAppsRequestedResources fit.dimensions = .ok appsSpec) {apps : Apps}
    (happs : counts.1.get? node.name = some apps) {used : Resources}
    (hused : usedResourcesOnNode fit.dimensions (apps.map fun _ tasks => tasks.length) appsSpec =
      .ok used) :
    used.SameKeys node.initial ∧ ∀ d, used.amount d = node.requestedSum sim.tasks d := by
  have hmem := (ClusterSimulator.getNodeByName_ok hnode).1
  obtain ⟨hkeys, hamount⟩ := usedResourcesOnNode_ok (h.nodup hmem) hused
  have htask : ∀ t ∈ sim.tasks, ∀ d, specAmount appsSpec d t.getCoreName = t.requested.amount d := by
    intro t ht d
    obtain ⟨requested, hget⟩ := (ClusterSimulator.getAppsRequestedResources_ok hspec).1 t ht
    rw [specAmount, hget, Option.getD_some]
    exact (request_reported h hnode hspec (hall t ht) hget).2 d
  refine ⟨sameKeys_of_iff fun d => (hkeys d).trans (h.mem_dimensions hmem), fun d => ?_⟩
  by_cases hd : d ∈ fit.dimensions
  · have hsum := ClusterSimulator.getAppsCounts_ok hnode h.placed hcounts happs (specAmount appsSpec d)
    rw [hamount d hd, Dict.items_map, List.map_map]
    refine Eq.trans hsum (congrArg List.sum (List.map_congr_left fun t ht => ?_))
    exact htask t (Node.mem_onNode.mp ht).1 d
  · rw [amount_of_not_mem fun hin => hd ((hkeys d).mp hin), Node.requestedSum]
    have hzero : ∀ t ∈ node.onNode sim.tasks, t.requested.amount d = 0 := by
      intro t ht
      have hreq := (h.requests t (Node.mem_onNode.mp ht).1).keys node hmem
      exact amount_of_not_mem fun hin => hd ((h.mem_dimensions hmem).mpr ((hreq.iff d).mpr hin))
    rw [List.map_congr_left hzero]
    simp

/-- The free resources that `Fit` finds are what the simulator leaves of the node. -/
theorem appFitNode_ok (hall : ∀ t ∈ sim.tasks, LikeItsApp sim t) (ht : LikeItsApp sim t)
    (hscale : fit.cpuScaleFactor = 1) {getNodesType : ClusterSimulator → Except Exc (Dict NodeName NodeType)}
    {getAppsProfile : ClusterSimulator → Except Exc AppsProfile} {queried : QueryDataProviderInfo}
    (hq : queryDataProvider (sim.dataProvider getNodesType getAppsProfile) fit.dimensions = .ok queried)
    {fits : Bool} {message : FailureMessage}
    (hfit : fit.appFitNode node.name t.getCoreName queried = .ok (fits, message)) :
    ∃ (ratio : ℚ) (free : Resources), node.getMembwReadWriteRatio = .ok ratio ∧
      (∀ d, d ∈ free ↔ d ∈ node.initial) ∧
      (∀ d ∈ node.initial, free.amount d = node.initial.amount d -
        (node.load ratio sim.tasks d + demand ratio t.requested d)) ∧
      (fits = true ↔ ∀ d ∈ free, 0 ≤ free.amount d) ∧
      message = if fits then .text "" else .couldNotFit (brokenCapacities free) := by
  have hmem := (ClusterSimulator.getNodeByName_ok hnode).1
  -- what the data provider said
  obtain ⟨counts, hcounts, hq⟩ := except_bind_ok_iff.mp hq
  obtain ⟨capacities, hcapacities, hq⟩ := except_bind_ok_iff.mp hq
  obtain ⟨appsSpec, hspec, hq⟩ := except_bind_ok_iff.mp hq
  cases hq
  -- and what `Fit` read of it
  obtain ⟨scaled, hscaled, hfit⟩ := except_bind_ok_iff.mp hfit
  obtain ⟨usage, husage, hfit⟩ := except_bind_ok_iff.mp hfit
  obtain ⟨capacity, hcapacity, husage⟩ := except_bind_ok_iff.mp husage
  obtain ⟨ratio, hratio, husage⟩ := except_bind_ok_iff.mp husage
  obtain ⟨apps, happs, husage⟩ := except_bind_ok_iff.mp husage
  obtain ⟨used, hused, husage⟩ := except_bind_ok_iff.mp husage
  obtain ⟨requested, hrequested, husage⟩ := except_bind_ok_iff.mp husage
  obtain ⟨free₀, hfree₀, husage⟩ := except_bind_ok_iff.mp husage
  cases husage
  obtain ⟨sum, hsum, hfit⟩ := except_bind_ok_iff.mp hfit
  obtain ⟨answer, hanswer, hfit⟩ := except_bind_ok_iff.mp hfit
  cases hfit
  have hcapacity := Dict.item_ok_iff.mp (liftM_ok_iff.mp hcapacity)
  have happs := Dict.item_ok_iff.mp (liftM_ok_iff.mp happs)
  have hrequested := Dict.item_ok_iff.mp (liftM_ok_iff.mp hrequested)
  obtain ⟨hck, hca⟩ := capacity_reported h hnode hscale hcapacities hscaled hcapacity
  obtain ⟨hrk, hra⟩ := request_reported h hnode hspec ht hrequested
  obtain ⟨huk, hua⟩ := used_reported h hnode hall hcounts hspec happs hused
  have hsum : sumResources requested used = .ok sum := by
    cases hs : sumResources requested used with
    | error e =>
      rw [hs] at hsum
      cases hsum
    | ok r =>
      rw [hs] at hsum
      cases hsum
      rfl
  obtain ⟨-, hsk, hsa⟩ := sumResources_ok hsum
  have hpaired : MembwPaired capacity :=
    (hck.iff MEMBW_READ).trans ((h.paired node hmem).trans (hck.iff MEMBW_WRITE).symm)
  obtain ⟨-, hfree, hbroken, henough⟩ := enoughResourcesOnNode_ok hpaired hratio hanswer
  have hdemand : ∀ d, demand (ratio.getD 1) sum d =
      node.load (ratio.getD 1) sim.tasks d + demand (ratio.getD 1) t.requested d := by
    intro d
    have hreq : requested.HasMembw ↔ t.requested.HasMembw :=
      (hrk.trans (ht.requested.keys node hmem)).hasMembw
    rw [demand_add hsk.symm.hasMembw (huk.trans (hsk.trans hrk).symm).hasMembw hsa,
      demand_congr hreq hra, demand_eq_load hua, add_comm]
    intro t' ht'
    exact (huk.trans ((h.requests t' (Node.mem_onNode.mp ht').1).keys node hmem)).hasMembw
  refine ⟨ratio.getD 1, answer.free, ratio_of_capacity hpaired hck hca hratio, fun d => ?_,
    fun d hd => ?_, henough, ?_⟩
  · rw [hfree, mem_map]
    exact hck.iff d
  · rw [hfree, amount_map ((hck.iff d).mpr hd), hdemand, hca]
  · rw [hbroken]

/-- What the simulator's own check answers there. -/
theorem validateAssignment_reported (ht : LikeItsApp sim t) {ratio : ℚ}
    (hratio : node.getMembwReadWriteRatio = .ok ratio) :
    node.validateAssignment sim.tasks t = .ok (bool (node.initial.map fun d v =>
      v - (node.load ratio sim.tasks d + demand ratio t.requested d))) := by
  have hmem := (ClusterSimulator.getNodeByName_ok hnode).1
  have hne : node.initial.HasMembw → ratio ≠ 0 := fun _ => ((h.positive node hmem).ratio_pos hratio).ne'
  exact Node.validateAssignment_ok_iff.mpr ⟨ratio, hratio,
    fun t' ht' => ⟨(h.requests t' (Node.mem_onNode.mp ht').1).keys node hmem, hne⟩,
    ⟨ht.requested.keys node hmem, hne⟩, rfl⟩

/-- A node that `Fit` accepts passes the check of the simulator, and one that lacks as much as the
tolerance does not. -/
theorem appFitNode_refines (hall : ∀ t ∈ sim.tasks, LikeItsApp sim t) (ht : LikeItsApp sim t)
    (hscale : fit.cpuScaleFactor = 1) {getNodesType : ClusterSimulator → Except Exc (Dict NodeName NodeType)}
    {getAppsProfile : ClusterSimulator → Except Exc AppsProfile} {queried : QueryDataProviderInfo}
    (hq : queryDataProvider (sim.dataProvider getNodesType getAppsProfile) fit.dimensions = .ok queried)
    {fits : Bool} {message : FailureMessage}
    (hfit : fit.appFitNode node.name t.getCoreName queried = .ok (fits, message)) :
    (fits = true → node.validateAssignment sim.tasks t = .ok true) ∧
      ∀ missing d amount, message = .couldNotFit missing → (d, amount) ∈ missing.items →
        1 / 10000 ≤ amount → node.validateAssignment sim.tasks t = .ok false := by
  obtain ⟨ratio, free, hratio, hkeys, hfree, hfits, hmessage⟩ :=
    appFitNode_ok h hnode hall ht hscale hq hfit
  rw [validateAssignment_reported h hnode ht hratio]
  constructor
  · intro haccept
    refine congrArg Except.ok (bool_iff.mpr fun d hd => ?_)
    have hd := mem_map.mp hd
    have hroom := hfits.mp haccept d ((hkeys d).mpr hd)
    rw [hfree d hd] at hroom
    rw [amount_map hd]
    linarith
  · intro missing d amount hmsg hmissing hamount
    rw [hmessage] at hmsg
    split at hmsg
    · cases hmsg
    cases hmsg
    obtain ⟨hd, hneg, rfl⟩ := mem_brokenCapacities.mp hmissing
    have hd := (hkeys d).mp hd
    rw [abs_of_neg hneg, hfree d hd] at hamount
    refine congrArg Except.ok (Bool.eq_false_iff.mpr fun hbool => ?_)
    have hroom := bool_iff.mp hbool d (mem_map.mpr hd)
    rw [amount_map hd] at hroom
    linarith

end Reported

/-! ## Runs with an algorithm built on `Fit` -/

/-- A class of algorithms whose first pass accepts no node that `Fit` would not. -/
structure FitBased (dimensions : List ResourceType) (cls : DataProvider → BaseAlgorithm) : Prop where
  dataProvider_eq : ∀ provider, (cls provider).dataProvider = provider
  dimensions_eq : ∀ provider, (cls provider).dimensions = dimensions
  appFitNode : ∀ provider name app queried message,
    (cls provider).appFitNode name app queried = .ok (true, message) →
      ∃ (fit : Fit) (message' : FailureMessage), fit.dimensions = dimensions ∧ fit.cpuScaleFactor = 1 ∧
        fit.appFitNode name app queried = .ok (true, message')

/-- Nothing was assigned roughly, and the tasks of every app request the same. -/
structure Unrough (dimensions : List ResourceType) (nodes : List Node)
    (request : AppName → ResourceType → ℚ) (sim : ClusterSimulator) : Prop where
  nodes_eq : sim.nodes = nodes
  reported : Reported dimensions sim
  alike : ∀ t ∈ sim.tasks, ∀ d, t.requested.amount d = request t.getCoreName d
  unrough : ∀ node count, (node, count) ∈ sim.roughAssignmentsPerNode.items → count = 0

/-- A new task, possibly with a node of its own, that requests what its app does. -/
structure ArrivesFor (nodes : List Node) (request : AppName → ResourceType → ℚ) (t : Task) : Prop where
  assignment : t.assignment = none
  requested : Requestable nodes t.requested
  alike : ∀ d, t.requested.amount d = request t.getCoreName d

section Unrough

variable {dimensions : List ResourceType} {nodes : List Node} {request : AppName → ResourceType → ℚ}
  {sim : ClusterSimulator}

/-- The task is the same but for where it is, on a node that there is. -/
structure Rebinds (nodes : List Node) (t t' : Task) : Prop where
  name : t'.name = t.name
  requested : t'.requested = t.requested
  assignment : ∀ node, t'.assignment = some node → t.assignment = some node ∨ node ∈ nodes

theorem Rebinds.alike {t t' : Task} (h : Rebinds nodes t t')
    (ht : ∀ d, t.requested.amount d = request t.getCoreName d) :
    ∀ d, t'.requested.amount d = request t'.getCoreName d := by
  have hcore : t'.getCoreName = t.getCoreName := by
    unfold Task.getCoreName
    rw [h.name]
  rw [h.requested, hcore]
  exact ht

theorem Unrough.tasks (h : Unrough dimensions nodes request sim) {tasks : List Task}
    (hfrom : ∀ t' ∈ tasks, ∃ t ∈ sim.tasks, Rebinds nodes t t') :
    Unrough dimensions nodes request { sim with tasks } where
  nodes_eq := h.nodes_eq
  reported := {
    dimensions := h.reported.dimensions
    paired := h.reported.paired
    positive := h.reported.positive
    requests := by
      intro t' ht'
      obtain ⟨t, ht, hsame⟩ := hfrom t' ht'
      rw [hsame.requested]
      exact h.reported.requests t ht
    placed := by
      intro t' ht' node ha
      obtain ⟨t, ht, hsame⟩ := hfrom t' ht'
      rcases hsame.assignment node ha with ha | hin
      · exact h.reported.placed t ht node ha
      · exact h.nodes_eq ▸ hin }
  alike := by
    intro t' ht'
    obtain ⟨t, ht, hsame⟩ := hfrom t' ht'
    exact hsame.alike (h.alike t ht)
  unrough := h.unrough

theorem Unrough.setTask (h : Unrough dimensions nodes request sim) {i : Nat} {f : Task → Task}
    (hf : ∀ t, Rebinds nodes t (f t)) : Unrough dimensions nodes request (sim.setTask i f) := by
  refine h.tasks fun t' ht' => ?_
  rcases mem_modify ht' with hin | ⟨t, ht, rfl⟩
  · exact ⟨t', hin, rfl, rfl, fun _ ha => .inl ha⟩
  · exact ⟨t, List.mem_of_getElem? ht, hf t⟩

theorem Unrough.updateTasksLife (h : Unrough dimensions nodes request sim) :
    Unrough dimensions nodes request sim.updateTasksLife := by
  refine h.tasks fun t' ht' => ?_
  obtain ⟨t, ht, rfl⟩ := List.mem_map.mp ht'
  refine ⟨t, ht, t.name_update, t.givesBack_update.requested, fun node ha => ?_⟩
  rcases t.givesBack_update.assignment with hs | hn
  · exact .inl (hs ▸ ha)
  · rw [hn] at ha
    cases ha

theorem Unrough.append (h : Unrough dimensions nodes request sim) {t : Task}
    (ht : ArrivesFor nodes request t) :
    Unrough dimensions nodes request { sim with tasks := sim.tasks ++ [t] } where
  nodes_eq := h.nodes_eq
  reported := {
    dimensions := h.reported.dimensions
    paired := h.reported.paired
    positive := h.reported.positive
    requests := by
      intro t' ht'
      rcases List.mem_append.mp ht' with hin | hin
      · exact h.reported.requests t' hin
      · rw [List.mem_singleton.mp hin, h.nodes_eq]
        exact ht.requested
    placed := by
      intro t' ht' node ha
      rcases List.mem_append.mp ht' with hin | hin
      · exact h.reported.placed t' hin node ha
      · rw [List.mem_singleton.mp hin, ht.assignment] at ha
        cases ha }
  alike := by
    intro t' ht'
    rcases List.mem_append.mp ht' with hin | hin
    · exact h.alike t' hin
    · rw [List.mem_singleton.mp hin]
      exact ht.alike
  unrough := h.unrough

theorem Unrough.likeItsApp (h : Unrough dimensions nodes request sim) {t : Task}
    (ht : t ∈ sim.tasks) : LikeItsApp sim t where
  requested := h.reported.requests t ht
  same := by
    intro t' ht' hcore d
    rw [h.alike t' ht', h.alike t ht, hcore]

end Unrough

namespace ClusterSimulator

theorem wp_ask_liftExcept {σ α : Type} {x : Except Exc α} {Q : α → ClusterSimulator × σ → Prop}
    {E : Exc → ClusterSimulator × σ → Prop} {s : ClusterSimulator × σ}
    (hQ : ∀ a, x = .ok a → Q a s) (hE : ∀ e, x = .error e → E e s) :
    wp (ask (Py.liftExcept x)) Q E s := by
  cases x with
  | ok a => exact hQ a rfl
  | error e => exact hE e rfl

/-- What a scheduler built on `Fit` chooses was accepted by `Fit` in the state it was asked in. -/
theorem callScheduler_fits {dimensions : List ResourceType} {cls : DataProvider → BaseAlgorithm}
    (h : FitBased dimensions cls) {report : ClusterSimulator → DataProvider} {t : Task}
    {s : ClusterSimulator × Unit} :
    wp (callScheduler (BaseAlgorithm.onSimulator cls report) t)
      (fun chosen s' => s' = s ∧ ∀ node, chosen = some node →
        s.1.getNodeByName node.name = .ok node ∧
          ∃ (fit : Fit) (queried : QueryDataProviderInfo) (message : FailureMessage),
            fit.dimensions = dimensions ∧ fit.cpuScaleFactor = 1 ∧
            queryDataProvider (report s.1) dimensions = .ok queried ∧
            fit.appFitNode node.name t.getCoreName queried = .ok (true, message))
      (fun _ s' => s' = s) s := by
  unfold callScheduler simulator
  simp only [wp_bind, wp_get, wp_pure]
  refine wp_ask_liftExcept (fun filtered hfilter => ?_) fun _ _ => rfl
  rw [wp_bind]
  refine wp_ask_liftExcept (fun priorities hprio => ?_) fun _ _ => rfl
  cases hbest : HostPriority.best? priorities with
  | none => exact ⟨rfl, fun node hnode => absurd hnode.symm (Option.some_ne_none node)⟩
  | some best =>
    rw [wp_bind, wp_liftM]
    refine ⟨fun node hnode => ⟨rfl, fun node' he => ?_⟩, fun _ _ => rfl⟩
    cases he
    have hname := (getNodeByName_ok hnode).2.1
    have hhost := BaseAlgorithm.prioritize_hosts hprio best (HostPriority.mem_of_best? hbest)
    obtain ⟨hoffered, hnot⟩ := List.mem_filter.mp hhost
    obtain ⟨queried, hq, hpassed⟩ := BaseAlgorithm.filter_passed hfilter
    rw [h.dataProvider_eq, h.dimensions_eq] at hq
    obtain ⟨message, hfit⟩ := hpassed best.host hoffered (of_decide_eq_true hnot)
    obtain ⟨fit, message', hdims, hscale, hfit⟩ := h.appFitNode _ _ _ _ _ hfit
    rw [hname]
    exact ⟨hname ▸ hnode, fit, queried, message', hdims, hscale, hq, hfit⟩

variable {dimensions : List ResourceType} {nodes : List Node} {request : AppName → ResourceType → ℚ}
  {sim : ClusterSimulator}

/-- One scheduled task: the node that `Fit` accepted passes the check. -/
theorem keeps_scheduleTask_unrough {cls : DataProvider → BaseAlgorithm} (hcls : FitBased dimensions cls)
    {getNodesType : ClusterSimulator → Except Exc (Dict NodeName NodeType)}
    {getAppsProfile : ClusterSimulator → Except Exc AppsProfile} (i : Nat) :
    Keeps (fun s => Unrough dimensions nodes request s.1) (scheduleTask
      (BaseAlgorithm.onSimulator cls (dataProvider getNodesType getAppsProfile)) i) := by
  intro s hs
  unfold scheduleTask
  rw [wp_bind]
  refine wp_task (fun t ht => ?_) fun _ => hs
  rw [wp_bind]
  refine (callScheduler_fits hcls).mono (fun chosen s' hchosen => ?_) fun _ s' he => he ▸ hs
  obtain ⟨rfl, hchosen⟩ := hchosen
  cases chosen with
  | none => exact hs
  | some node =>
    obtain ⟨hnode, fit, queried, message, rfl, hscale, hq, hfit⟩ := hchosen node rfl
    have htask := hs.likeItsApp (List.mem_of_getElem? ht)
    have hvalid := (appFitNode_refines hs.reported hnode (fun t ht => hs.likeItsApp ht) htask hscale
      hq hfit).1 rfl
    unfold assignTask performAssignment simulator
    simp only [wp_bind, wp_get, wp_pure]
    refine wp_task (fun t' ht' => ?_) fun _ => hs
    cases ht.symm.trans ht'
    rw [hvalid]
    refine hs.setTask fun t => ⟨rfl, rfl, fun node' ha => .inr ?_⟩
    cases ha
    exact hs.nodes_eq ▸ (getNodeByName_ok hnode).1

theorem invariant_unrough {cls : DataProvider → BaseAlgorithm} (hcls : FitBased dimensions cls)
    (getNodesType : ClusterSimulator → Except Exc (Dict NodeName NodeType))
    (getAppsProfile : ClusterSimulator → Except Exc AppsProfile) :
    Invariant (BaseAlgorithm.onSimulator cls (dataProvider getNodesType getAppsProfile))
      (ArrivesFor nodes request) (Unrough dimensions nodes request) where
  handleNewTask := by
    intro t ht s hs
    have hnew := hs.append ht
    unfold handleNewTask simulator modifySimulator
    simp only [wp_bind, wp_get, wp_pure, wp_modify]
    cases t.nodeName with
    | none => exact hnew
    | some nodeName =>
      rw [wp_bind, wp_liftM]
      refine ⟨fun node hnode => ?_, fun _ _ => hnew⟩
      refine hnew.setTask fun t => ⟨rfl, rfl, fun node' ha => .inr ?_⟩
      cases ha
      exact hs.nodes_eq ▸ (getNodeByName_ok hnode).1
  scheduleTask := keeps_scheduleTask_unrough hcls
  unassign := by
    intro name
    refine keeps_simulator.bind fun _ => keeps_liftM.bind fun i => keeps_modifySimulator fun _ hsim => ?_
    exact Unrough.setTask hsim fun t => ⟨rfl, rfl, fun node ha => absurd ha.symm (Option.some_ne_none node)⟩
  updateTasksLife := fun _ hsim => Unrough.updateTasksLife hsim

end ClusterSimulator

/-- `Fit` itself, and the classes that only set other priorities. -/
theorem Fit.fitBased (dimensions : List ResourceType) (pmemNodes : List NodeName) (maxNodeScore : ℚ)
    (priorityForNode : NodeName → AppName → QueryDataProviderInfo → Except Exc ℚ) :
    FitBased dimensions fun dataProvider =>
      ({ dataProvider, dimensions, pmemNodes } : Fit).algorithm maxNodeScore priorityForNode where
  dataProvider_eq := fun _ => rfl
  dimensions_eq := fun _ => rfl
  appFitNode := fun _ _ _ _ message h => ⟨_, message, rfl, rfl, h⟩

theorem Unrough.create {dimensions : List ResourceType} {tasks : List Task} {nodes : List Node}
    {allowRoughAssignment retryScheduling : Bool} {request : AppName → ResourceType → ℚ}
    (h : Reported dimensions (.create tasks nodes allowRoughAssignment retryScheduling))
    (halike : ∀ t ∈ tasks, ∀ d, t.requested.amount d = request t.getCoreName d) :
    Unrough dimensions nodes request
      (.create tasks nodes allowRoughAssignment retryScheduling) where
  nodes_eq := rfl
  reported := h
  alike := halike
  unrough := by
    intro node count hmem
    obtain ⟨node', -, he⟩ :=
      List.mem_map.mp (Dict.mem_of_get?_ofItems (Dict.get?_eq_some_iff.mpr hmem))
    cases he
    rfl

/-- The check of `Fit` refines the check of the simulator, state by state; and so in a run with an
algorithm built on `Fit` no assignment is ever rough, whether rough ones are allowed or not. -/
theorem fit_refines_validateAssignment (dimensions : List ResourceType)
    (getNodesType : ClusterSimulator → Except Exc (Dict NodeName NodeType))
    (getAppsProfile : ClusterSimulator → Except Exc AppsProfile) :
    (∀ (fit : Fit) (sim : ClusterSimulator) (node : Node) (t : Task)
      (queried : QueryDataProviderInfo) (fits : Bool) (message : FailureMessage),
      fit.dimensions = dimensions → fit.cpuScaleFactor = 1 → Reported dimensions sim →
      (∀ t ∈ sim.tasks, LikeItsApp sim t) → LikeItsApp sim t →
      sim.getNodeByName node.name = .ok node →
      queryDataProvider (sim.dataProvider getNodesType getAppsProfile) dimensions = .ok queried →
      fit.appFitNode node.name t.getCoreName queried = .ok (fits, message) →
      (fits = true → node.validateAssignment sim.tasks t = .ok true) ∧
      ∀ missing d amount, message = .couldNotFit missing → (d, amount) ∈ missing.items →
        1 / 10000 ≤ amount → node.validateAssignment sim.tasks t = .ok false) ∧
    ∀ (cls : DataProvider → BaseAlgorithm) (tasks : List Task) (nodes : List Node)
      (allowRoughAssignment retryScheduling : Bool) (request : AppName → ResourceType → ℚ)
      (s : ClusterSimulator × Unit), FitBased dimensions cls →
      Reported dimensions (.create tasks nodes allowRoughAssignment retryScheduling) →
      (∀ t ∈ tasks, ∀ d, t.requested.amount d = request t.getCoreName d) →
      ClusterSimulator.Reaches
        (BaseAlgorithm.onSimulator cls (ClusterSimulator.dataProvider getNodesType getAppsProfile))
        (ArrivesFor nodes request) (.create tasks nodes allowRoughAssignment retryScheduling, ()) s →
      ∀ node count, (node, count) ∈ s.1.roughAssignmentsPerNode.items → count = 0 := by
  refine ⟨?_, ?_⟩
  · rintro fit sim node t queried fits message rfl hscale hrep hall ht hnode hq hfit
    exact appFitNode_refines hrep hnode hall ht hscale hq hfit
  · intro cls tasks nodes rough retry request s hcls hrep halike hreach
    have hinv : ClusterSimulator.Invariant _ (ArrivesFor nodes request)
        (Unrough dimensions nodes request) :=
      ClusterSimulator.invariant_unrough hcls getNodesType getAppsProfile
    exact (hinv.reaches hreach (Unrough.create hrep halike)).unrough

namespace SmallCluster

open ClusterSimulator

def allDimensions : List ResourceType := [CPU, MEM, MEMBW_READ, MEMBW_WRITE]

def fit : Fit where
  dataProvider := dataProvider (fun _ => .ok ∅) (fun _ => .ok ∅) (.create [] [] false false)
  dimensions := allDimensions
  pmemNodes := []

/-- The simulator with one task yet to be assigned. -/
def oneTask : ClusterSimulator := .create [task] [node] true false

theorem reported_oneTask : Reported allDimensions oneTask where
  dimensions := by decide
  paired := by
    unfold MembwPaired
    decide
  positive := by
    unfold Node.PositiveMembw
    decide +kernel
  requests := by
    intro t ht
    cases List.mem_singleton.mp ht
    exact ⟨by unfold NonNeg; decide +kernel, by decide⟩
  placed := by
    intro t ht node ha
    cases List.mem_singleton.mp ht
    cases ha

theorem likeItsApp_oneTask : ∀ t ∈ oneTask.tasks, LikeItsApp oneTask t := by
  intro t ht
  refine ⟨reported_oneTask.requests t ht, fun t' ht' _ d => ?_⟩
  cases List.mem_singleton.mp ht
  cases List.mem_singleton.mp ht'
  rfl

/-- `Fit` without priorities of its own. -/
def fitClass (provider : DataProvider) : BaseAlgorithm :=
  ({ dataProvider := provider, dimensions := allDimensions, pmemNodes := [] } : Fit).algorithm 10
    fun _ _ _ => pure 0

def request (_ : AppName) : ResourceType → ℚ := task.requested.amount

theorem arrivesFor_task : ArrivesFor [node] request task where
  assignment := rfl
  requested := reported_oneTask.requests task (List.mem_singleton_self _)
  alike := fun _ => rfl

end SmallCluster

/-- The node of the small cluster is accepted for the task. -/
theorem fit_refines_small :
    SmallCluster.node.validateAssignment SmallCluster.oneTask.tasks SmallCluster.task = .ok true ∧
      ∃ s : ClusterSimulator × Unit, s.1.tasks.any (·.assignment = some SmallCluster.node) = true ∧
        ∀ node count, (node, count) ∈ s.1.roughAssignmentsPerNode.items → count = 0 := by
  have hrefines := fit_refines_validateAssignment SmallCluster.allDimensions (fun _ => .ok ∅)
    fun _ => .ok ∅
  constructor
  · have hfit : (do
        let queried ← queryDataProvider
          (SmallCluster.oneTask.dataProvider (fun _ => .ok ∅) fun _ => .ok ∅) SmallCluster.allDimensions
        SmallCluster.fit.appFitNode SmallCluster.node.name SmallCluster.task.getCoreName queried) =
          .ok (true, .text "") := by
      decide +kernel
    obtain ⟨queried, hq, hfit⟩ := except_bind_ok_iff.mp hfit
    exact (hrefines.1 SmallCluster.fit SmallCluster.oneTask SmallCluster.node SmallCluster.task queried
      true _ rfl rfl SmallCluster.reported_oneTask SmallCluster.likeItsApp_oneTask
      (SmallCluster.likeItsApp_oneTask _ (List.mem_singleton_self _)) rfl hq hfit).1 rfl
  · have hrun : returnsSuch (fun _ s => s.1.tasks.any (·.assignment = some SmallCluster.node))
        ((ClusterSimulator.iterate (BaseAlgorithm.onSimulator SmallCluster.fitClass
          (ClusterSimulator.dataProvider (fun _ => .ok ∅) fun _ => .ok ∅)) [SmallCluster.task]).run
          (.create [] [SmallCluster.node] true false, ())) = true := by
      decide +kernel
    obtain ⟨n, s, hs, hassigned⟩ := exists_of_returnsSuch hrun
    have harrives : ∀ t ∈ [SmallCluster.task],
        ArrivesFor [SmallCluster.node] SmallCluster.request t := fun t ht =>
      List.mem_singleton.mp ht ▸ SmallCluster.arrivesFor_task
    refine ⟨s, hassigned, hrefines.2 SmallCluster.fitClass [] [SmallCluster.node] true false
      SmallCluster.request s (Fit.fitBased _ _ _ _) ?_ (fun _ ht => (nomatch ht))
      (.returns .start harrives hs)⟩
    exact ⟨SmallCluster.reported_oneTask.dimensions, SmallCluster.reported_oneTask.paired,
      SmallCluster.reported_oneTask.positive, fun _ ht => (nomatch ht), fun _ ht => (nomatch ht)⟩

end Wca.Scheduler
