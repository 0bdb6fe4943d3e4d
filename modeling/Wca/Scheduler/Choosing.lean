import Wca.Scheduler.Merging

/-!
# The class that is chosen

Of the nodes that are offered, `HierBAR` accepts those in the class that the request takes of most
evenly, and fails the others. It finds such a class as long as no offered node was lost when classes
were merged (`LosesNone`).
-/

namespace Wca.Scheduler

open Py ResourceType Resources

/-! ## How evenly a request takes of a class -/

/-- The dimensions once reads and writes are made one. -/
def Effective (r : Resources) (d : ResourceType) : Prop :=
  if MEMBW_READ ∈ r then d = MEMBW_FLAT ∨ (d ≠ MEMBW_READ ∧ d ≠ MEMBW_WRITE ∧ d ∈ r) else d ∈ r

/-- Nodes with something of each dimension of the request, and two dimensions to compare. -/
structure Comparable (nodeCapacities : Dict NodeName Resources) (requested : Resources) : Prop where
  keys : ∀ r ∈ nodeCapacities.values, r.SameKeys requested
  positive : ∀ r ∈ nodeCapacities.values, ∀ v ∈ r.values, 0 < v
  /-- reads and writes are both dimensions, or neither -/
  paired : MembwPaired requested
  two : ∃ d d', d ≠ d' ∧ Effective requested d ∧ Effective requested d'

/-- The variance of a sample. -/
def sampleVariance (values : List ℚ) : ℚ :=
  (values.map fun v => (v - values.sum / values.length) * (v - values.sum / values.length)).sum /
    (values.length - 1)

/-- How unevenly the request takes of the average of some nodes. -/
def classVariance (nodeCapacities : Dict NodeName Resources) (requested : Resources)
    (names : List NodeName) : ℚ :=
  let averaged := averageOf (names.map (capacityOf nodeCapacities))
  sampleVariance (fractions (ratioOf averaged) requested averaged).values

theorem variance_ok {values : List ℚ} (h : 2 ≤ values.length) :
    variance values = .ok (sampleVariance values) := by
  rw [variance, if_neg (by omega)]
  rfl

theorem effective_iff {r : Resources} {ratio : Option ℚ} (h : MEMBW_READ ∈ r ↔ ratio.isSome)
    {d : ResourceType} : Effective r d ↔ d ∈ r.flattened ratio := by
  unfold Effective
  cases ratio with
  | none =>
    rw [if_neg fun hread => Bool.false_ne_true (h.mp hread)]
    exact Iff.rfl
  | some ratio =>
    have hread : MEMBW_READ ∈ r := h.mpr rfl
    rw [if_pos hread, mem_flattened hread]

theorem two_le_length {α : Type} {l : List α} {a b : α} (hne : a ≠ b) (ha : a ∈ l) (hb : b ∈ l) :
    2 ≤ l.length := by
  cases l with
  | nil => exact absurd ha List.not_mem_nil
  | cons x l =>
    cases l with
    | nil => exact absurd ((List.mem_singleton.mp ha).trans (List.mem_singleton.mp hb).symm) hne
    | cons y l => simp

section Classes

variable {nodeCapacities : Dict NodeName Resources} {requested : Resources} {names : List NodeName}
  {classes : Dict Shape (List NodeName)}

/-- The average of nodes has the dimensions of the request, and something of each. -/
theorem Comparable.average (h : Comparable nodeCapacities requested) (hne : names ≠ [])
    (hin : ∀ node ∈ names, node ∈ nodeCapacities) :
    (∀ a ∈ names.map (capacityOf nodeCapacities), ∀ b ∈ names.map (capacityOf nodeCapacities),
      a.SameKeys b) ∧
      (averageOf (names.map (capacityOf nodeCapacities))).SameKeys requested ∧
      ∀ d ∈ averageOf (names.map (capacityOf nodeCapacities)),
        0 < (averageOf (names.map (capacityOf nodeCapacities))).amount d := by
  have hvalue : ∀ a ∈ names.map (capacityOf nodeCapacities), a ∈ nodeCapacities.values := by
    intro a ha
    obtain ⟨node, hnode, rfl⟩ := List.mem_map.mp ha
    obtain ⟨capacity, hget⟩ := Dict.mem_keys_iff_get?.mp (hin node hnode)
    rw [capacityOf, hget]
    exact mem_values_of_get? hget
  have hkeys : ∀ a ∈ names.map (capacityOf nodeCapacities),
      ∀ b ∈ names.map (capacityOf nodeCapacities), a.SameKeys b :=
    fun a ha b hb => (h.keys a (hvalue a ha)).trans (h.keys b (hvalue b hb)).symm
  refine ⟨hkeys, sameKeys_of_iff fun d => ?_, fun d hd => ?_⟩
  · rw [mem_averageOf hkeys]
    constructor
    · rintro ⟨a, ha, hd⟩
      exact ((h.keys a (hvalue a ha)).iff d).mp hd
    · intro hd
      obtain ⟨node, hnode⟩ := List.exists_mem_of_ne_nil _ hne
      have ha := List.mem_map_of_mem (f := capacityOf nodeCapacities) hnode
      exact ⟨_, ha, ((h.keys _ (hvalue _ ha)).iff d).mpr hd⟩
  · rw [amount_averageOf hd, mean]
    have hlen : 0 < (names.map (capacityOf nodeCapacities)).length := by
      rw [List.length_map]
      exact List.length_pos_iff.mpr hne
    refine div_pos (List.sum_pos _ (fun v hv => ?_) ?_) (Nat.cast_pos.mpr hlen)
    · obtain ⟨a, ha, rfl⟩ := List.mem_map.mp hv
      obtain ⟨b, hb, hdb⟩ := (mem_averageOf hkeys).mp hd
      exact h.positive a (hvalue a ha) _
        (Dict.mem_values.mpr ⟨d, mem_items_amount (((hkeys a ha b hb).iff d).mpr hdb)⟩)
    · exact List.ne_nil_of_length_pos (by rwa [List.length_map])

/-- The variance of a class is found. -/
theorem classVariance_ok (h : Comparable nodeCapacities requested) (hne : names ≠ [])
    (hin : ∀ node ∈ names, node ∈ nodeCapacities) :
    (do
      let capacities ← names.mapM fun n => (nodeCapacities.item n : Except Exc Resources)
      let averaged ← calcAverageResources capacities
      let ratio ← calculateReadWriteRatio averaged
      let fraction ← divideResources requested averaged ratio
      variance fraction.values) = .ok (classVariance nodeCapacities requested names) := by
  obtain ⟨hkeys, hsame, hpos⟩ := h.average hne hin
  rw [mapM_item_capacity hin, except_ok_bind, calcAverageResources_ok_iff.mpr ⟨hkeys, rfl⟩, except_ok_bind]
  rw [classVariance]
  generalize averageOf (names.map (capacityOf nodeCapacities)) = averaged at hsame hpos ⊢
  have hpaired : MembwPaired averaged := (hsame.iff _).trans (h.paired.trans (hsame.iff _).symm)
  have hratio : MEMBW_READ ∈ requested ↔ (ratioOf averaged).isSome :=
    (hsame.iff _).symm.trans isSome_ratioOf.symm
  have hdivide : divideResources requested averaged (ratioOf averaged) =
      .ok (fractions (ratioOf averaged) requested averaged) := (divideResources_ok_iff h.paired).mpr
    ⟨hsame.symm, fun d hd => ne_of_gt (flattened_pos hpos hpaired
      (((hsame.flattened (ratioOf averaged)).iff d).mpr hd)), rfl⟩
  rw [ratio_ok_of_positive hpos hpaired, except_ok_bind, hdivide, except_ok_bind]
  refine variance_ok ?_
  obtain ⟨d, d', hne, hd, hd'⟩ := h.two
  have hmem : ∀ {d}, Effective requested d → d ∈ (fractions (ratioOf averaged) requested averaged).keys :=
    fun hd => mem_map.mpr ((effective_iff hratio).mp hd)
  rw [Dict.values, List.length_map, ← List.length_map Prod.fst]
  exact two_le_length hne (hmem hd) (hmem hd')

theorem calculateClassVariances_ok (h : Comparable nodeCapacities requested)
    (hnodes : ∀ p ∈ classes.items, p.2 ≠ [] ∧ ∀ node ∈ p.2, node ∈ nodeCapacities) :
    calculateClassVariances nodeCapacities requested classes =
      .ok (classes.map fun _ names => classVariance nodeCapacities requested names) := by
  rw [calculateClassVariances, Dict.comprehendM_ok_iff, Dict.items_map, List.forall₂_map_right_iff]
  refine List.forall₂_same.mpr fun p hp => ⟨?_, rfl⟩
  exact classVariance_ok h (hnodes p hp).1 (hnodes p hp).2

end Classes

/-! ## The choice -/

section Choice

variable {nodeNames : List NodeName} {classes : Dict Shape (List NodeName)}
  {sorted : List (Shape × ℚ)}

/-- The first class with an offered node is chosen. -/
theorem chooseClass_first (hclasses : ∀ p ∈ sorted, ∃ names, classes.get? p.1 = some names)
    (hsome : ∃ p ∈ sorted, ∃ names, classes.get? p.1 = some names ∧ ∃ node ∈ nodeNames, node ∈ names) :
    ∃ pre p post names, sorted = pre ++ p :: post ∧ classes.get? p.1 = some names ∧
      (∀ q ∈ pre, ∀ names', classes.get? q.1 = some names' → ∀ node ∈ nodeNames, node ∉ names') ∧
      (nodeNames.filter (· ∈ names)).dedup ≠ [] ∧
      chooseClass nodeNames classes sorted = .ok (p.2, (nodeNames.filter (· ∈ names)).dedup) := by
  induction sorted with
  | nil =>
    obtain ⟨p, hp, -⟩ := hsome
    exact absurd hp List.not_mem_nil
  | cons p rest ih =>
    obtain ⟨names, hnames⟩ := hclasses p List.mem_cons_self
    have hitem : (classes.item p.1 : Except Exn (List NodeName)) = .ok names :=
      Dict.item_ok_iff.mpr hnames
    by_cases haccepted : (nodeNames.filter (· ∈ names)).dedup = []
    · have hnone : ∀ node ∈ nodeNames, node ∉ names := by
        intro node hnode hin
        have hmem : node ∈ (nodeNames.filter (· ∈ names)).dedup :=
          List.mem_dedup.mpr (List.mem_filter.mpr ⟨hnode, decide_eq_true hin⟩)
        rw [haccepted] at hmem
        exact List.not_mem_nil hmem
      obtain ⟨q, hq, names', hnames', node, hnode, hin⟩ := hsome
      have hqrest : q ∈ rest := by
        rcases List.mem_cons.mp hq with rfl | hq
        · cases hnames.symm.trans hnames'
          exact absurd hin (hnone node hnode)
        · exact hq
      obtain ⟨pre, p', post, names'', rfl, hget, hpre, hne, hrun⟩ :=
        ih (fun p' hp' => hclasses p' (List.mem_cons_of_mem _ hp'))
          ⟨q, hqrest, names', hnames', node, hnode, hin⟩
      refine ⟨p :: pre, p', post, names'', rfl, hget, ?_, hne, ?_⟩
      · rintro q' hq' names₁ hnames₁
        rcases List.mem_cons.mp hq' with rfl | hq'
        · cases hnames.symm.trans hnames₁
          exact hnone
        · exact hpre q' hq' names₁ hnames₁
      · rw [chooseClass, hitem]
        simp only [liftM_ok, except_ok_bind]
        rw [if_neg (not_not.mpr haccepted)]
        exact hrun
    · refine ⟨[], p, rest, names, rfl, hnames, fun q hq => absurd hq List.not_mem_nil, haccepted, ?_⟩
      rw [chooseClass, hitem]
      simp only [liftM_ok, except_ok_bind]
      rw [if_pos haccepted]
      rfl

end Choice

/-- The offered nodes of a class are accepted, of those with an offered node the one with the least
variance, and the others fail. -/
structure ChoosesBest (nodeCapacities : Dict NodeName Resources) (requested : Resources)
    (classes : Dict Shape (List NodeName)) (nodeNames accepted : List NodeName)
    (failed : Dict NodeName FailureMessage) : Prop where
  nonempty : accepted ≠ []
  best : ∃ shape names, classes.get? shape = some names ∧
    (∀ node, node ∈ accepted ↔ node ∈ nodeNames ∧ node ∈ names) ∧
    ∀ shape' names', classes.get? shape' = some names' → (∃ node ∈ nodeNames, node ∈ names') →
      classVariance nodeCapacities requested names ≤ classVariance nodeCapacities requested names'
  others : ∀ node, node ∈ failed ↔ node ∈ nodeNames ∧ node ∉ accepted

namespace HierBAR

/-- Every node that has a class fails with the variance of it. -/
theorem failNodes_returns {classVariances : Dict Shape ℚ} {nodeShapes : Dict NodeName Shape}
    (matching : ℚ) {failedNames : List NodeName}
    (h : ∀ node ∈ failedNames, ∃ shape, nodeShapes.get? node = some shape ∧ shape ∈ classVariances) :
    ∃ failed, failNodes classVariances nodeShapes matching failedNames = .ok failed := by
  have hloop : ∃ failed, failNodes classVariances nodeShapes matching failedNames = .ok failed ∧
      True := by
    refine except_foldlM_returns (I := fun _ => True) trivial fun node hnode failed _ => ?_
    obtain ⟨shape, hshape, hin⟩ := h node hnode
    obtain ⟨thisVariance, hvariance⟩ := Dict.mem_keys_iff_get?.mp hin
    refine ⟨failed.set node (.notBestClass matching thisVariance), ?_, trivial⟩
    simp only [Dict.item_ok_iff.mpr hshape, Dict.item_ok_iff.mpr hvariance, liftM_ok, except_ok_bind]
    rfl
  obtain ⟨failed, hfailed, -⟩ := hloop
  exact ⟨failed, hfailed⟩

/-- `app_fit_nodes` returns, and chooses the best class. -/
def Chooses (self : HierBAR) (nodeNames : List NodeName) (appName : AppName)
    (queried : QueryDataProviderInfo) (requested : Resources) : Prop :=
  ∃ classes accepted failed, self.classes queried.nodesCapacities = .ok classes ∧
    self.appFitNodes nodeNames appName queried = .ok (accepted, failed) ∧
    ChoosesBest queried.nodesCapacities requested classes.1 nodeNames accepted failed

/-- No offered node is lost when classes are merged. -/
def LosesNone (self : HierBAR) (nodeNames : List NodeName) (nodeCapacities : Dict NodeName Resources)
    (requested : Resources) : Prop :=
  ∀ mergeThreshold, self.mergeThreshold = some mergeThreshold → OneShape nodeCapacities ∨
    (requested.HasMembw ∧ (∀ r ∈ nodeCapacities.values, whole (r.amount MEMBW_WRITE) ≠ 0) ∧
      (resourcesToShape (averageOf (sideOf mergeThreshold nodeCapacities true)) ≠
          resourcesToShape (averageOf (sideOf mergeThreshold nodeCapacities false)) ∨
        ∀ node ∈ nodeNames, ∀ r, nodeCapacities.get? node = some r → wholeRatio r ≤ mergeThreshold))

variable {self : HierBAR} {nodeNames : List NodeName} {appName : AppName}
  {queried : QueryDataProviderInfo} {requested : Resources}
  {classes : Dict Shape (List NodeName) × Dict NodeName Shape}

/-- Where every offered node has a class the best one is chosen. -/
theorem chooses_of_classes (hne : nodeNames ≠ [])
    (hrequested : queried.appsSpec.get? appName = some requested)
    (hcomparable : Comparable queried.nodesCapacities requested)
    (hclasses : self.classes queried.nodesCapacities = .ok classes)
    (hnodes : ∀ p ∈ classes.1.items, p.2 ≠ [] ∧ ∀ node ∈ p.2, node ∈ queried.nodesCapacities)
    (hclass : ∀ node ∈ nodeNames, ∃ shape names, classes.2.get? node = some shape ∧
      classes.1.get? shape = some names ∧ node ∈ names) :
    self.Chooses nodeNames appName queried requested := by
  have hvariances := calculateClassVariances_ok hcomparable hnodes
  obtain ⟨variances, hdef⟩ : ∃ variances : Dict Shape ℚ, variances =
      classes.1.map fun _ names => classVariance queried.nodesCapacities requested names := ⟨_, rfl⟩
  have hget : ∀ {shape names}, classes.1.get? shape = some names →
      (shape, classVariance queried.nodesCapacities requested names) ∈ variances.items := by
    intro shape names h
    rw [hdef, ← Dict.get?_eq_some_iff, Dict.get?_map, h, Option.map_some]
  have hback : ∀ p ∈ variances.items, ∃ names, classes.1.get? p.1 = some names ∧
      p.2 = classVariance queried.nodesCapacities requested names := by
    intro p hp
    have hp := Dict.get?_eq_some_iff.mpr hp
    rw [hdef, Dict.get?_map] at hp
    obtain ⟨names, hnames, he⟩ := Option.map_eq_some_iff.mp hp
    exact ⟨names, hnames, he.symm⟩
  rw [← hdef] at hvariances
  have hperm := List.mergeSort_perm variances.items fun a b => decide (a.2 ≤ b.2)
  have hsorted : (variances.items.mergeSort fun a b => decide (a.2 ≤ b.2)).Pairwise
      fun a b => decide (a.2 ≤ b.2) = true := by
    refine List.pairwise_mergeSort (fun a b c hab hbc => ?_) (fun a b => ?_) _
    · exact decide_eq_true (le_trans (of_decide_eq_true hab) (of_decide_eq_true hbc))
    · rw [Bool.or_eq_true, decide_eq_true_eq, decide_eq_true_eq]
      exact le_total _ _
  obtain ⟨first, hfirst⟩ := List.exists_mem_of_ne_nil _ hne
  obtain ⟨shape, names, -, hshape, hin⟩ := hclass first hfirst
  have hfound : ∀ p ∈ variances.items.mergeSort fun a b => decide (a.2 ≤ b.2),
      ∃ names, classes.1.get? p.1 = some names := by
    intro p hp
    obtain ⟨names, hnames, -⟩ := hback p (hperm.mem_iff.mp hp)
    exact ⟨names, hnames⟩
  obtain ⟨pre, p, post, best, hsplit, hbest, hpre, haccepted, hchoose⟩ := chooseClass_first hfound
    ⟨_, hperm.mem_iff.mpr (hget hshape), names, hshape, first, hfirst, hin⟩
  have hmem : ∀ node, node ∈ (nodeNames.filter (· ∈ best)).dedup ↔ node ∈ nodeNames ∧ node ∈ best := by
    intro node
    rw [List.mem_dedup, List.mem_filter, decide_eq_true_eq]
  have hshapes : ∀ node ∈ nodeNames.filter (· ∉ (nodeNames.filter (· ∈ best)).dedup),
      ∃ shape, classes.2.get? node = some shape ∧ shape ∈ variances := by
    intro node hnode
    obtain ⟨shape, names, hshape, hnames, -⟩ := hclass node (List.mem_filter.mp hnode).1
    exact ⟨shape, hshape, Dict.mem_keys.mpr ⟨_, hget hnames⟩⟩
  obtain ⟨failed, hfailed⟩ := failNodes_returns p.2 hshapes
  refine ⟨classes, _, failed, hclasses, ?_, haccepted, ⟨p.1, best, hbest, hmem, ?_⟩, ?_⟩
  · rw [appFitNodes, hclasses, except_ok_bind, Dict.item_ok_iff.mpr hrequested]
    simp only [liftM_ok, except_ok_bind, hvariances, hchoose, hfailed]
    rfl
  · intro shape' names' hnames' hoffered
    obtain ⟨names, hnames, hp⟩ := hback p
      (hperm.mem_iff.mp (hsplit ▸ List.mem_append_right _ List.mem_cons_self))
    cases hbest.symm.trans hnames
    rw [← hp]
    have hin' := hperm.mem_iff.mpr (hget hnames')
    rw [hsplit, List.mem_append, List.mem_cons] at hin'
    rw [hsplit, List.pairwise_append, List.pairwise_cons] at hsorted
    rcases hin' with hin' | he | hin'
    · obtain ⟨node, hnode, hinNode⟩ := hoffered
      exact absurd hinNode (hpre _ hin' names' hnames' node hnode)
    · exact (congrArg Prod.snd he).ge
    · exact of_decide_eq_true (hsorted.2.1.1 _ hin')
  · intro node
    rw [failNodes_ok hfailed, List.mem_filter, decide_eq_true_eq]

/-- The nodes of a class before any are merged. -/
theorem nodes_shapesOf {nodeCapacities : Dict NodeName Resources} :
    ∀ p ∈ (shapesOf nodeCapacities).items, p.2 ≠ [] ∧ ∀ node ∈ p.2, node ∈ nodeCapacities := by
  intro p hp
  obtain ⟨hin, hnodes⟩ := items_shapesOf hp
  obtain ⟨node, hnode⟩ := mem_shapesOf.mp hin
  rw [hnodes]
  refine ⟨List.ne_nil_of_mem (mem_nodesOfShape.mpr hnode), fun node' hin' => ?_⟩
  obtain ⟨capacity, hget, -⟩ := mem_nodesOfShape.mp hin'
  exact Dict.mem_keys_iff_get?.mpr ⟨capacity, hget⟩

theorem get?_classesOfNodes {merged : Dict Shape (List NodeName)} {node : NodeName} :
    (∃ names ∈ merged.values, node ∈ names) ↔
      ∃ shape, (Dict.ofItems (merged.items.flatMap fun p => p.2.map fun node => (node, p.1))).get?
        node = some shape := by
  rw [← Dict.mem_keys_iff_get?, Dict.mem_keys_ofItems]
  simp only [List.mem_flatMap, List.mem_map, Prod.mk.injEq]
  constructor
  · rintro ⟨names, hnames, hin⟩
    obtain ⟨shape, hp⟩ := Dict.mem_values.mp hnames
    exact ⟨shape, (shape, names), hp, node, hin, rfl, rfl⟩
  · rintro ⟨shape, p, hp, node', hin, rfl, rfl⟩
    exact ⟨p.2, Dict.mem_values.mpr ⟨p.1, hp⟩, hin⟩

/-- The best of the merged classes is chosen where each offered node is in one. -/
theorem chooses_of_merged {mergeThreshold : ℚ} {merged : Dict Shape (List NodeName)}
    (hne : nodeNames ≠ []) (hrequested : queried.appsSpec.get? appName = some requested)
    (hcomparable : Comparable queried.nodesCapacities requested)
    (hthreshold : self.mergeThreshold = some mergeThreshold)
    (hmerged : mergeShapes mergeThreshold queried.nodesCapacities (shapesOf queried.nodesCapacities) =
      .ok merged)
    (hnodes : ∀ p ∈ merged.items, p.2 ≠ [] ∧ ∀ node ∈ p.2, node ∈ queried.nodesCapacities)
    (hclass : ∀ node ∈ nodeNames, ∃ names ∈ merged.values, node ∈ names) :
    self.Chooses nodeNames appName queried requested := by
  have hclasses : self.classes queried.nodesCapacities = .ok (merged,
      .ofItems (merged.items.flatMap fun p => p.2.map fun node => (node, p.1))) := by
    rw [classes, hthreshold]
    change (mergeShapes mergeThreshold _ (shapesOf queried.nodesCapacities) >>= _) = _
    rw [hmerged]
    rfl
  refine chooses_of_classes hne hrequested hcomparable hclasses hnodes fun node hnode => ?_
  obtain ⟨shape, hget⟩ := get?_classesOfNodes.mp (hclass node hnode)
  obtain ⟨p, hp, hin⟩ := List.mem_flatMap.mp (Dict.mem_of_get?_ofItems hget)
  obtain ⟨node', hin', he⟩ := List.mem_map.mp hin
  cases he
  exact ⟨p.1, p.2, hget, Dict.get?_eq_some_iff.mpr hp, hin'⟩

/-- What is chosen, every offered node is in a merged class. -/
theorem offered_of_chooses {mergeThreshold : ℚ} (hthreshold : self.mergeThreshold = some mergeThreshold)
    (h : self.Chooses nodeNames appName queried requested) :
    ∃ merged, mergeShapes mergeThreshold queried.nodesCapacities (shapesOf queried.nodesCapacities) =
      .ok merged ∧ ∀ node ∈ nodeNames, ∃ names ∈ merged.values, node ∈ names := by
  obtain ⟨classes', accepted, failed, hclasses, hrun, -, ⟨shape, names, hshape, haccepted, -⟩, -⟩ := h
  have hmerge := hclasses
  rw [classes, hthreshold] at hmerge
  obtain ⟨merged, hmerged, hmerge⟩ := except_bind_ok_iff.mp hmerge
  cases hmerge
  refine ⟨merged, hmerged, fun node hnode => ?_⟩
  by_cases hin : node ∈ accepted
  · exact ⟨names, Dict.mem_values.mpr ⟨shape, Dict.get?_eq_some_iff.mp hshape⟩,
      ((haccepted node).mp hin).2⟩
  · obtain ⟨_, hclasses', hrun⟩ := except_bind_ok_iff.mp hrun
    cases hclasses.symm.trans hclasses'
    obtain ⟨_, -, hrun⟩ := except_bind_ok_iff.mp hrun
    obtain ⟨_, -, hrun⟩ := except_bind_ok_iff.mp hrun
    obtain ⟨chosen, -, hrun⟩ := except_bind_ok_iff.mp hrun
    obtain ⟨failed', hfailed, hrun⟩ := except_bind_ok_iff.mp hrun
    cases hrun
    obtain ⟨_, _, hstep⟩ := except_foldlM_ok_mem hfailed node
      (List.mem_filter.mpr ⟨hnode, decide_eq_true hin⟩)
    obtain ⟨shape', hshape', -⟩ := except_bind_ok_iff.mp hstep
    exact get?_classesOfNodes.mpr ⟨shape', Dict.item_ok_iff.mp (liftM_ok_iff.mp hshape')⟩

def unlikeNodes (app : AppName) (requested : Resources) : QueryDataProviderInfo where
  nodesCapacities := .ofItems
    [("node-0", .ofItems [(CPU, 10), (MEM, 10)]), ("node-1", .ofItems [(CPU, 20), (MEM, 10)])]
  assignedApps := .ofItems [("node-0", ∅), ("node-1", ∅)]
  appsSpec := .ofItems [(app, requested)]
  appsUnassigned := ∅

def oneOfEach : Resources := .ofItems [(CPU, 1), (MEM, 1)]

def mergingHierBAR (mergeThreshold : Option ℚ) : HierBAR where
  fit :=
    { dataProvider :=
        { getAppsCounts := pure (.ofItems [("node-0", ∅), ("node-1", ∅)], ∅)
          getNodesCapacities := fun _ => pure (unlikeNodes "memcached" oneOfEach).nodesCapacities
          getAppsRequestedResources := fun _ => pure (unlikeNodes "memcached" oneOfEach).appsSpec
          getDramHitRatio := fun _ => pure 1
          getNodesType := pure ∅
          getAppsProfile := pure ∅ }
      dimensions := [CPU, MEM]
      pmemNodes := [] }
  mergeThreshold

theorem comparable_unlikeNodes :
    Comparable (unlikeNodes "memcached" oneOfEach).nodesCapacities oneOfEach := by
  refine ⟨by decide +kernel, by decide +kernel, ⟨fun h => ?_, fun h => ?_⟩, CPU, MEM, by decide, ?_, ?_⟩
  · exact absurd h (by decide +kernel)
  · exact absurd h (by decide +kernel)
  · rw [Effective, if_neg (by decide +kernel)]
    decide +kernel
  · rw [Effective, if_neg (by decide +kernel)]
    decide +kernel

end HierBAR

end Wca.Scheduler
