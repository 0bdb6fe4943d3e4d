import Wca.Scheduler.Shapes

/-!
# Merged classes

With a threshold the classes of nodes are merged into two, by whether their ratio of reads to writes
is above it. `MergesWell` says that every node is in one class still and that the two sides of the
threshold are apart, and `Mergeable` says of which nodes that is so: `mergeShapes` leaves nodes
without bandwidth out, divides by bandwidths that are zero in whole units, and keeps one of two
classes whose averages are alike in whole units.
-/

namespace Wca.Scheduler

open Py ResourceType Resources

variable {mergeThreshold : ℚ} {nodeCapacities : Dict NodeName Resources} {node : NodeName}
  {shape : Shape} {classes : Dict Shape (List NodeName)}

/-- The classes have every node once. -/
structure KeepsNodes (nodeCapacities : Dict NodeName Resources)
    (classes : Dict Shape (List NodeName)) : Prop where
  once : ∀ names ∈ classes.values, names.Nodup
  disjoint : classes.values.Pairwise List.Disjoint
  all : ∀ node, node ∈ nodeCapacities ↔ ∃ names ∈ classes.values, node ∈ names

/-- The ratio of reads to writes is above the threshold. -/
def Above (mergeThreshold : ℚ) (r : Resources) : Prop :=
  r.HasMembw ∧ mergeThreshold < r.amount MEMBW_READ / r.amount MEMBW_WRITE

instance (mergeThreshold : ℚ) (r : Resources) : Decidable (Above mergeThreshold r) :=
  inferInstanceAs (Decidable (_ ∧ _))

/-- Only one class has nodes above the threshold, and only one has others. -/
def Separated (mergeThreshold : ℚ) (nodeCapacities : Dict NodeName Resources)
    (classes : Dict Shape (List NodeName)) : Prop :=
  ∀ p ∈ classes.items, ∀ q ∈ classes.items, ∀ node ∈ p.2, ∀ node' ∈ q.2, ∀ a b,
    nodeCapacities.get? node = some a → nodeCapacities.get? node' = some b →
      (Above mergeThreshold a ↔ Above mergeThreshold b) → p = q

/-- The merged classes keep every node, and the two sides of the threshold apart. -/
def MergesWell (mergeThreshold : ℚ) (nodeCapacities : Dict NodeName Resources) : Prop :=
  ∃ classes, mergeShapes mergeThreshold nodeCapacities
      (reverseNodeShapes (createShapesFromNodes nodeCapacities)) = .ok classes ∧
    KeepsNodes nodeCapacities classes ∧ Separated mergeThreshold nodeCapacities classes

/-- There is one class, and nothing to merge. -/
def OneShape (nodeCapacities : Dict NodeName Resources) : Prop :=
  ∀ a ∈ nodeCapacities.values, ∀ b ∈ nodeCapacities.values, resourcesToShape a = resourcesToShape b

instance (nodeCapacities : Dict NodeName Resources) : Decidable (OneShape nodeCapacities) :=
  inferInstanceAs (Decidable (∀ a ∈ nodeCapacities.values, ∀ b ∈ nodeCapacities.values, _))

/-- The nodes on one side of the threshold, by their bandwidths in whole units. -/
def sideOf (mergeThreshold : ℚ) (nodeCapacities : Dict NodeName Resources) (above : Bool) :
    List Resources :=
  nodeCapacities.values.filter fun r => decide (mergeThreshold < wholeRatio r) = above

/-- Nodes whose classes can be merged. -/
structure Mergeable (mergeThreshold : ℚ) (nodeCapacities : Dict NodeName Resources) : Prop where
  /-- every node has both bandwidths, and a unit to write -/
  bandwidth : ∀ r ∈ nodeCapacities.values, r.HasMembw ∧ whole (r.amount MEMBW_WRITE) ≠ 0
  /-- the nodes of a side have the same dimensions -/
  sameKeys : ∀ above, ∀ a ∈ sideOf mergeThreshold nodeCapacities above,
    ∀ b ∈ sideOf mergeThreshold nodeCapacities above, a.SameKeys b
  /-- the averages of the two sides differ in whole units -/
  apart : resourcesToShape (averageOf (sideOf mergeThreshold nodeCapacities true)) ≠
    resourcesToShape (averageOf (sideOf mergeThreshold nodeCapacities false))
  /-- nodes on one side of the threshold are on one side of it in whole units -/
  sides : ∀ a ∈ nodeCapacities.values, ∀ b ∈ nodeCapacities.values,
    (Above mergeThreshold a ↔ Above mergeThreshold b) →
      (mergeThreshold < wholeRatio a ↔ mergeThreshold < wholeRatio b)

/-! ## The classes before any are merged -/

theorem disjoint_of_items {classes : Dict Shape (List NodeName)}
    (h : ∀ p ∈ classes.items, ∀ q ∈ classes.items, p.1 ≠ q.1 → List.Disjoint p.2 q.2) :
    classes.values.Pairwise List.Disjoint := by
  refine List.pairwise_map.mpr ?_
  exact (List.pairwise_map.mp classes.nodup).imp_of_mem fun {p q} hp hq hne => h p hp q hq hne

theorem items_shapesOf {p : Shape × List NodeName} (hp : p ∈ (shapesOf nodeCapacities).items) :
    p.1 ∈ shapesOf nodeCapacities ∧ p.2 = nodesOfShape nodeCapacities p.1 := by
  have hmem : p.1 ∈ shapesOf nodeCapacities := Dict.mem_keys.mpr ⟨p.2, hp⟩
  have hget := get?_shapesOf_of_mem hmem
  rw [Dict.get?_eq_some_iff.mpr hp, Option.some.injEq] at hget
  exact ⟨hmem, hget⟩

theorem disjoint_nodesOfShape {shape' : Shape} (h : shape ≠ shape') :
    List.Disjoint (nodesOfShape nodeCapacities shape) (nodesOfShape nodeCapacities shape') := by
  intro node hin hin'
  obtain ⟨capacity, hget, rfl⟩ := mem_nodesOfShape.mp hin
  obtain ⟨capacity', hget', rfl⟩ := mem_nodesOfShape.mp hin'
  cases hget.symm.trans hget'
  exact h rfl

/-- Before any classes are merged every node is in the one of its shape. -/
theorem keepsNodes_shapesOf : KeepsNodes nodeCapacities (shapesOf nodeCapacities) := by
  refine ⟨fun names hnames => ?_, disjoint_of_items fun p hp q hq hne => ?_, fun node => ?_⟩
  · obtain ⟨shape, hin⟩ := Dict.mem_values.mp hnames
    have hnodes : names = nodesOfShape nodeCapacities shape := (items_shapesOf hin).2
    rw [hnodes]
    exact nodup_nodesOfShape
  · rw [(items_shapesOf hp).2, (items_shapesOf hq).2]
    exact disjoint_nodesOfShape hne
  · constructor
    · intro hin
      obtain ⟨capacity, hget⟩ := Dict.mem_keys_iff_get?.mp hin
      have hshape := get?_shapesOf_of_mem (mem_shapesOf.mpr ⟨node, capacity, hget, rfl⟩)
      exact ⟨_, Dict.mem_values.mpr ⟨_, Dict.get?_eq_some_iff.mp hshape⟩,
        mem_nodesOfShape.mpr ⟨capacity, hget, rfl⟩⟩
    · rintro ⟨names, hnames, hin⟩
      obtain ⟨shape, hitem⟩ := Dict.mem_values.mp hnames
      have hnodes : names = nodesOfShape nodeCapacities shape := (items_shapesOf hitem).2
      rw [hnodes] at hin
      obtain ⟨capacity, hget, -⟩ := mem_nodesOfShape.mp hin
      exact Dict.mem_keys_iff_get?.mpr ⟨capacity, hget⟩

theorem mem_values_of_get? {capacity : Resources} (h : nodeCapacities.get? node = some capacity) :
    capacity ∈ nodeCapacities.values :=
  Dict.mem_values.mpr ⟨node, Dict.get?_eq_some_iff.mp h⟩

theorem exists_of_mem_values {capacity : Resources} (h : capacity ∈ nodeCapacities.values) :
    ∃ node, nodeCapacities.get? node = some capacity := by
  obtain ⟨node, hin⟩ := Dict.mem_values.mp h
  exact ⟨node, Dict.get?_eq_some_iff.mpr hin⟩

theorem len_shapesOf_lt_two_iff : (shapesOf nodeCapacities).len < 2 ↔ OneShape nodeCapacities := by
  have hlen : (shapesOf nodeCapacities).len = (shapesOf nodeCapacities).keys.length :=
    (List.length_map _).symm
  constructor
  · intro hlt a ha b hb
    obtain ⟨node, hnode⟩ := exists_of_mem_values ha
    obtain ⟨node', hnode'⟩ := exists_of_mem_values hb
    have hin : resourcesToShape a ∈ (shapesOf nodeCapacities).keys :=
      mem_shapesOf.mpr ⟨node, a, hnode, rfl⟩
    have hin' : resourcesToShape b ∈ (shapesOf nodeCapacities).keys :=
      mem_shapesOf.mpr ⟨node', b, hnode', rfl⟩
    obtain ⟨shape, hkeys⟩ := List.length_eq_one_iff.mp
      (show (shapesOf nodeCapacities).keys.length = 1 by
        have := List.length_pos_of_mem hin
        omega)
    rw [hkeys, List.mem_singleton] at hin hin'
    rw [hin, hin']
  · intro hone
    rw [hlen]
    cases hkeys : (shapesOf nodeCapacities).keys with
    | nil => exact Nat.zero_lt_two
    | cons shape rest =>
      cases rest with
      | nil => exact Nat.one_lt_two
      | cons shape' rest =>
        have hnd := (shapesOf nodeCapacities).nodup
        rw [← Dict.keys, hkeys, List.nodup_cons] at hnd
        have hin : shape ∈ shapesOf nodeCapacities := by
          rw [Dict.mem_def, hkeys]
          exact List.mem_cons_self
        have hin' : shape' ∈ shapesOf nodeCapacities := by
          rw [Dict.mem_def, hkeys]
          exact List.mem_cons_of_mem _ List.mem_cons_self
        obtain ⟨node, a, hnode, rfl⟩ := mem_shapesOf.mp hin
        obtain ⟨node', b, hnode', rfl⟩ := mem_shapesOf.mp hin'
        have hsame := hone a (mem_values_of_get? hnode) b (mem_values_of_get? hnode')
        exact absurd (hsame ▸ List.mem_cons_self) hnd.1

/-! ## One side of the threshold -/

/-- The ratio of reads to writes of a shape. -/
def shapeRatio (shape : Shape) : ℚ :=
  (shapeResources shape).amount MEMBW_READ / (shapeResources shape).amount MEMBW_WRITE

theorem shapeRatio_eq {r : Resources} (h : r.HasMembw) :
    shapeRatio (resourcesToShape r) = wholeRatio r := by
  rw [shapeRatio, amount_shapeResources h.1, amount_shapeResources h.2, wholeRatio]

/-- The shapes on one side of the threshold. -/
def sideShapes (mergeThreshold : ℚ) (nodeCapacities : Dict NodeName Resources) (above : Bool) :
    List Shape :=
  (shapesOf nodeCapacities).keys.filter fun shape => decide (mergeThreshold < shapeRatio shape) = above

/-- The nodes of several shapes. -/
def nodesOfShapes (nodeCapacities : Dict NodeName Resources) (shapes : List Shape) : List NodeName :=
  shapes.flatMap (nodesOfShape nodeCapacities)

/-- What a node has. -/
def capacityOf (nodeCapacities : Dict NodeName Resources) (node : NodeName) : Resources :=
  (nodeCapacities.get? node).getD ∅

theorem mem_nodesOfShapes {shapes : List Shape} : node ∈ nodesOfShapes nodeCapacities shapes ↔
    ∃ capacity, nodeCapacities.get? node = some capacity ∧ resourcesToShape capacity ∈ shapes := by
  rw [nodesOfShapes, List.mem_flatMap]
  simp only [mem_nodesOfShape]
  constructor
  · rintro ⟨shape, hin, capacity, hget, rfl⟩
    exact ⟨capacity, hget, hin⟩
  · rintro ⟨capacity, hget, hin⟩
    exact ⟨_, hin, capacity, hget, rfl⟩

theorem nodup_nodesOfShapes {shapes : List Shape} (h : shapes.Nodup) :
    (nodesOfShapes nodeCapacities shapes).Nodup := by
  refine List.nodup_flatMap.mpr ⟨fun _ _ => nodup_nodesOfShape, ?_⟩
  exact h.imp fun hne => disjoint_nodesOfShape hne

/-- The capacities of nodes that are there. -/
theorem mapM_item_capacity {names : List NodeName} (h : ∀ n ∈ names, n ∈ nodeCapacities) :
    (names.mapM fun n => (nodeCapacities.item n : Except Exc Resources)) =
      .ok (names.map (capacityOf nodeCapacities)) := by
  refine except_mapM_eq_ok fun node hin => ?_
  obtain ⟨capacity, hget⟩ := Dict.mem_keys_iff_get?.mp (h node hin)
  rw [capacityOf, hget, Dict.item_ok_iff.mpr hget]
  rfl

/-- One shape in place of several is that of the average of their nodes. -/
theorem createNewShape_ok_iff {shapes : List Shape} {p : Shape × List NodeName}
    (h : ∀ shape ∈ shapes, shape ∈ shapesOf nodeCapacities) :
    createNewShape (shapesOf nodeCapacities) nodeCapacities shapes = .ok p ↔
      (∀ a ∈ (nodesOfShapes nodeCapacities shapes).map (capacityOf nodeCapacities),
        ∀ b ∈ (nodesOfShapes nodeCapacities shapes).map (capacityOf nodeCapacities), a.SameKeys b) ∧
      p = (resourcesToShape
        (averageOf ((nodesOfShapes nodeCapacities shapes).map (capacityOf nodeCapacities))),
        nodesOfShapes nodeCapacities shapes) := by
  have hnames : (shapes.mapM fun shape =>
      ((shapesOf nodeCapacities).item shape : Except Exc (List NodeName))) =
        .ok (shapes.map (nodesOfShape nodeCapacities)) := by
    rw [except_mapM_ok_iff, List.forall₂_map_right_iff]
    refine List.forall₂_same.mpr fun shape hin => ?_
    rw [Dict.item_ok_iff.mpr (get?_shapesOf_of_mem (h shape hin))]
    rfl
  have hnodes : ((nodesOfShapes nodeCapacities shapes).mapM fun n =>
      (nodeCapacities.item n : Except Exc Resources)) =
        .ok ((nodesOfShapes nodeCapacities shapes).map (capacityOf nodeCapacities)) := by
    refine mapM_item_capacity fun node hin => ?_
    obtain ⟨capacity, hget, -⟩ := mem_nodesOfShapes.mp hin
    exact Dict.mem_keys_iff_get?.mpr ⟨capacity, hget⟩
  rw [createNewShape, hnames, except_ok_bind, ← List.flatMap_def, ← nodesOfShapes, hnodes,
    except_ok_bind, except_bind_ok_iff]
  simp only [calcAverageResources_ok_iff]
  constructor
  · rintro ⟨average, ⟨hkeys, rfl⟩, hp⟩
    exact ⟨hkeys, (Except.ok.inj hp).symm⟩
  · rintro ⟨hkeys, rfl⟩
    exact ⟨_, ⟨hkeys, rfl⟩, rfl⟩

/-- What the nodes of a side have, in another order. -/
theorem perm_sideOf (mergeThreshold : ℚ) (hboth : ∀ r ∈ nodeCapacities.values, r.HasMembw) (above : Bool) :
    ((nodesOfShapes nodeCapacities (sideShapes mergeThreshold nodeCapacities above)).map
      (capacityOf nodeCapacities)).Perm (sideOf mergeThreshold nodeCapacities above) := by
  have hside : sideOf mergeThreshold nodeCapacities above =
      ((nodeCapacities.items.filter fun p =>
        decide (mergeThreshold < wholeRatio p.2) = above).map Prod.fst).map
          (capacityOf nodeCapacities) := by
    rw [sideOf, Dict.values, List.filter_map, List.map_map]
    refine List.map_congr_left fun p hp => ?_
    rw [Function.comp_apply, capacityOf,
      Dict.get?_eq_some_iff.mpr (List.mem_filter.mp hp).1, Option.getD_some]
  rw [hside]
  refine List.Perm.map _ ((List.perm_ext_iff_of_nodup ?_ ?_).mpr fun node => ?_)
  · exact nodup_nodesOfShapes ((shapesOf nodeCapacities).nodup.filter _)
  · exact nodeCapacities.nodup.sublist (List.filter_sublist.map _)
  · rw [mem_nodesOfShapes, List.mem_map]
    constructor
    · rintro ⟨capacity, hget, hin⟩
      refine ⟨(node, capacity), List.mem_filter.mpr ⟨Dict.get?_eq_some_iff.mp hget, ?_⟩, rfl⟩
      have hdecide := (List.mem_filter.mp hin).2
      rwa [shapeRatio_eq (hboth _ (mem_values_of_get? hget))] at hdecide
    · rintro ⟨⟨node', capacity⟩, hp, rfl⟩
      obtain ⟨hp, hdecide⟩ := List.mem_filter.mp hp
      have hget := Dict.get?_eq_some_iff.mpr hp
      refine ⟨capacity, hget, List.mem_filter.mpr ⟨mem_shapesOf.mpr ⟨node', capacity, hget, rfl⟩, ?_⟩⟩
      rwa [shapeRatio_eq (hboth _ (mem_values_of_get? hget))]

/-! ## The two classes -/

/-- What `_merge_shapes` makes of the two new shapes. -/
def twoClasses (above below : Shape × List NodeName) : Dict Shape (List NodeName) :=
  let newShapes : Dict Shape (List NodeName) := if above.1 ≠ [] then Dict.set ∅ above.1 above.2 else ∅
  if below.1 ≠ [] then newShapes.set below.1 below.2 else newShapes

theorem items_twoClasses {above below : Shape × List NodeName} (h : above.1 ≠ below.1) :
    (twoClasses above below).items = [above, below].filter fun p => p.1 ≠ [] := by
  unfold twoClasses
  by_cases habove : above.1 = []
  · rw [habove] at h
    rw [if_neg (not_not.mpr habove), if_pos h.symm, Dict.items_set_of_not_mem List.not_mem_nil]
    simp [habove, h.symm]
  · have hset : (Dict.set ∅ above.1 above.2 : Dict Shape (List NodeName)).items = [above] :=
      Dict.items_set_of_not_mem List.not_mem_nil
    rw [if_pos habove]
    by_cases hbelow : below.1 = []
    · rw [if_neg (not_not.mpr hbelow), hset]
      simp [habove, hbelow]
    · have hnew : below.1 ∉ (Dict.set ∅ above.1 above.2 : Dict Shape (List NodeName)).keys := by
        rw [Dict.keys, hset, List.map_singleton, List.mem_singleton]
        exact h.symm
      rw [if_pos hbelow, Dict.items_set_of_not_mem hnew, hset]
      simp [habove, hbelow]

theorem mem_values_twoClasses (above below : Shape × List NodeName) {names : List NodeName}
    (h : names ∈ (twoClasses above below).values) : names = above.2 ∨ names = below.2 := by
  obtain ⟨shape, hin⟩ := Dict.mem_values.mp h
  have hget := Dict.get?_eq_some_iff.mpr hin
  unfold twoClasses at hget
  dsimp only at hget
  have hfirst : ∀ {names}, (if above.1 ≠ [] then Dict.set ∅ above.1 above.2 else ∅ :
      Dict Shape (List NodeName)).get? shape = some names → names = above.2 := by
    intro names h
    split at h
    · rw [Dict.get?_set] at h
      split at h
      · exact (Option.some.inj h).symm
      · exact absurd h (Option.some_ne_none _).symm
    · exact absurd h (Option.some_ne_none _).symm
  split at hget
  · rw [Dict.get?_set] at hget
    split at hget
    · exact .inr (Option.some.inj hget).symm
    · exact .inl (hfirst hget)
  · exact .inl (hfirst hget)

/-- Of two new shapes that are alike only the nodes of the second are kept. -/
theorem values_twoClasses_of_eq {above below : Shape × List NodeName} (h : above.1 = below.1)
    (hne : below.1 ≠ []) : (twoClasses above below).values = [below.2] := by
  have hset : (Dict.set ∅ above.1 above.2 : Dict Shape (List NodeName)).items = [above] :=
    Dict.items_set_of_not_mem List.not_mem_nil
  have hin : below.1 ∈ (Dict.set ∅ above.1 above.2 : Dict Shape (List NodeName)).keys := by
    rw [Dict.keys, hset, List.map_singleton, List.mem_singleton, h]
  unfold twoClasses
  dsimp only
  have hne' : above.1 ≠ [] := h ▸ hne
  rw [if_pos hne, if_pos hne', Dict.values, Dict.items_set_of_mem hin, hset]
  simp [h]

/-! ## Merging -/

variable {above below : Shape × List NodeName}

/-- A node without bandwidth, or with less than a unit to write, is in no merged class. -/
theorem bandwidth_of_merged (hlen : ¬(shapesOf nodeCapacities).len < 2)
    (h : mergeShapes mergeThreshold nodeCapacities (shapesOf nodeCapacities) = .ok classes)
    {r : Resources} (hget : nodeCapacities.get? node = some r)
    (hin : ∃ names ∈ classes.values, node ∈ names) :
    r.HasMembw ∧ whole (r.amount MEMBW_WRITE) ≠ 0 := by
  rw [mergeShapes, if_neg hlen] at h
  obtain ⟨ratios, hratios, h⟩ := except_bind_ok_iff.mp h
  obtain ⟨above, habove, h⟩ := except_bind_ok_iff.mp h
  obtain ⟨below, hbelow, h⟩ := except_bind_ok_iff.mp h
  cases h
  have hratios := except_mapM_ok_iff.mp hratios
  have hentry : ∀ p ∈ ratios, p.1 ∈ shapesOf nodeCapacities ∧
      calculateReadWriteRatio (shapeResources p.1) = .ok p.2 := by
    intro p hp
    obtain ⟨shape, hshape, hp⟩ := forall₂_exists_left hratios hp
    obtain ⟨ratio, hratio, hp⟩ := except_bind_ok_iff.mp hp
    cases hp
    exact ⟨hshape, hratio⟩
  -- the shape of the node is among those of the class, so it has a ratio
  have hsome : ∀ (c : ℚ → Bool) (p : Shape × List NodeName),
      createNewShape (shapesOf nodeCapacities) nodeCapacities
        (ratios.filterMap fun p => if p.2.any c then some p.1 else none) = .ok p → node ∈ p.2 →
      r.HasMembw ∧ whole (r.amount MEMBW_WRITE) ≠ 0 := by
    intro c p hp hnode
    have hmem : ∀ shape ∈ ratios.filterMap fun p => if p.2.any c then some p.1 else none,
        shape ∈ shapesOf nodeCapacities ∧ ∃ q, calculateReadWriteRatio (shapeResources shape) =
          .ok (some q) := by
      intro shape hshape
      obtain ⟨q, hq, hif⟩ := List.mem_filterMap.mp hshape
      obtain ⟨hany, he⟩ := Option.ite_none_right_eq_some.mp hif
      cases he
      obtain ⟨hin, hratio⟩ := hentry q hq
      cases hq2 : q.2 with
      | none =>
        rw [hq2] at hany
        exact absurd hany Bool.false_ne_true
      | some ratio => exact ⟨hin, ratio, hq2 ▸ hratio⟩
    obtain ⟨-, rfl⟩ := (createNewShape_ok_iff fun shape hshape => (hmem shape hshape).1).mp hp
    obtain ⟨capacity, hget', hshape⟩ := mem_nodesOfShapes.mp hnode
    cases hget.symm.trans hget'
    obtain ⟨-, q, hq⟩ := hmem _ hshape
    rcases ratio_shape_ok_iff.mp hq with ⟨-, hnone⟩ | ⟨hboth, hwhole, -⟩
    · exact absurd hnone (Option.some_ne_none _)
    · exact ⟨hboth, hwhole⟩
  obtain ⟨names, hnames, hnode⟩ := hin
  rcases mem_values_twoClasses above below hnames with rfl | rfl
  · exact hsome _ _ habove hnode
  · exact hsome _ _ hbelow hnode

theorem ratio_of_merged (hlen : ¬(shapesOf nodeCapacities).len < 2)
    (h : mergeShapes mergeThreshold nodeCapacities (shapesOf nodeCapacities) = .ok classes)
    (hin : shape ∈ shapesOf nodeCapacities) :
    ∃ ratio, calculateReadWriteRatio (shapeResources shape) = .ok ratio := by
  rw [mergeShapes, if_neg hlen] at h
  obtain ⟨ratios, hratios, -⟩ := except_bind_ok_iff.mp h
  obtain ⟨_, -, hratio⟩ := forall₂_exists_right (except_mapM_ok_iff.mp hratios) hin
  obtain ⟨ratio, hratio, -⟩ := except_bind_ok_iff.mp hratio
  exact ⟨ratio, hratio⟩

/-- Where every node has bandwidths the shapes of each side are put together. -/
theorem mergeShapes_eq (hlen : ¬(shapesOf nodeCapacities).len < 2)
    (hbandwidth : ∀ r ∈ nodeCapacities.values, r.HasMembw ∧ whole (r.amount MEMBW_WRITE) ≠ 0) :
    mergeShapes mergeThreshold nodeCapacities (shapesOf nodeCapacities) = (do
      let above ← createNewShape (shapesOf nodeCapacities) nodeCapacities
        (sideShapes mergeThreshold nodeCapacities true)
      let below ← createNewShape (shapesOf nodeCapacities) nodeCapacities
        (sideShapes mergeThreshold nodeCapacities false)
      pure (twoClasses above below)) := by
  have hratios : ((shapesOf nodeCapacities).keys.mapM fun shape => do
      let ratio ← calculateReadWriteRatio (shapeResources shape)
      pure (shape, ratio)) =
        .ok ((shapesOf nodeCapacities).keys.map fun shape => (shape, some (shapeRatio shape))) := by
    rw [except_mapM_ok_iff, List.forall₂_map_right_iff]
    refine List.forall₂_same.mpr fun shape hin => ?_
    obtain ⟨node, r, hget, rfl⟩ := mem_shapesOf.mp hin
    obtain ⟨hboth, hwhole⟩ := hbandwidth r (mem_values_of_get? hget)
    rw [ratio_shape_ok_iff.mpr (.inr ⟨hboth, hwhole, rfl⟩), shapeRatio_eq hboth]
    rfl
  have hside : ∀ (c : ℚ → Bool) (b : Bool), (∀ q, c q = true ↔ decide (mergeThreshold < q) = b) →
      (((shapesOf nodeCapacities).keys.map fun shape => (shape, some (shapeRatio shape))).filterMap
        fun p : Shape × Option ℚ => if p.2.any c then some p.1 else none) =
          sideShapes mergeThreshold nodeCapacities b := by
    intro c b hc
    rw [List.filterMap_map, sideShapes, ← List.filterMap_eq_filter]
    refine congrFun (congrArg List.filterMap (funext fun shape => ?_)) _
    simp only [Function.comp_apply, Option.any_some, Option.guard, hc, decide_eq_true_eq]
  rw [mergeShapes, if_neg hlen, hratios, except_ok_bind]
  rw [hside _ true fun q => by simp, hside _ false fun q => by simp]
  rfl

section Sides

/-- The new shape of a side. -/
def sideClass (mergeThreshold : ℚ) (nodeCapacities : Dict NodeName Resources) (above : Bool) :
    Shape × List NodeName :=
  (resourcesToShape (averageOf (sideOf mergeThreshold nodeCapacities above)),
    nodesOfShapes nodeCapacities (sideShapes mergeThreshold nodeCapacities above))

variable (hbandwidth : ∀ r ∈ nodeCapacities.values,
  r.HasMembw ∧ whole (r.amount MEMBW_WRITE) ≠ 0)

include hbandwidth

theorem createNewShape_side_ok_iff {b : Bool} {p : Shape × List NodeName} :
    createNewShape (shapesOf nodeCapacities) nodeCapacities
        (sideShapes mergeThreshold nodeCapacities b) = .ok p ↔
      (∀ r ∈ sideOf mergeThreshold nodeCapacities b, ∀ r' ∈ sideOf mergeThreshold nodeCapacities b,
        r.SameKeys r') ∧ p = sideClass mergeThreshold nodeCapacities b := by
  have hperm := perm_sideOf mergeThreshold (fun r hr => (hbandwidth r hr).1) b
  have hsub : ∀ shape ∈ sideShapes mergeThreshold nodeCapacities b, shape ∈ shapesOf nodeCapacities :=
    fun shape hin => (List.mem_filter.mp hin).1
  rw [createNewShape_ok_iff hsub]
  simp only [hperm.mem_iff]
  refine and_congr_right fun hkeys => ?_
  rw [sideClass, shape_averageOf_perm (fun r hr r' hr' =>
    hkeys r (hperm.mem_iff.mp hr) r' (hperm.mem_iff.mp hr')) hperm]

theorem mem_sideClass {b : Bool} {r : Resources} (hget : nodeCapacities.get? node = some r) :
    node ∈ (sideClass mergeThreshold nodeCapacities b).2 ↔
      decide (mergeThreshold < wholeRatio r) = b := by
  have hratio := shapeRatio_eq (hbandwidth r (mem_values_of_get? hget)).1
  rw [sideClass, mem_nodesOfShapes]
  constructor
  · rintro ⟨capacity, hget', hin⟩
    cases hget.symm.trans hget'
    rw [← hratio]
    exact of_decide_eq_true (List.mem_filter.mp hin).2
  · intro hside
    refine ⟨r, hget, List.mem_filter.mpr ⟨mem_shapesOf.mpr ⟨node, r, hget, rfl⟩, ?_⟩⟩
    rw [hratio]
    exact decide_eq_true hside

/-- A new shape has dimensions just if it has nodes. -/
theorem sideClass_ne_nil_iff {b : Bool} (hkeys : ∀ r ∈ sideOf mergeThreshold nodeCapacities b,
    ∀ r' ∈ sideOf mergeThreshold nodeCapacities b, r.SameKeys r') :
    (sideClass mergeThreshold nodeCapacities b).1 ≠ [] ↔
      ∃ node r, nodeCapacities.get? node = some r ∧
        node ∈ (sideClass mergeThreshold nodeCapacities b).2 := by
  rw [sideClass, ne_eq, resourcesToShape_eq_nil_iff, ← sideClass]
  constructor
  · intro hne
    obtain ⟨d, hd⟩ := not_forall.mp hne
    obtain ⟨r, hr, -⟩ := (mem_averageOf hkeys).mp (not_not.mp hd)
    obtain ⟨hin, hside⟩ := List.mem_filter.mp hr
    obtain ⟨node, hget⟩ := exists_of_mem_values hin
    exact ⟨node, r, hget, (mem_sideClass hbandwidth hget).mpr (of_decide_eq_true hside)⟩
  · rintro ⟨node, r, hget, hin⟩ hnone
    refine hnone MEMBW_READ ((mem_averageOf hkeys).mpr ⟨r, List.mem_filter.mpr ⟨?_, ?_⟩, ?_⟩)
    · exact mem_values_of_get? hget
    · exact decide_eq_true ((mem_sideClass hbandwidth hget).mp hin)
    · exact (hbandwidth r (mem_values_of_get? hget)).1.1

/-- Two new shapes that differ keep every node. -/
theorem keepsNodes_twoClasses
    (hkeys : ∀ b, ∀ r ∈ sideOf mergeThreshold nodeCapacities b,
      ∀ r' ∈ sideOf mergeThreshold nodeCapacities b, r.SameKeys r')
    (hapart : (sideClass mergeThreshold nodeCapacities true).1 ≠
      (sideClass mergeThreshold nodeCapacities false).1) :
    KeepsNodes nodeCapacities (twoClasses (sideClass mergeThreshold nodeCapacities true)
      (sideClass mergeThreshold nodeCapacities false)) := by
  have hitems := items_twoClasses hapart
  have hmem : ∀ p, p ∈ (twoClasses (sideClass mergeThreshold nodeCapacities true)
      (sideClass mergeThreshold nodeCapacities false)).items ↔
        ∃ b, p = sideClass mergeThreshold nodeCapacities b ∧ p.1 ≠ [] := by
    intro p
    rw [hitems, List.mem_filter, decide_eq_true_eq, List.mem_cons, List.mem_singleton,
      Bool.exists_bool, or_and_right, or_comm]
  have hnode : ∀ {node b}, node ∈ (sideClass mergeThreshold nodeCapacities b).2 →
      ∃ r, nodeCapacities.get? node = some r := by
    intro node b hin
    obtain ⟨r, hget, -⟩ := mem_nodesOfShapes.mp hin
    exact ⟨r, hget⟩
  refine ⟨fun names hnames => ?_, disjoint_of_items fun p hp q hq hne => ?_, fun node => ?_⟩
  · obtain ⟨shape, hin⟩ := Dict.mem_values.mp hnames
    obtain ⟨b, hp, -⟩ := (hmem _).mp hin
    have hnodes : names = (sideClass mergeThreshold nodeCapacities b).2 := congrArg Prod.snd hp
    rw [hnodes]
    exact nodup_nodesOfShapes ((shapesOf nodeCapacities).nodup.filter _)
  · obtain ⟨b, rfl, -⟩ := (hmem p).mp hp
    obtain ⟨b', rfl, -⟩ := (hmem q).mp hq
    intro node hin hin'
    obtain ⟨r, hget⟩ := hnode hin
    have hside := (mem_sideClass hbandwidth hget).mp hin
    exact hne (by rw [← hside, (mem_sideClass hbandwidth hget).mp hin'])
  · constructor
    · intro hin
      obtain ⟨r, hget⟩ := Dict.mem_keys_iff_get?.mp hin
      have hclass : node ∈ (sideClass mergeThreshold nodeCapacities
          (decide (mergeThreshold < wholeRatio r))).2 := (mem_sideClass hbandwidth hget).mpr rfl
      refine ⟨_, Dict.mem_values.mpr ⟨_, (hmem _).mpr ⟨_, rfl, ?_⟩⟩, hclass⟩
      exact (sideClass_ne_nil_iff hbandwidth (hkeys _)).mpr ⟨node, r, hget, hclass⟩
    · rintro ⟨names, hnames, hin⟩
      obtain ⟨shape, hp⟩ := Dict.mem_values.mp hnames
      obtain ⟨b, hp, -⟩ := (hmem _).mp hp
      have hnodes : names = (sideClass mergeThreshold nodeCapacities b).2 := congrArg Prod.snd hp
      rw [hnodes] at hin
      obtain ⟨r, hget⟩ := hnode hin
      exact Dict.mem_keys_iff_get?.mpr ⟨r, hget⟩

/-- Of two new shapes that are alike, the nodes of the first are lost. -/
theorem apart_of_keepsNodes (hne : ∃ node r, nodeCapacities.get? node = some r)
    (hkeys : ∀ b, ∀ r ∈ sideOf mergeThreshold nodeCapacities b,
      ∀ r' ∈ sideOf mergeThreshold nodeCapacities b, r.SameKeys r')
    (h : KeepsNodes nodeCapacities (twoClasses (sideClass mergeThreshold nodeCapacities true)
      (sideClass mergeThreshold nodeCapacities false))) :
    (sideClass mergeThreshold nodeCapacities true).1 ≠
      (sideClass mergeThreshold nodeCapacities false).1 := by
  intro halike
  have hboth : ∀ b b', (sideClass mergeThreshold nodeCapacities b).1 =
      (sideClass mergeThreshold nodeCapacities b').1 := by
    intro b b'
    cases b <;> cases b' <;> first | rfl | exact halike | exact halike.symm
  obtain ⟨node, r, hget⟩ := hne
  have hsome := (sideClass_ne_nil_iff hbandwidth (hkeys _)).mpr
    ⟨node, r, hget, (mem_sideClass hbandwidth hget).mpr rfl⟩
  rw [hboth _ true] at hsome
  obtain ⟨node', r', hget', hin'⟩ := (sideClass_ne_nil_iff hbandwidth (hkeys true)).mp hsome
  have hvalues := values_twoClasses_of_eq halike (halike ▸ hsome)
  obtain ⟨names, hnames, hin⟩ := (h.all node').mp (Dict.mem_keys_iff_get?.mpr ⟨r', hget'⟩)
  rw [hvalues, List.mem_singleton] at hnames
  rw [hnames] at hin
  have htrue := (mem_sideClass hbandwidth hget').mp hin'
  have hfalse := (mem_sideClass hbandwidth hget').mp hin
  exact absurd (htrue.symm.trans hfalse) (by decide)

end Sides

def threeNodes : Dict NodeName Resources :=
  .ofItems [("node-0", .ofItems [(MEMBW_READ, 2), (MEMBW_WRITE, 1)]),
    ("node-1", .ofItems [(MEMBW_READ, 1), (MEMBW_WRITE, 1)]),
    ("node-2", .ofItems [(MEMBW_READ, 3), (MEMBW_WRITE, 2)])]

end Wca.Scheduler
