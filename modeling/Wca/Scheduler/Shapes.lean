import Wca.Scheduler.Fractions
import Wca.Scheduler.HierBAR

/-!
# Shapes

The nodes with the same capacities, in whole units, are one class of `HierBAR`. Here are the shape of
a node, the average of several nodes, and the class of each shape.
-/

namespace Wca.Scheduler

open Py ResourceType Resources

/-! ## Shapes -/

/-- `int(v)`. -/
def whole (v : ℚ) : ℤ := v.num.tdiv v.den

theorem mem_resourcesToShape {r : Resources} {d : ResourceType} {n : ℤ} :
    (d, n) ∈ resourcesToShape r ↔ d ∈ r ∧ n = whole (r.amount d) := by
  have hd : d ∈ dimensionsInOrder := by
    cases d <;> decide
  rw [resourcesToShape, List.mem_filterMap]
  constructor
  · rintro ⟨d', -, he⟩
    obtain ⟨v, hv, he⟩ := Option.map_eq_some_iff.mp he
    cases he
    rw [amount_of_get? hv]
    exact ⟨Dict.mem_keys_iff_get?.mpr ⟨v, hv⟩, rfl⟩
  · rintro ⟨hin, rfl⟩
    obtain ⟨v, hv⟩ := Dict.mem_keys_iff_get?.mp hin
    rw [amount_of_get? hv]
    exact ⟨d, hd, Option.map_eq_some_iff.mpr ⟨v, hv, rfl⟩⟩

theorem resourcesToShape_congr {a b : Resources} (hkeys : a.SameKeys b)
    (hamount : ∀ d, a.amount d = b.amount d) : resourcesToShape a = resourcesToShape b := by
  refine congrFun (congrArg List.filterMap (funext fun d => ?_)) _
  cases ha : a.get? d with
  | none =>
    have hb : d ∉ b := fun h => Dict.get?_eq_none_iff.mp ha ((hkeys.iff d).mpr h)
    rw [Dict.get?_eq_none_iff.mpr hb]
  | some v =>
    obtain ⟨w, hw⟩ := Dict.mem_keys_iff_get?.mp ((hkeys.iff d).mp (Dict.mem_keys_iff_get?.mpr ⟨v, ha⟩))
    have hvw := hamount d
    rw [amount_of_get? ha, amount_of_get? hw] at hvw
    rw [hw, hvw]

theorem resourcesToShape_eq_nil_iff {r : Resources} : resourcesToShape r = [] ↔ ∀ d, d ∉ r := by
  rw [List.eq_nil_iff_forall_not_mem]
  constructor
  · exact fun h d hd => h (d, _) (mem_resourcesToShape.mpr ⟨hd, rfl⟩)
  · rintro h ⟨d, n⟩ hin
    exact h d (mem_resourcesToShape.mp hin).1

theorem mem_shapeResources {r : Resources} {d : ResourceType} :
    d ∈ shapeResources (resourcesToShape r) ↔ d ∈ r := by
  rw [shapeResources, Dict.mem_def, Dict.mem_keys_ofItems]
  constructor
  · rintro ⟨v, hin⟩
    obtain ⟨⟨d', n⟩, hp, he⟩ := List.mem_map.mp hin
    cases he
    exact (mem_resourcesToShape.mp hp).1
  · intro hd
    exact ⟨_, List.mem_map.mpr ⟨(d, whole (r.amount d)), mem_resourcesToShape.mpr ⟨hd, rfl⟩, rfl⟩⟩

theorem amount_shapeResources {r : Resources} {d : ResourceType} (hd : d ∈ r) :
    (shapeResources (resourcesToShape r)).amount d = whole (r.amount d) := by
  obtain ⟨v, hv⟩ := Dict.mem_keys_iff_get?.mp (mem_shapeResources.mpr hd)
  obtain ⟨⟨d', n⟩, hp, he⟩ := List.mem_map.mp (Dict.mem_of_get?_ofItems hv)
  cases he
  rw [amount_of_get? hv, (mem_resourcesToShape.mp hp).2]

/-- The ratio of reads to writes, in whole units. -/
def wholeRatio (r : Resources) : ℚ :=
  (whole (r.amount MEMBW_READ) : ℚ) / whole (r.amount MEMBW_WRITE)

theorem ratio_shape_ok_iff {r : Resources} {ratio : Option ℚ} :
    calculateReadWriteRatio (shapeResources (resourcesToShape r)) = .ok ratio ↔
      (MEMBW_READ ∉ r ∧ ratio = none) ∨
        (r.HasMembw ∧ whole (r.amount MEMBW_WRITE) ≠ 0 ∧ ratio = some (wholeRatio r)) := by
  unfold calculateReadWriteRatio
  simp only [mem_shapeResources]
  by_cases hread : MEMBW_READ ∈ r
  · rw [if_pos hread, except_seq_ok_iff, assert_ok_iff, except_bind_ok_iff]
    constructor
    · rintro ⟨hwrite, q, hq, he⟩
      rw [amount_shapeResources hread, amount_shapeResources hwrite, truediv_ok_iff] at hq
      obtain ⟨hne, rfl⟩ := hq
      exact .inr ⟨⟨hread, hwrite⟩, fun h0 => hne (by rw [h0, Int.cast_zero]), (Except.ok.inj he).symm⟩
    · rintro (⟨hnot, -⟩ | ⟨⟨-, hwrite⟩, hne, rfl⟩)
      · exact absurd hread hnot
      · refine ⟨hwrite, wholeRatio r, ?_, rfl⟩
        rw [amount_shapeResources hread, amount_shapeResources hwrite, truediv_ok_iff]
        exact ⟨Int.cast_ne_zero.mpr hne, rfl⟩
  · rw [if_neg hread]
    constructor
    · intro h
      exact .inl ⟨hread, (Except.ok.inj h).symm⟩
    · rintro (⟨-, rfl⟩ | ⟨hboth, -⟩)
      · rfl
      · exact absurd hboth.1 hread

/-! ## Averages -/

theorem sumResources_ok_iff {a b r : Resources} :
    sumResources a b = .ok r ↔ a.SameKeys b ∧ r = a.map fun d v => v + b.amount d := by
  rw [sumResources, except_seq_ok_iff, checkKeys_ok_iff]
  exact and_congr_right fun _ => ⟨fun h => (Except.ok.inj h).symm, fun h => congrArg Except.ok h.symm⟩

/-- The resources of several nodes are added up for equal dimensions. -/
theorem sumAll_ok_iff {first r : Resources} {rest : List Resources} :
    rest.foldlM sumResources first = .ok r ↔ (∀ b ∈ rest, first.SameKeys b) ∧
      r = first.map fun d v => v + (rest.map (·.amount d)).sum := by
  induction rest generalizing first with
  | nil =>
    have hsame : (first.map fun d v => v + (([] : List Resources).map (·.amount d)).sum) = first := by
      refine Dict.ext ?_
      simp
    rw [hsame, List.foldlM_nil]
    exact ⟨fun h => ⟨fun b hb => absurd hb List.not_mem_nil, (Except.ok.inj h).symm⟩,
      fun h => congrArg Except.ok h.2.symm⟩
  | cons x rest ih =>
    have hmap : ((first.map fun d v => v + x.amount d).map fun d v => v + (rest.map (·.amount d)).sum) =
        first.map fun d v => v + ((x :: rest).map (·.amount d)).sum := by
      refine Dict.ext ?_
      simp [add_assoc]
    rw [List.foldlM_cons, except_bind_ok_iff]
    simp only [sumResources_ok_iff, ih, List.forall_mem_cons]
    constructor
    · rintro ⟨s, ⟨hx, rfl⟩, hrest, rfl⟩
      exact ⟨⟨hx, fun b hb => sameKeys_map.symm.trans (hrest b hb)⟩, hmap⟩
    · rintro ⟨⟨hx, hrest⟩, rfl⟩
      exact ⟨_, ⟨hx, rfl⟩, fun b hb => sameKeys_map.trans (hrest b hb), hmap.symm⟩

theorem divideResources_const {s r : Resources} {n : ℚ} (hn : n ≠ 0) :
    divideResources s (s.map fun _ _ => n) none = .ok r ↔ r = s.map fun _ v => v / n := by
  have hamount : ∀ d ∈ s, amount (s.map fun _ _ => n) d = n := fun d hd => amount_map hd
  have hmap : (s.map fun d v => v / amount (s.map fun _ _ => n) d) = s.map fun _ v => v / n := by
    refine Dict.ext (List.map_congr_left fun p hp => ?_)
    exact congrArg (fun q => (p.1, p.2 / q)) (hamount p.1 (Dict.mem_keys.mpr ⟨p.2, hp⟩))
  rw [divideResources, except_seq_ok_iff, assert_ok_iff, and_iff_right sameKeys_map.symm]
  simp only [pure, Except.pure, except_ok_bind]
  rw [comprehendM_truediv_ok_iff, hmap]
  exact and_iff_right fun d hd => by rw [hamount d hd]; exact hn

/-- The average of an amount. -/
def mean (nodes : List Resources) (d : ResourceType) : ℚ :=
  (nodes.map (·.amount d)).sum / nodes.length

/-- The average of resources that have the same dimensions. -/
def averageOf : List Resources → Resources
  | [] => ∅
  | first :: rest => first.map fun d _ => mean (first :: rest) d

/-- There is an average where the dimensions are equal. -/
theorem calcAverageResources_ok_iff {l : List Resources} {r : Resources} :
    calcAverageResources l = .ok r ↔ (∀ a ∈ l, ∀ b ∈ l, a.SameKeys b) ∧ r = averageOf l := by
  cases l with
  | nil =>
    exact ⟨fun h => ⟨fun a ha => absurd ha List.not_mem_nil, (Except.ok.inj h).symm⟩,
      fun h => congrArg Except.ok h.2.symm⟩
  | cons first rest =>
    have hpairs : (∀ a ∈ first :: rest, ∀ b ∈ first :: rest, a.SameKeys b) ↔
        ∀ b ∈ rest, first.SameKeys b := by
      constructor
      · exact fun h b hb => h first List.mem_cons_self b (List.mem_cons_of_mem _ hb)
      · intro h a ha b hb
        have hfirst : ∀ c ∈ first :: rest, first.SameKeys c := by
          rintro c (_ | ⟨_, hc⟩)
          · exact sameKeys_of_iff fun _ => Iff.rfl
          · exact h c hc
        exact (hfirst a ha).symm.trans (hfirst b hb)
    have hlen : ((first :: rest).length : ℚ) ≠ 0 :=
      Nat.cast_ne_zero.mpr (List.length_pos_of_mem List.mem_cons_self).ne'
    rw [calcAverageResources, except_bind_ok_iff, hpairs]
    simp only [sumAll_ok_iff, divideResources_const hlen]
    have haverage : ((first.map fun d v => v + (rest.map (·.amount d)).sum).map fun _ v =>
        v / ((first :: rest).length : ℚ)) = averageOf (first :: rest) := by
      refine Dict.ext ?_
      rw [averageOf, Dict.items_map, Dict.items_map, Dict.items_map, List.map_map]
      refine List.map_congr_left fun p hp => ?_
      rw [Function.comp_apply, mean, List.map_cons, List.sum_cons, amount_of_mem hp]
    constructor
    · rintro ⟨s, ⟨hrest, rfl⟩, rfl⟩
      exact ⟨hrest, haverage⟩
    · rintro ⟨hrest, rfl⟩
      exact ⟨_, ⟨hrest, rfl⟩, haverage.symm⟩

theorem mem_averageOf {l : List Resources} (h : ∀ a ∈ l, ∀ b ∈ l, a.SameKeys b) {d : ResourceType} :
    d ∈ averageOf l ↔ ∃ a ∈ l, d ∈ a := by
  cases l with
  | nil => exact ⟨fun hd => absurd hd List.not_mem_nil, fun ⟨a, ha, _⟩ => absurd ha List.not_mem_nil⟩
  | cons first rest =>
    rw [averageOf, mem_map]
    constructor
    · exact fun hd => ⟨first, List.mem_cons_self, hd⟩
    · rintro ⟨a, ha, hd⟩
      exact ((h first List.mem_cons_self a ha).iff d).mpr hd

theorem amount_averageOf {l : List Resources} {d : ResourceType} (hd : d ∈ averageOf l) :
    (averageOf l).amount d = mean l d := by
  cases l with
  | nil => exact absurd hd List.not_mem_nil
  | cons first rest => exact amount_map (mem_map.mp hd)

/-- The order of the nodes does not matter to the shape of their average. -/
theorem shape_averageOf_perm {l l' : List Resources} (h : ∀ a ∈ l, ∀ b ∈ l, a.SameKeys b)
    (hperm : l.Perm l') : resourcesToShape (averageOf l) = resourcesToShape (averageOf l') := by
  have h' : ∀ a ∈ l', ∀ b ∈ l', a.SameKeys b :=
    fun a ha b hb => h a (hperm.mem_iff.mpr ha) b (hperm.mem_iff.mpr hb)
  have hkeys : (averageOf l).SameKeys (averageOf l') := by
    refine sameKeys_of_iff fun d => ?_
    rw [mem_averageOf h, mem_averageOf h']
    simp only [hperm.mem_iff]
  refine resourcesToShape_congr hkeys fun d => ?_
  by_cases hd : d ∈ averageOf l
  · rw [amount_averageOf hd, amount_averageOf ((hkeys.iff d).mp hd), mean, mean, hperm.length_eq,
      (hperm.map _).sum_eq]
  · rw [amount_of_not_mem hd, amount_of_not_mem (mt (hkeys.iff d).mpr hd)]

/-! ## The classes of the nodes -/

/-- The classes before any are merged. -/
def shapesOf (nodeCapacities : Dict NodeName Resources) : Dict Shape (List NodeName) :=
  reverseNodeShapes (createShapesFromNodes nodeCapacities)

/-- The nodes of a shape. -/
def nodesOfShape (nodeCapacities : Dict NodeName Resources) (shape : Shape) : List NodeName :=
  (nodeCapacities.items.filter fun p => resourcesToShape p.2 = shape).map Prod.fst

variable {nodeCapacities : Dict NodeName Resources} {shape : Shape} {node : NodeName}

theorem mem_nodesOfShape : node ∈ nodesOfShape nodeCapacities shape ↔
    ∃ capacity, nodeCapacities.get? node = some capacity ∧ resourcesToShape capacity = shape := by
  rw [nodesOfShape, List.mem_map]
  constructor
  · rintro ⟨⟨node', capacity⟩, hin, rfl⟩
    obtain ⟨hin, hshape⟩ := List.mem_filter.mp hin
    exact ⟨capacity, Dict.get?_eq_some_iff.mpr hin, of_decide_eq_true hshape⟩
  · rintro ⟨capacity, hget, hshape⟩
    exact ⟨(node, capacity), List.mem_filter.mpr ⟨Dict.get?_eq_some_iff.mp hget,
      decide_eq_true hshape⟩, rfl⟩

theorem nodup_nodesOfShape : (nodesOfShape nodeCapacities shape).Nodup :=
  nodeCapacities.nodup.sublist (List.filter_sublist.map _)

theorem get?_shapesOf : (shapesOf nodeCapacities).get? shape =
    if nodesOfShape nodeCapacities shape = [] then none
    else some (nodesOfShape nodeCapacities shape) := by
  suffices hgo : ∀ (l : List (NodeName × Resources)) (acc : Dict Shape (List NodeName)),
      ((l.map fun p => (p.1, resourcesToShape p.2)).foldl (fun shapesToNodes p =>
        shapesToNodes.set p.2 ((shapesToNodes.get? p.2).getD [] ++ [p.1])) acc).get? shape =
      if (l.filter fun p => resourcesToShape p.2 = shape).map Prod.fst = [] then acc.get? shape
      else some ((acc.get? shape).getD [] ++
        (l.filter fun p => resourcesToShape p.2 = shape).map Prod.fst) by
    rw [shapesOf, reverseNodeShapes, createShapesFromNodes, Dict.items_map, hgo]
    rfl
  intro l
  induction l with
  | nil => exact fun acc => rfl
  | cons p l ih =>
    intro acc
    rw [List.map_cons, List.foldl_cons, ih, Dict.get?_set, List.filter_cons]
    by_cases hshape : resourcesToShape p.2 = shape
    · simp only [hshape, if_true, decide_true, List.map_cons, List.cons_ne_nil, if_false]
      split
      · next hnil => rw [hnil]
      · rw [Option.getD_some, List.append_assoc, List.singleton_append]
    · simp only [hshape, Ne.symm hshape, if_false, decide_false, Bool.false_eq_true]

theorem mem_shapesOf : shape ∈ shapesOf nodeCapacities ↔
    ∃ node capacity, nodeCapacities.get? node = some capacity ∧ resourcesToShape capacity = shape := by
  rw [Dict.mem_def, Dict.mem_keys_iff_get?, get?_shapesOf]
  constructor
  · rintro ⟨names, h⟩
    split at h
    · exact absurd h (Option.some_ne_none _).symm
    · next hne =>
      obtain ⟨node, hin⟩ := List.exists_mem_of_ne_nil _ hne
      exact ⟨node, mem_nodesOfShape.mp hin⟩
  · rintro ⟨node, hnode⟩
    rw [if_neg (List.ne_nil_of_mem (mem_nodesOfShape.mpr hnode))]
    exact ⟨_, rfl⟩

theorem get?_shapesOf_of_mem (h : shape ∈ shapesOf nodeCapacities) :
    (shapesOf nodeCapacities).get? shape = some (nodesOfShape nodeCapacities shape) := by
  obtain ⟨node, hnode⟩ := mem_shapesOf.mp h
  rw [get?_shapesOf, if_neg (List.ne_nil_of_mem (mem_nodesOfShape.mpr hnode))]

end Wca.Scheduler
