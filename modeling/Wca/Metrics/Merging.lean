import Mathlib.Data.List.Dedup
import Mathlib.Order.Interval.Set.Basic
import Wca.Metrics.Metadata
import Wca.Py.Objects

/-!
# Merging measurements

`merge_measurements` collects the values of a metric in lists, in a nested dictionary of its own, and
then puts the merged value in the place of each list. What a merged metric shows at a path is read off
the inputs (`Adds`, `Merges`).
-/

namespace Wca.Metrics

open Py Objects

/-! ## `merge_measurements` -/

inductive Exc where
  | AttributeError
  | TypeError
  deriving DecidableEq

/-- The name of a metric, or a level: a cpu, a NUMA node, a kind of faults. -/
inductive Key where
  | str (s : String)
  | int (n : ℤ)
  deriving DecidableEq

/-- A value that was measured, or the values collected so far. A list is held by one dictionary only. -/
inductive Leaf where
  | num (q : ℚ)
  | list (qs : List ℚ)
  deriving DecidableEq

abbrev Node := Value Leaf

abbrev Store := Heap Key Leaf

abbrev MergeM := EStateM Exc Store

/-- The entry of a metric, if there is one. -/
def metadataOf (metadata : Dict MetricName MetricMetadata) : Key → Option MetricMetadata
  | .str metricName => metadata.get? metricName
  | .int _ => none

/-- By default, an unknown metric is summed. -/
def operationOf (metadata : Dict MetricName MetricMetadata) (metricName : Key) : List ℚ → ℚ :=
  ((metadataOf metadata metricName).map MetricMetadata.mergeOperation).getD List.sum

/-- An unknown metric has no levels. -/
def levelsOf (metadata : Dict MetricName MetricMetadata) (metricName : Key) : ℕ :=
  ((metadataOf metadata metricName).map fun m => m.levels.length).getD 0

/-- `d.items()` -/
def items : Node → MergeM (List (Key × Node))
  | .ref a => do
    let d ← getDict a
    pure d.items
  | .leaf _ => throw .AttributeError

/-- A value that is put in a list. The operation on the list would raise what is raised here. -/
def number : Node → MergeM ℚ
  | .leaf (.num q) => pure q
  | _ => throw .TypeError

/-- A value that a level below is read from. -/
def dictionary : Option Node → MergeM Addr
  | some (.ref a) => pure a
  | _ => throw .TypeError

/-- A value is added to the list at its key, which is made if there is none. -/
def appendValue (aggregatedMetric : Addr) (item : Key × Node) : MergeM PUnit := do
  let value ← number item.2
  let d ← getDict aggregatedMetric
  match d.get? item.1 with
  | some (.leaf (.list values)) =>
    setItem aggregatedMetric item.1 (.leaf (.list (values ++ [value])))
  | _ => setItem aggregatedMetric item.1 (.leaf (.list [value]))

/-- `aggregated_metric[key]`, which is made if there is none. -/
def childOf (aggregatedMetric : Addr) (key : Key) : MergeM Addr := do
  let d ← getDict aggregatedMetric
  doIf (key ∉ d) do
    let empty ← alloc
    setItem aggregatedMetric key (.ref empty)
  let d ← getDict aggregatedMetric
  dictionary (d.get? key)

/-- `_list_leveled_metrics`, with the levels below the one it is at. -/
def listLeveledMetrics : (levels : ℕ) → (aggregatedMetric : Addr) → (newMetric : Node) → MergeM PUnit
  | 0, aggregatedMetric, newMetric => do
    let newItems ← items newMetric
    forM newItems (appendValue aggregatedMetric)
  | levels + 1, aggregatedMetric, newMetric => do
    let newItems ← items newMetric
    forM newItems fun item => do
      let child ← childOf aggregatedMetric item.1
      listLeveledMetrics levels child item.2

/-- `_operation_on_leveled_metric`, with the levels below the one it is at. -/
def operationOnLeveledMetric (operation : List ℚ → ℚ) : (levels : ℕ) → (aggregatedMetric : Addr) →
    MergeM PUnit
  | 0, aggregatedMetric => do
    let d ← getDict aggregatedMetric
    forM d.items fun p =>
      match p.2 with
      | .leaf (.list values) => setItem aggregatedMetric p.1 (.leaf (.num (operation values)))
      | _ => throw .TypeError
  | levels + 1, aggregatedMetric => do
    let d ← getDict aggregatedMetric
    forM d.items fun p => do
      let child ← dictionary (some p.2)
      operationOnLeveledMetric operation levels child

/-- `[measurements[name] for measurements in measurements_list if name in measurements]` -/
def valuesOf (metricName : Key) : List Addr → MergeM (List ℚ)
  | [] => pure []
  | measurements :: measurementsList => do
    let d ← getDict measurements
    match d.get? metricName with
    | none => valuesOf metricName measurementsList
    | some node => do
      let value ← number node
      let values ← valuesOf metricName measurementsList
      pure (value :: values)

/-- One turn over the names. -/
def mergeMetric (metadata : Dict MetricName MetricMetadata) (measurementsList : List Addr)
    (summedMetrics : Addr) (metricName : Key) : MergeM PUnit :=
  match levelsOf metadata metricName with
  | 0 => do
    let values ← valuesOf metricName measurementsList
    setItem summedMetrics metricName (.leaf (.num (operationOf metadata metricName values)))
  | levels + 1 => do
    let summed ← alloc
    forM measurementsList fun measurements => do
      let d ← getDict measurements
      match d.get? metricName with
      | none => pure ⟨⟩
      | some node => listLeveledMetrics levels summed node
    operationOnLeveledMetric (operationOf metadata metricName) levels summed
    setItem summedMetrics metricName (.ref summed)

/-- `merge_measurements`, of measurements that are objects. -/
def mergeMeasurements (metadata : Dict MetricName MetricMetadata) (sets : SetOrder Key)
    (measurementsList : List Addr) : MergeM Addr := do
  let summedMetrics ← alloc
  let h ← get
  let allMetricsNames := (measurementsList.flatMap fun a => (deref h a).keys).dedup
  forM (sets.order allMetricsNames) (mergeMetric metadata measurementsList summedMetrics)
  pure summedMetrics

/-! ## What is shown -/

/-- There is something at the end of a path. -/
def Has (h : Store) (node : Node) (path : List Key) : Prop := (lookup h node path).isSome

/-- The value at the end of a path. -/
def numAt (h : Store) (node : Node) (path : List Key) : Option ℚ :=
  match lookup h node path with
  | some (.leaf (.num q)) => some q
  | _ => none

/-- The values that are collected at the end of a path. -/
def listAt (h : Store) (node : Node) (path : List Key) : List ℚ :=
  match lookup h node path with
  | some (.leaf (.list qs)) => qs
  | _ => []

def IsNum (l : Leaf) : Prop := ∃ q, l = .num q

def IsList (l : Leaf) : Prop := ∃ qs, qs ≠ [] ∧ l = .list qs

/-! ## Collecting -/

section Collecting

/-- A program puts values into the dictionary at `agg`, which owns `S`: below a key it puts those of a
node. It writes to what is owned and to new dictionaries only. -/
structure Gathers (h h' : Store) (levels : ℕ) (agg : Addr) (S : Set Addr) : Prop where
  grows : h.length ≤ h'.length
  owns : Owns IsList h' (levels + 1) (.ref agg) (S ∪ Set.Ico h.length h'.length)
  agree : Agree h h' (Set.Iio h.length \ S)

/-- Some values of a node are added at the end of each list. -/
structure Adds (h h' : Store) (agg node : Node) (path path' : List Key) : Prop where
  has : Has h' agg path ↔ Has h agg path ∨ Has h node path'
  lists : listAt h' agg path = listAt h agg path ++ (numAt h node path').toList

/-- One turn over the items of a node. -/
structure Turn (h h' : Store) (levels : ℕ) (agg : Addr) (S : Set Addr) (p : Key × Node) : Prop where
  gathers : Gathers h h' levels agg S
  others : ∀ k ≠ p.1, ∀ path, lookup h' (.ref agg) (k :: path) = lookup h (.ref agg) (k :: path)
  adds : ∀ path, Adds h h' (.ref agg) p.2 (p.1 :: path) path

variable {h t : Store} {levels : ℕ} {agg : Addr} {S T : Set Addr} {E : Exc → Store → Prop}

theorem wp_appendValue {item : Key × Node} (hown : Owns IsList h 1 (.ref agg) S)
    (hS : S ⊆ Set.Iio h.length) (hitem : Within IsNum h 0 item.2 T) :
    wp (appendValue agg item) (fun _ h' => Turn h h' 0 agg S item) E h := by
  obtain ⟨k, node⟩ := item
  obtain ⟨_, rfl, q, rfl⟩ := hitem
  obtain ⟨a, ha, heq, part, hpart, hdisjoint, hitems⟩ := hown
  cases heq
  -- what is written is the list with one value more
  suffices hwrite : ∀ qs, listAt h (.ref agg) [k] = qs →
      Turn h (h.modify agg fun d => d.set k (.leaf (.list (qs ++ [q])))) 0 agg S
        (k, .leaf (.num q)) by
    rw [appendValue, number, pure_bind, wp_bind, wp_getDict]
    dsimp only
    cases hk : (deref h agg).get? k with
    | none => exact hwrite [] (by simp [listAt, hk])
    | some w =>
      obtain ⟨l, rfl, qs, -, rfl⟩ := hitems k w hk
      exact hwrite qs (by simp [listAt, hk])
  intro qs hqs
  have hdeep : ∀ k' path, lookup h (.ref agg) (k :: k' :: path) = none := by
    intro k' path
    cases hk : (deref h agg).get? k with
    | none => simp [hk]
    | some w =>
      obtain ⟨l, rfl, -⟩ := hitems k w hk
      simp [hk]
  have hself := deref_set_self (k := k) (v := .leaf (.list (qs ++ [q]))) (hS ha)
  have hput := Owns.put (N := Set.Ico h.length
      (h.modify agg fun d => d.set k (.leaf (.list (qs ++ [q])))).length) (R := ∅) ha hpart
    hdisjoint hitems (by rw [hself, Dict.get?_set_self])
    ⟨.list (qs ++ [q]), rfl, qs ++ [q], by simp, rfl⟩
    (fun k' hk' => by rw [hself, Dict.get?_set_of_ne hk']) (Set.empty_subset _)
    (by rw [List.length_modify, Set.Ico_self]; exact Set.disjoint_empty S)
    fun x hx => deref_set_of_ne fun hxa => hx.2 (.inl hxa)
  refine ⟨⟨(List.length_modify ..).ge, hput.1, fun x hx => ?_⟩, hput.2, fun path => ⟨?_, ?_⟩⟩
  · exact deref_set_of_ne fun hxa => hx.2 (hxa ▸ ha)
  · cases path with
    | nil => simp [Has, hself]
    | cons k' path =>
      simp [Has, hself, hdeep]
  · cases path with
    | nil =>
      rw [hqs]
      simp [listAt, numAt, hself]
    | cons k' path =>
      simp [listAt, numAt, hself, hdeep]

/-- What the next level is collected in. Other than at its key, the dictionary is as it was. -/
structure ChildOf (h t : Store) (levels : ℕ) (agg : Addr) (k : Key) (R : Set Addr) (child : Addr) :
    Prop where
  grows : h.length ≤ t.length
  item : (deref t agg).get? k = some (.ref child)
  others : ∀ k' ≠ k, (deref t agg).get? k' = (deref h agg).get? k'
  owns : Owns IsList t (levels + 1) (.ref child) (R ∪ Set.Ico h.length t.length)
  agree : ∀ x ≠ agg, deref t x = deref h x
  shows : ∀ k' path, lookup t (.ref child) (k' :: path) = lookup h (.ref agg) (k :: k' :: path)

theorem wp_childOf {k : Key} {R : Set Addr} (ha : agg < h.length)
    (hitem : ∀ w, (deref h agg).get? k = some w → Owns IsList h (levels + 1) w R) :
    wp (childOf agg k) (fun child t => ChildOf h t levels agg k R child) E h := by
  rw [childOf, wp_bind, wp_getDict, wp_bind, wp_doIf]
  constructor
  · intro hk
    have hnone : (deref h agg).get? k = none := Dict.get?_eq_none_iff.mpr hk
    rw [wp_bind, wp_alloc, wp_setItem, wp_bind, wp_getDict,
      deref_set_self (by rw [List.length_append]; exact Nat.lt_add_right _ ha), Dict.get?_set_self]
    have hne : h.length ≠ agg := fun heq => (heq ▸ ha).false
    have hlt : agg < (h ++ [∅] : Store).length := by
      rw [List.length_append]
      exact Nat.lt_add_right _ ha
    have hempty : deref ((h ++ [∅]).modify agg fun d => d.set k (.ref h.length)) h.length = ∅ := by
      rw [deref_set_of_ne hne, deref_alloc, deref_of_length_le le_rfl]
    refine ⟨?_, ?_, fun k' hk' => ?_, ?_, fun x hx => ?_, fun k' path => ?_⟩
    · simp
    · rw [deref_set_self hlt, Dict.get?_set_self]
    · rw [deref_set_self hlt, Dict.get?_set_of_ne hk', deref_alloc]
    · refine (Owns.empty hempty).mono (Set.singleton_subset_iff.mpr (.inr ?_))
      simp
    · rw [deref_set_of_ne hx, deref_alloc]
    · rw [lookup_ref, lookup_ref, hempty, hnone]
      rfl
  · intro hk
    obtain ⟨w, hw⟩ := Dict.mem_keys_iff_get?.mp (not_not.mp hk)
    obtain ⟨child, hchild, rfl, hparts⟩ := hitem w hw
    rw [wp_bind, wp_getDict, hw]
    refine ⟨le_rfl, hw, fun _ _ => rfl, ?_, fun _ _ => rfl, fun k' path => ?_⟩
    · rw [Set.Ico_self, Set.union_empty]
      exact ⟨child, hchild, rfl, hparts⟩
    · rw [lookup_ref (a := agg), hw]
      rfl

theorem Gathers.trans {h' : Store} (h₁ : Gathers h t levels agg S)
    (h₂ : Gathers t h' levels agg (S ∪ Set.Ico h.length t.length)) : Gathers h h' levels agg S where
  grows := h₁.grows.trans h₂.grows
  owns := by
    have hunion := h₂.owns
    rw [Set.union_assoc, Set.Ico_union_Ico_eq_Ico h₁.grows h₂.grows] at hunion
    exact hunion
  agree := h₁.agree.trans (h₂.agree.mono fun x hx => ⟨Nat.lt_of_lt_of_le hx.1 h₁.grows, fun hxS =>
    hxS.elim hx.2 fun hnew => (hnew.1.trans_lt hx.1).false⟩)

theorem Gathers.refl (hown : Owns IsList h (levels + 1) (.ref agg) S) : Gathers h h levels agg S where
  grows := le_rfl
  owns := hown.mono Set.subset_union_left
  agree := Agree.refl h _

section Adds

variable {h' : Store} {node node' : Node} {path path' : List Key}

theorem Adds.before (hadds : Adds t h' node node' path path')
    (hnode : lookup t node path = lookup h node path)
    (hnode' : lookup t node' path' = lookup h node' path') : Adds h h' node node' path path' := by
  obtain ⟨hhas, hlists⟩ := hadds
  rw [Has, Has, Has, hnode, hnode'] at hhas
  rw [listAt, listAt, numAt, hnode, hnode'] at hlists
  exact ⟨hhas, hlists⟩

theorem Adds.after (hadds : Adds h t node node' path path')
    (hnode : lookup h' node path = lookup t node path) : Adds h h' node node' path path' := by
  obtain ⟨hhas, hlists⟩ := hadds
  rw [Has, ← hnode] at hhas
  rw [listAt, ← hnode] at hlists
  exact ⟨hhas, hlists⟩

/-- What is below a key is read there. -/
theorem Adds.of_below {node'' : Node} {path'' : List Key} (hadds : Adds h h' node node' path path')
    (hnode : lookup h node'' path'' = lookup h node' path') :
    Adds h h' node node'' path path'' := by
  obtain ⟨hhas, hlists⟩ := hadds
  rw [Has, Has, Has, ← hnode] at hhas
  rw [numAt, ← hnode] at hlists
  exact ⟨hhas, hlists⟩

end Adds

/-- What is known after the turns over some items. -/
structure Turns (h h' : Store) (levels : ℕ) (agg : Addr) (S : Set Addr) (done : List (Key × Node)) :
    Prop where
  gathers : Gathers h h' levels agg S
  adds : ∀ item ∈ done, ∀ path, Adds h h' (.ref agg) item.2 (item.1 :: path) path
  others : ∀ k ∉ done.map Prod.fst, ∀ path,
    lookup h' (.ref agg) (k :: path) = lookup h (.ref agg) (k :: path)

/-- The addresses that are owned and those that are read. -/
structure Apart (h : Store) (S T : Set Addr) : Prop where
  owned : S ⊆ Set.Iio h.length
  read : T ⊆ Set.Iio h.length
  disjoint : Disjoint S T

theorem Apart.agree {h' : Store} (hapart : Apart h S T) (hgathers : Gathers h h' levels agg S) :
    Agree h h' T :=
  hgathers.agree.mono fun _ hx =>
    ⟨hapart.read hx, fun hxS => Set.disjoint_left.mp hapart.disjoint hxS hx⟩

theorem Apart.after {h' : Store} (hapart : Apart h S T) (hgrows : h.length ≤ h'.length) :
    Apart h' (S ∪ Set.Ico h.length h'.length) T where
  owned := Set.union_subset (fun _ hx => Nat.lt_of_lt_of_le (hapart.owned hx) hgrows) fun _ hx => hx.2
  read := fun _ hx => Nat.lt_of_lt_of_le (hapart.read hx) hgrows
  disjoint := Set.disjoint_left.mpr fun _ hx hxT => hx.elim
    (fun hxS => Set.disjoint_left.mp hapart.disjoint hxS hxT)
    fun hnew => (hnew.1.trans_lt (hapart.read hxT)).false

/-- The loop over the items of a node, by what a turn does. -/
theorem wp_turns {d : Dict Key Node} {f : Key × Node → MergeM PUnit}
    (hown : Owns IsList h (levels + 1) (.ref agg) S) (hapart : Apart h S T)
    (hitems : ∀ item ∈ d.items, Within IsNum h levels item.2 T)
    (hf : ∀ t S item, Owns IsList t (levels + 1) (.ref agg) S → Apart t S T →
      Within IsNum t levels item.2 T → wp (f item) (fun _ h' => Turn t h' levels agg S item) E t) :
    wp (forM d.items f) (fun _ h' => Turns h h' levels agg S d.items) E h := by
  refine wp_forM (I := fun done t => Turns h t levels agg S done)
    ⟨.refl hown, fun _ hmem => (nomatch hmem), fun _ _ _ => rfl⟩ fun pre item post t hl hturns => ?_
  have hapart' := hapart.after hturns.gathers.grows
  have hagree := hapart.agree hturns.gathers
  have hitem : item ∈ d.items := by rw [hl]; simp
  have hfresh : item.1 ∉ pre.map Prod.fst := by
    have hnodup := d.nodup
    rw [hl, List.map_append, List.map_cons] at hnodup
    exact fun hmem => List.disjoint_of_nodup_append hnodup hmem List.mem_cons_self
  refine (hf t _ item hturns.gathers.owns hapart' ((hitems item hitem).congr hagree)).mono
    (fun _ h' hturn => ⟨hturns.gathers.trans hturn.gathers, fun item' hmem path => ?_,
      fun k hk path => ?_⟩) fun _ _ he => he
  · obtain hpre | rfl := List.mem_append.mp hmem |>.imp_right List.mem_singleton.mp
    · have hne : item'.1 ≠ item.1 := fun heq =>
        hfresh (heq ▸ List.mem_map_of_mem hpre)
      exact (hturns.adds item' hpre path).after (hturn.others _ hne path)
    · exact (hturn.adds path).before (hturns.others _ hfresh path)
        ((hitems _ hitem).lookup_congr hagree path)
  · rw [List.map_append, List.mem_append, not_or] at hk
    have hne : k ≠ item.1 := fun heq => hk.2 (by simp [heq])
    rw [hturn.others k hne path, hturns.others k hk.1 path]

/-- A node is collected: at every path of it a value is added. -/
structure Collects (h h' : Store) (levels : ℕ) (agg : Addr) (S : Set Addr) (node : Node) : Prop where
  gathers : Gathers h h' levels agg S
  adds : ∀ path, Adds h h' (.ref agg) node path path

theorem Turns.collects {h' : Store} {a : Addr} (hturns : Turns h h' levels agg S (deref h a).items) :
    Collects h h' levels agg S (.ref a) := by
  refine ⟨hturns.gathers, fun path => ?_⟩
  cases path with
  | nil => exact ⟨by simp [Has], by simp [listAt, numAt]⟩
  | cons k path =>
    cases hk : (deref h a).get? k with
    | none =>
      have hnone : lookup h (.ref a) (k :: path) = none := by simp [hk]
      have hsame := hturns.others k (Dict.get?_eq_none_iff.mp hk) path
      exact ⟨by simp [Has, hsame, hk], by simp [listAt, numAt, hsame, hk]⟩
    | some w =>
      refine (hturns.adds (k, w) (Dict.get?_eq_some_iff.mp hk) path).of_below ?_
      rw [lookup_ref, hk]
      rfl

/-- A turn on a level above: the node is collected in the dictionary at its key. -/
theorem ChildOf.turn {h' : Store} {part : Key → Set Addr} {k : Key} {node : Node} {child : Addr}
    (hagg : agg ∈ S) (hpart : ∀ k, part k ⊆ S \ {agg})
    (hdisjoint : ∀ k k', k ≠ k' → Disjoint (part k) (part k'))
    (hparts : ∀ k w, (deref h agg).get? k = some w → Owns IsList h (levels + 1) w (part k))
    (hapart : Apart h S T) (hnode : Within IsNum h (levels + 1) node T)
    (hchild : ChildOf h t levels agg k (part k) child)
    (hcollects : Collects t h' levels child (part k ∪ Set.Ico h.length t.length) node) :
    Turn h h' (levels + 1) agg S (k, node) := by
  have hgrows := hchild.grows.trans hcollects.gathers.grows
  have hkeep : ∀ x < h.length, x ∉ part k → deref h' x = deref t x := fun x hx hxk =>
    hcollects.gathers.agree x ⟨Nat.lt_of_lt_of_le hx hchild.grows,
      fun hmem => hmem.elim hxk fun hnew => (hnew.1.trans_lt hx).false⟩
  have hself : deref h' agg = deref t agg :=
    hkeep agg (hapart.owned hagg) fun hmem => (hpart k hmem).2 rfl
  have hitem : (deref h' agg).get? k = some (.ref child) := by rw [hself, hchild.item]
  have hput := Owns.put (N := Set.Ico h.length h'.length) hagg hpart hdisjoint hparts hitem
    hcollects.gathers.owns (fun k' hk' => by rw [hself, hchild.others k' hk'])
    (by rw [Set.union_assoc, Set.Ico_union_Ico_eq_Ico hchild.grows hcollects.gathers.grows])
    (Set.disjoint_left.mpr fun x hx hnew => (hnew.1.trans_lt (hapart.owned hx)).false)
    fun x hx => (hkeep x (hapart.owned hx.1) fun hmem => hx.2 (.inr hmem)).trans
      (hchild.agree x fun heq => hx.2 (.inl heq))
  refine ⟨⟨hgrows, hput.1, fun x hx => ?_⟩, hput.2, fun path => ?_⟩
  · exact (hkeep x hx.1 fun hmem => hx.2 (hpart k hmem).1).trans
      (hchild.agree x fun heq => hx.2 (heq ▸ hagg))
  · cases path with
    | nil =>
      obtain ⟨a, -, rfl, -⟩ := hnode
      refine ⟨by simp [Has, hitem], ?_⟩
      have hnone : listAt h (.ref agg) [k] = [] := by
        cases hk : (deref h agg).get? k with
        | none => simp [listAt, hk]
        | some w =>
          obtain ⟨c, -, rfl, -⟩ := hparts k w hk
          simp [listAt, hk]
      rw [hnone]
      simp [listAt, numAt, hitem]
    | cons k' path =>
      have hread : Agree h t T := fun x hx =>
        hchild.agree x fun heq => Set.disjoint_left.mp hapart.disjoint hagg (heq ▸ hx)
      have hadds := hcollects.adds (k' :: path)
      have hbelow : lookup h' (.ref agg) (k :: k' :: path) = lookup h' (.ref child) (k' :: path) := by
        rw [lookup_ref (a := agg), hitem]
        rfl
      obtain ⟨hhas, hlists⟩ := hadds
      rw [Has, Has, Has, ← hbelow, hchild.shows, hnode.lookup_congr hread] at hhas
      rw [listAt, listAt, numAt, ← hbelow, hchild.shows, hnode.lookup_congr hread] at hlists
      exact ⟨hhas, hlists⟩

/-- `_list_leveled_metrics` collects the metric. -/
theorem wp_listLeveledMetrics {node : Node} (hown : Owns IsList h (levels + 1) (.ref agg) S)
    (hapart : Apart h S T) (hnode : Within IsNum h (levels + 1) node T) :
    wp (listLeveledMetrics levels agg node) (fun _ h' => Collects h h' levels agg S node) E h := by
  induction levels generalizing h agg S node with
  | zero =>
    obtain ⟨a, -, rfl, hitems⟩ := hnode
    rw [listLeveledMetrics, items, wp_bind, wp_bind, wp_getDict, wp_pure]
    refine (wp_turns hown hapart (fun item hitem => hitems _ _ (Dict.get?_eq_some_iff.mpr hitem))
      fun t S item hown hapart hitem => wp_appendValue hown hapart.owned hitem).mono
        (fun _ _ hturns => hturns.collects) fun _ _ he => he
  | succ levels ih =>
    obtain ⟨a, -, rfl, hitems⟩ := hnode
    rw [listLeveledMetrics, items, wp_bind, wp_bind, wp_getDict, wp_pure]
    refine (wp_turns hown hapart (fun item hitem => hitems _ _ (Dict.get?_eq_some_iff.mpr hitem))
      fun t S item hown hapart hitem => ?_).mono
        (fun _ _ hturns => hturns.collects) fun _ _ he => he
    obtain ⟨k, node⟩ := item
    obtain ⟨agg', hagg, heq, part, hpart, hdisjoint, hparts⟩ := hown
    cases heq
    rw [wp_bind]
    refine (wp_childOf (hapart.owned hagg) fun w hw => hparts k w hw).mono
      (fun child t' hchild => ?_) fun _ _ he => he
    have hgrows := hchild.grows
    have hkept : Agree t t' T := fun x hx =>
      hchild.agree x fun heq => Set.disjoint_left.mp hapart.disjoint hagg (heq ▸ hx)
    have hapart' : Apart t' (part k ∪ Set.Ico t.length t'.length) T :=
      ⟨Set.union_subset (fun x hx => Nat.lt_of_lt_of_le (hapart.owned (hpart k hx).1) hgrows)
        fun x hx => hx.2, fun x hx => Nat.lt_of_lt_of_le (hapart.read hx) hgrows,
        (hapart.after hgrows).disjoint.mono_left
          (Set.union_subset_union_left _ fun x hx => (hpart k hx).1)⟩
    exact (ih hchild.owns hapart' (hitem.congr hkept)).mono
      (fun _ h' hcollects => hchild.turn hagg hpart hdisjoint hparts hapart hitem hcollects)
      fun _ _ he => he

end Collecting

/-! ## Putting the merged values in place -/

section Applying

variable {operation : List ℚ → ℚ} {h t : Store} {levels : ℕ} {agg : Addr} {S : Set Addr}
  {E : Exc → Store → Prop}

/-- The merged value of those that were collected, if any were. -/
def merged (operation : List ℚ → ℚ) (values : List ℚ) : Option ℚ :=
  if values = [] then none else some (operation values)

/-- In the place of every list of a node is the merged value. -/
structure Applied (operation : List ℚ → ℚ) (h h' : Store) (node node' : Node) : Prop where
  has : ∀ path, Has h' node' path ↔ Has h node path
  nums : ∀ path, numAt h' node' path = merged operation (listAt h node path)

/-- The operation is applied to an owned dictionary, and nothing else changes. -/
structure Applies (operation : List ℚ → ℚ) (h h' : Store) (levels : ℕ) (agg : Addr) (S : Set Addr) :
    Prop where
  length : h'.length = h.length
  owns : Owns IsNum h' (levels + 1) (.ref agg) S
  agree : ∀ x ∉ S, deref h' x = deref h x
  applied : Applied operation h h' (.ref agg) (.ref agg)

/-- One turn: what is at the key is replaced. -/
structure Replaces (operation : List ℚ → ℚ) (h h' : Store) (levels : ℕ) (agg : Addr)
    (R : Set Addr) (item : Key × Node) (node : Node) : Prop where
  length : h'.length = h.length
  self : deref h' agg = (deref h agg).set item.1 node
  owns : Owns IsNum h' levels node R
  applied : Applied operation h h' item.2 node
  agree : ∀ x ≠ agg, x ∉ R → deref h' x = deref h x

/-- What is known after the turns over some items. -/
structure Replaced (operation : List ℚ → ℚ) (h h' : Store) (levels : ℕ) (agg : Addr) (S : Set Addr)
    (part : Key → Set Addr) (done : List (Key × Node)) : Prop where
  length : h'.length = h.length
  agree : ∀ x ∉ S, deref h' x = deref h x
  items : ∀ item ∈ done, ∃ node, (deref h' agg).get? item.1 = some node ∧
    Owns IsNum h' levels node (part item.1) ∧ Applied operation h h' item.2 node
  others : ∀ k ∉ done.map Prod.fst,
    (deref h' agg).get? k = (deref h agg).get? k ∧ Agree h h' (part k)

theorem Applied.after {h' : Store} {node node' : Node} {P : Leaf → Prop}
    (happlied : Applied operation h t node node') (hnode' : Within P t levels node' S)
    (hagree : Agree t h' S) : Applied operation h h' node node' where
  has := fun path => by
    rw [Has, hnode'.lookup_congr hagree]
    exact happlied.has path
  nums := fun path => by
    rw [numAt, hnode'.lookup_congr hagree]
    exact happlied.nums path

theorem Applied.before {h' : Store} {node node' : Node} {P : Leaf → Prop}
    (happlied : Applied operation t h' node node') (hnode : Within P h levels node S)
    (hagree : Agree h t S) : Applied operation h h' node node' where
  has := fun path => by
    rw [happlied.has path, Has, hnode.lookup_congr hagree]
    rfl
  nums := fun path => by
    rw [happlied.nums path, listAt, hnode.lookup_congr hagree]
    rfl

/-- The loop over the items, by what a turn does. -/
theorem wp_replaced {f : Key × Node → MergeM PUnit} {part : Key → Set Addr} (hagg : agg ∈ S)
    (hpart : ∀ k, part k ⊆ S \ {agg}) (hdisjoint : ∀ k k', k ≠ k' → Disjoint (part k) (part k'))
    (hparts : ∀ k w, (deref h agg).get? k = some w → Owns IsList h levels w (part k))
    (hf : ∀ t k w, t.length = h.length → (deref t agg).get? k = some w →
      Owns IsList t levels w (part k) → wp (f (k, w)) (fun _ t' => ∃ node,
        Replaces operation t t' levels agg (part k) (k, w) node) E t) :
    wp (forM (deref h agg).items f)
      (fun _ h' => Replaced operation h h' levels agg S part (deref h agg).items) E h := by
  refine wp_forM (I := fun done t => Replaced operation h t levels agg S part done)
    ⟨rfl, fun _ _ => rfl, fun _ hmem => (nomatch hmem), fun _ _ => ⟨rfl, Agree.refl h _⟩⟩
    fun pre item post t hl hreplaced => ?_
  obtain ⟨k, w⟩ := item
  have hitem : (deref h agg).get? k = some w :=
    Dict.get?_eq_some_iff.mpr (by rw [hl]; simp)
  have hfresh : k ∉ pre.map Prod.fst := by
    have hnodup := (deref h agg).nodup
    rw [hl, List.map_append, List.map_cons] at hnodup
    exact fun hmem => List.disjoint_of_nodup_append hnodup hmem List.mem_cons_self
  obtain ⟨hsame, hagree⟩ := hreplaced.others k hfresh
  refine (hf t k w hreplaced.length (hsame.trans hitem) ((hparts k w hitem).congr hagree)).mono
    (fun _ t' hturn => ?_) fun _ _ he => he
  obtain ⟨node, hturn⟩ := hturn
  have hkept : ∀ k' ≠ k, Agree t t' (part k') := fun k' hk' x hx =>
    hturn.agree x (hpart k' hx).2 fun hmem => Set.disjoint_left.mp (hdisjoint k' k hk') hx hmem
  refine ⟨hturn.length.trans hreplaced.length, fun x hx => ?_, fun item hmem => ?_, fun k' hk' => ?_⟩
  · exact (hturn.agree x (fun heq => hx (heq ▸ hagg)) fun hmem => hx (hpart k hmem).1).trans
      (hreplaced.agree x hx)
  · obtain hpre | rfl := List.mem_append.mp hmem |>.imp_right List.mem_singleton.mp
    · obtain ⟨node', hnode', howns, happlied⟩ := hreplaced.items item hpre
      have hne : item.1 ≠ k := fun heq => hfresh (heq ▸ List.mem_map_of_mem hpre)
      refine ⟨node', ?_, howns.congr (hkept _ hne), happlied.after howns.within (hkept _ hne)⟩
      rw [hturn.self, Dict.get?_set_of_ne hne, hnode']
    · refine ⟨node, ?_, hturn.owns, ?_⟩
      · rw [hturn.self, Dict.get?_set_self]
      · exact hturn.applied.before (hparts k w hitem).within hagree
  · rw [List.map_append, List.mem_append, not_or] at hk'
    have hne : k' ≠ k := fun heq => hk'.2 (by simp [heq])
    obtain ⟨hsame', hagree'⟩ := hreplaced.others k' hk'.1
    exact ⟨by rw [hturn.self, Dict.get?_set_of_ne hne, hsame'], hagree'.trans (hkept k' hne)⟩

theorem Replaced.applies {h' : Store} {part : Key → Set Addr} (hagg : agg ∈ S)
    (hpart : ∀ k, part k ⊆ S \ {agg}) (hdisjoint : ∀ k k', k ≠ k' → Disjoint (part k) (part k'))
    (hreplaced : Replaced operation h h' levels agg S part (deref h agg).items) :
    Applies operation h h' levels agg S := by
  have hsome : ∀ k w, (deref h agg).get? k = some w → ∃ node, (deref h' agg).get? k = some node ∧
      Owns IsNum h' levels node (part k) ∧ Applied operation h h' w node := fun k w hw =>
    hreplaced.items (k, w) (Dict.get?_eq_some_iff.mp hw)
  have hnone : ∀ k, (deref h agg).get? k = none → (deref h' agg).get? k = none := fun k hk =>
    (hreplaced.others k (Dict.get?_eq_none_iff.mp hk)).1.trans hk
  refine ⟨hreplaced.length, ⟨agg, hagg, rfl, part, hpart, hdisjoint, fun k w' hw' => ?_⟩,
    hreplaced.agree, fun path => ?_, fun path => ?_⟩
  · cases hk : (deref h agg).get? k with
    | none =>
      rw [hnone k hk] at hw'
      cases hw'
    | some w =>
      obtain ⟨node, hnode, howns, -⟩ := hsome k w hk
      rw [hnode] at hw'
      cases hw'
      exact howns
  · cases path with
    | nil => simp [Has]
    | cons k path =>
      cases hk : (deref h agg).get? k with
      | none => simp [Has, hk, hnone k hk]
      | some w =>
        obtain ⟨node, hnode, -, happlied⟩ := hsome k w hk
        simpa [Has, hk, hnode] using happlied.has path
  · cases path with
    | nil => simp [numAt, listAt, merged]
    | cons k path =>
      cases hk : (deref h agg).get? k with
      | none => simp [numAt, listAt, merged, hk, hnone k hk]
      | some w =>
        obtain ⟨node, hnode, -, happlied⟩ := hsome k w hk
        simpa [numAt, listAt, hk, hnode] using happlied.nums path

/-- `_operation_on_leveled_metric` merges the values at every path. -/
theorem wp_operationOnLeveledMetric (hown : Owns IsList h (levels + 1) (.ref agg) S)
    (hS : S ⊆ Set.Iio h.length) : wp (operationOnLeveledMetric operation levels agg)
      (fun _ h' => Applies operation h h' levels agg S) E h := by
  induction levels generalizing h agg S with
  | zero =>
    obtain ⟨a, hagg, heq, part, hpart, hdisjoint, hparts⟩ := hown
    cases heq
    rw [operationOnLeveledMetric, wp_bind, wp_getDict]
    refine (wp_replaced hagg hpart hdisjoint hparts fun t k w hlength hw hown => ?_).mono
      (fun _ _ hreplaced => hreplaced.applies hagg hpart hdisjoint) fun _ _ he => he
    obtain ⟨_, rfl, qs, hqs, rfl⟩ := hown
    have hlt : agg < t.length := hlength ▸ hS hagg
    refine ⟨.leaf (.num (operation qs)), List.length_modify .., deref_set_self hlt, ⟨_, rfl, _, rfl⟩,
      ⟨fun path => ?_, fun path => ?_⟩, fun x hx _ => deref_set_of_ne hx⟩
    · cases path <;> simp [Has]
    · cases path with
      | nil => simp [numAt, listAt, merged, hqs]
      | cons k path => simp [numAt, listAt, merged]
  | succ levels ih =>
    obtain ⟨a, hagg, heq, part, hpart, hdisjoint, hparts⟩ := hown
    cases heq
    rw [operationOnLeveledMetric, wp_bind, wp_getDict]
    refine (wp_replaced hagg hpart hdisjoint hparts fun t k w hlength hw hown => ?_).mono
      (fun _ _ hreplaced => hreplaced.applies hagg hpart hdisjoint) fun _ _ he => he
    have hbound : part k ⊆ Set.Iio t.length := fun x hx => hlength ▸ hS (hpart k hx).1
    obtain ⟨child, -, rfl, -⟩ := hown.within
    rw [dictionary, pure_bind]
    refine (ih hown hbound).mono (fun _ t' happlies => ?_) fun _ _ he => he
    have hself : deref t' agg = deref t agg := happlies.agree agg fun hmem => (hpart k hmem).2 rfl
    refine ⟨.ref child, happlies.length, ?_, happlies.owns, happlies.applied,
      fun x _ hx => happlies.agree x hx⟩
    rw [hself, Dict.set_of_get? hw]

end Applying

/-! ## The merge -/

section Merge

variable {metadata : Dict MetricName MetricMetadata} {h t : Store} {measurementsList : List Addr}
  {E : Exc → Store → Prop}

/-- Measurements whose metrics have the levels that are declared, and numbers below. -/
structure Measured (metadata : Dict MetricName MetricMetadata) (h : Store) (a : Addr) : Prop where
  lt : a < h.length
  nodes : ∀ metricName node, (deref h a).get? metricName = some node →
    Within IsNum h (levelsOf metadata metricName) node (Set.Iio h.length)

theorem lookup_cons {a : Addr} {k : Key} {path : List Key} {node : Node}
    (hk : (deref h a).get? k = some node) : lookup h (.ref a) (k :: path) = lookup h node path := by
  rw [lookup_ref, hk]
  rfl

/-- The values of some inputs at a path, in their order. -/
def valuesAt (h : Store) (measurementsList : List Addr) (path : List Key) : List ℚ :=
  measurementsList.filterMap fun a => numAt h (.ref a) path

theorem valuesAt_append_singleton {pre : List Addr} {a : Addr} {path : List Key} :
    valuesAt h (pre ++ [a]) path = valuesAt h pre path ++ (numAt h (.ref a) path).toList := by
  cases hq : numAt h (.ref a) path <;> simp [valuesAt, hq]

/-- What the merge of a metric shows: a path is there when an input has it, with the merged value of
the inputs that have a value there. -/
structure Shows (operation : List ℚ → ℚ) (h : Store) (measurementsList : List Addr) (h' : Store)
    (node : Node) (metricName : Key) : Prop where
  has : ∀ path, Has h' node path ↔ ∃ a ∈ measurementsList, Has h (.ref a) (metricName :: path)
  nums : ∀ path,
    numAt h' node path = merged operation (valuesAt h measurementsList (metricName :: path))

theorem wp_valuesOf {metricName : Key} (hlevels : levelsOf metadata metricName = 0)
    (hinputs : ∀ a ∈ measurementsList, Measured metadata h a)
    (hagree : Agree h t (Set.Iio h.length)) :
    wp (valuesOf metricName measurementsList)
      (fun values t' => t' = t ∧ values = valuesAt h measurementsList [metricName]) E t := by
  induction measurementsList with
  | nil => exact ⟨rfl, rfl⟩
  | cons a measurementsList ih =>
    have hinput := hinputs a List.mem_cons_self
    have hrest := ih fun b hb => hinputs b (List.mem_cons_of_mem _ hb)
    rw [valuesOf, wp_bind, wp_getDict, hagree a hinput.lt]
    cases hk : (deref h a).get? metricName with
    | none =>
      refine hrest.mono (fun values t' hvalues => ⟨hvalues.1, ?_⟩) fun _ _ he => he
      rw [hvalues.2, valuesAt, valuesAt, List.filterMap_cons_none (by simp [numAt, hk])]
    | some node =>
      have hnode := hinput.nodes metricName node hk
      rw [hlevels] at hnode
      obtain ⟨_, rfl, q, rfl⟩ := hnode
      dsimp only
      rw [number, pure_bind, wp_bind]
      refine hrest.mono (fun values t' hvalues => ⟨hvalues.1, ?_⟩) fun _ _ he => he
      rw [hvalues.2, valuesAt, valuesAt, List.filterMap_cons_some (b := q) (by simp [numAt, hk])]

/-- What is collected of the inputs gone through so far. -/
structure CollectsAll (h t t' : Store) (levels : ℕ) (summed : Addr) (metricName : Key)
    (done : List Addr) : Prop where
  gathers : Gathers t t' levels summed {summed}
  has : ∀ path ≠ [], Has t' (.ref summed) path ↔ ∃ a ∈ done, Has h (.ref a) (metricName :: path)
  lists : ∀ path ≠ [], listAt t' (.ref summed) path = valuesAt h done (metricName :: path)

/-- The loop over the inputs of a metric with levels. -/
theorem wp_collectsAll {levels : ℕ} {summed : Addr} {metricName : Key}
    (hlevels : levelsOf metadata metricName = levels + 1)
    (hinputs : ∀ a ∈ measurementsList, Measured metadata h a)
    (hagree : Agree h t (Set.Iio h.length)) (hempty : deref t summed = ∅)
    (hsummed : h.length ≤ summed) (hlt : summed < t.length) :
    wp (forM measurementsList fun measurements => do
        let d ← getDict measurements
        match d.get? metricName with
        | none => pure ⟨⟩
        | some node => listLeveledMetrics levels summed node)
      (fun _ t' => CollectsAll h t t' levels summed metricName measurementsList) E t := by
  have hapart : Apart t {summed} (Set.Iio h.length) :=
    ⟨Set.singleton_subset_iff.mpr hlt, fun x hx => Nat.lt_of_lt_of_le hx (hsummed.trans hlt.le),
      Set.disjoint_singleton_left.mpr fun hmem => (hsummed.trans_lt hmem).false⟩
  refine wp_forM (I := fun done t' => CollectsAll h t t' levels summed metricName done)
    ⟨.refl (.empty hempty), fun path hpath => ?_, fun path hpath => ?_⟩
    fun pre a post t' hl hcollects => ?_
  · obtain ⟨k, path, rfl⟩ := List.exists_cons_of_ne_nil hpath
    simp [Has, hempty]
  · obtain ⟨k, path, rfl⟩ := List.exists_cons_of_ne_nil hpath
    simp [listAt, valuesAt, hempty]
  · have hinput := hinputs a (by rw [hl]; simp)
    have hagree' : Agree h t' (Set.Iio h.length) := hagree.trans (hapart.agree hcollects.gathers)
    rw [wp_bind, wp_getDict, hagree' a hinput.lt]
    cases hk : (deref h a).get? metricName with
    | none =>
      refine ⟨hcollects.gathers, fun path hpath => ?_, fun path hpath => ?_⟩
      · rw [hcollects.has path hpath]
        simp [Has, hk, or_and_right, exists_or]
      · rw [hcollects.lists path hpath]
        simp [valuesAt, numAt, hk]
    | some node =>
      have hnode := hinput.nodes metricName node hk
      rw [hlevels] at hnode
      refine (wp_listLeveledMetrics hcollects.gathers.owns
        (hapart.after hcollects.gathers.grows) (hnode.congr hagree')).mono
        (fun _ t'' hadds => ?_) fun _ _ he => he
      refine ⟨hcollects.gathers.trans hadds.gathers, fun path hpath => ?_, fun path hpath => ?_⟩
      · rw [(hadds.adds path).has, hcollects.has path hpath, Has, hnode.lookup_congr hagree',
          ← lookup_cons hk]
        simp [Has, or_and_right, exists_or]
      · rw [(hadds.adds path).lists, hcollects.lists path hpath, numAt,
          hnode.lookup_congr hagree', ← lookup_cons hk, valuesAt_append_singleton]
        rfl

/-- A value has the levels of its metric above it. -/
theorem Measured.length_of_numAt {a : Addr} {metricName : Key} {path : List Key} {q : ℚ}
    (hinput : Measured metadata h a) (hq : numAt h (.ref a) (metricName :: path) = some q) :
    path.length = levelsOf metadata metricName := by
  cases hk : (deref h a).get? metricName with
  | none => simp [numAt, hk] at hq
  | some node =>
    rw [numAt, lookup_cons hk] at hq
    split at hq
    · next hl => exact ((hinput.nodes metricName node hk).leaf_of_lookup hl).1
    · cases hq

theorem valuesAt_eq_nil {metricName : Key} {path : List Key}
    (hinputs : ∀ a ∈ measurementsList, Measured metadata h a)
    (hpath : path.length ≠ levelsOf metadata metricName) :
    valuesAt h measurementsList (metricName :: path) = [] := by
  rw [valuesAt, List.filterMap_eq_nil_iff]
  intro a ha
  cases hq : numAt h (.ref a) (metricName :: path) with
  | none => rfl
  | some q => exact absurd ((hinputs a ha).length_of_numAt hq) hpath

/-- One turn: a metric is merged into a node of its own. -/
structure MergesMetric (metadata : Dict MetricName MetricMetadata) (h t t' : Store)
    (measurementsList : List Addr) (summedMetrics : Addr) (metricName : Key) (node : Node) :
    Prop where
  grows : t.length ≤ t'.length
  self : deref t' summedMetrics = (deref t summedMetrics).set metricName node
  within : Within IsNum t' (levelsOf metadata metricName) node (Set.Ico t.length t'.length)
  agree : ∀ x < t.length, x ≠ summedMetrics → deref t' x = deref t x
  shows : Shows (operationOf metadata metricName) h measurementsList t' node metricName

section Turn

variable {summedMetrics : Addr} {metricName : Key}

/-- A metric without levels. -/
theorem mergesMetric_flat (hlevels : levelsOf metadata metricName = 0)
    (hinputs : ∀ a ∈ measurementsList, Measured metadata h a)
    (hmem : ∃ a ∈ measurementsList, metricName ∈ (deref h a).keys) (hlt : summedMetrics < t.length) :
    let node := .leaf (.num (operationOf metadata metricName
      (valuesAt h measurementsList [metricName])))
    MergesMetric metadata h t (t.modify summedMetrics fun d => d.set metricName node)
      measurementsList summedMetrics metricName node := by
  intro node
  have hleaf : ∀ a ∈ measurementsList, ∀ node, (deref h a).get? metricName = some node →
      ∃ q, node = .leaf (.num q) := by
    intro a ha node hk
    have hnode := (hinputs a ha).nodes metricName node hk
    rw [hlevels] at hnode
    obtain ⟨_, rfl, q, rfl⟩ := hnode
    exact ⟨q, rfl⟩
  obtain ⟨a, ha, hk⟩ := hmem
  obtain ⟨node', hk⟩ := Dict.mem_keys_iff_get?.mp hk
  obtain ⟨q, rfl⟩ := hleaf a ha node' hk
  refine ⟨(List.length_modify ..).ge, deref_set_self hlt, ?_, fun x _ hx => deref_set_of_ne hx,
    fun path => ?_, fun path => ?_⟩
  · rw [hlevels]
    exact ⟨_, rfl, _, rfl⟩
  · cases path with
    | nil => exact ⟨fun _ => ⟨a, ha, by simp [Has, hk]⟩, fun _ => by simp [Has]⟩
    | cons k path =>
      refine ⟨fun hhas => by simp [Has, node] at hhas, fun hhas => ?_⟩
      obtain ⟨b, hb, hhas⟩ := hhas
      cases hk' : (deref h b).get? metricName with
      | none => simp [Has, hk'] at hhas
      | some node'' =>
        obtain ⟨q', rfl⟩ := hleaf b hb node'' hk'
        simp [Has, hk'] at hhas
  · cases path with
    | nil =>
      have hne : valuesAt h measurementsList [metricName] ≠ [] := List.ne_nil_of_mem
        (List.mem_filterMap.mpr ⟨a, ha, by simp [numAt, hk]⟩ : q ∈ _)
      rw [merged, if_neg hne]
      rfl
    | cons k path =>
      rw [valuesAt_eq_nil hinputs (by rw [hlevels]; exact Nat.succ_ne_zero _)]
      rfl

/-- A metric with levels, after the values are collected and merged. -/
theorem mergesMetric_leveled {t₁ t₂ : Store} {levels : ℕ}
    (hlevels : levelsOf metadata metricName = levels + 1)
    (hinputs : ∀ a ∈ measurementsList, Measured metadata h a)
    (hmem : ∃ a ∈ measurementsList, metricName ∈ (deref h a).keys) (hlt : summedMetrics < t.length)
    (hcollects : CollectsAll h (t ++ [∅]) t₁ levels t.length metricName measurementsList)
    (happlies : Applies (operationOf metadata metricName) t₁ t₂ levels t.length
      ({t.length} ∪ Set.Ico (t ++ [∅]).length t₁.length)) :
    MergesMetric metadata h t (t₂.modify summedMetrics fun d => d.set metricName (.ref t.length))
      measurementsList summedMetrics metricName (.ref t.length) := by
  have hgrows : t.length + 1 ≤ t₁.length := by
    have hgrows := hcollects.gathers.grows
    rwa [List.length_append] at hgrows
  have hold : ∀ x < t.length, deref t₂ x = deref t x := by
    intro x hx
    rw [happlies.agree x ?_, hcollects.gathers.agree x ⟨?_, fun heq => (heq ▸ hx).false⟩, deref_alloc]
    · rw [Set.mem_Iio, List.length_append]
      exact Nat.lt_add_right _ hx
    · rintro (heq | hnew)
      · exact (heq ▸ hx).false
      · rw [List.length_append] at hnew
        exact (hnew.1.trans_lt (Nat.lt_add_right _ hx)).false
  have hsub : ({t.length} ∪ Set.Ico (t ++ [∅]).length t₁.length : Set Addr) ⊆
      Set.Ico t.length (t₂.modify summedMetrics fun d => d.set metricName (.ref t.length)).length := by
    rw [List.length_modify, happlies.length, List.length_append]
    exact Set.union_subset (Set.singleton_subset_iff.mpr ⟨le_rfl, hgrows⟩)
      (Set.Ico_subset_Ico_left (Nat.le_add_right _ _))
  have hwritten : Agree t₂ (t₂.modify summedMetrics fun d => d.set metricName (.ref t.length))
      ({t.length} ∪ Set.Ico (t ++ [∅]).length t₁.length) := fun x hx =>
    deref_set_of_ne fun heq => ((hsub hx).1.trans_lt (heq ▸ hlt)).false
  have hwithin := happlies.owns.within
  refine ⟨?_, ?_, ?_, fun x hx hne => ?_, fun path => ?_, fun path => ?_⟩
  · rw [List.length_modify, happlies.length]
    exact (Nat.le_add_right _ _).trans hgrows
  · have hlt₂ : summedMetrics < t₂.length := by
      rw [happlies.length]
      exact Nat.lt_of_lt_of_le hlt ((Nat.le_add_right _ _).trans hgrows)
    rw [deref_set_self hlt₂, hold _ hlt]
  · rw [hlevels]
    exact (hwithin.congr hwritten).mono hsub
  · rw [deref_set_of_ne hne, hold x hx]
  · rw [Has, hwithin.lookup_congr hwritten]
    cases path with
    | nil =>
      obtain ⟨a, ha, hk⟩ := hmem
      obtain ⟨node, hk⟩ := Dict.mem_keys_iff_get?.mp hk
      exact ⟨fun _ => ⟨a, ha, by simp [Has, hk]⟩, fun _ => rfl⟩
    | cons k path =>
      exact (happlies.applied.has (k :: path)).trans (hcollects.has _ (List.cons_ne_nil k path))
  · rw [numAt, hwithin.lookup_congr hwritten]
    refine (happlies.applied.nums path).trans ?_
    cases path with
    | nil =>
      rw [valuesAt_eq_nil hinputs (by rw [hlevels]; exact (Nat.succ_ne_zero _).symm)]
      rfl
    | cons k path => rw [hcollects.lists _ (List.cons_ne_nil k path)]

/-- What a turn over the names does. -/
theorem wp_mergeMetric (hinputs : ∀ a ∈ measurementsList, Measured metadata h a)
    (hmem : ∃ a ∈ measurementsList, metricName ∈ (deref h a).keys)
    (hagree : Agree h t (Set.Iio h.length)) (hle : h.length ≤ summedMetrics)
    (hlt : summedMetrics < t.length) :
    wp (mergeMetric metadata measurementsList summedMetrics metricName) (fun _ t' =>
      ∃ node, MergesMetric metadata h t t' measurementsList summedMetrics metricName node) E t := by
  rw [mergeMetric]
  cases hlevels : levelsOf metadata metricName with
  | zero =>
    rw [wp_bind]
    refine (wp_valuesOf hlevels hinputs hagree).mono (fun values t' hvalues => ?_) fun _ _ he => he
    obtain ⟨rfl, rfl⟩ := hvalues
    exact ⟨_, mergesMetric_flat hlevels hinputs hmem hlt⟩
  | succ levels =>
    have hagree' : Agree h (t ++ [∅]) (Set.Iio h.length) := fun x hx => by
      rw [deref_alloc, hagree x hx]
    have hbelow : t.length < (t ++ [∅]).length := by
      rw [List.length_append]
      exact Nat.lt_succ_self _
    rw [wp_bind, wp_alloc, wp_bind]
    refine (wp_collectsAll hlevels hinputs hagree' ?_ (hle.trans hlt.le) hbelow).mono
      (fun _ t₁ hcollects => ?_) fun _ _ he => he
    · rw [deref_alloc, deref_of_length_le le_rfl]
    rw [wp_bind]
    refine (wp_operationOnLeveledMetric hcollects.gathers.owns ?_).mono
      (fun _ t₂ happlies => ?_) fun _ _ he => he
    · exact Set.union_subset
        (Set.singleton_subset_iff.mpr (hbelow.trans_le hcollects.gathers.grows)) fun x hx => hx.2
    · exact ⟨_, mergesMetric_leveled hlevels hinputs hmem hlt hcollects happlies⟩

end Turn

/-- What is known after the turns over some names. -/
structure MergedSoFar (metadata : Dict MetricName MetricMetadata) (h t : Store)
    (measurementsList : List Addr) (done : List Key) : Prop where
  lt : h.length < t.length
  agree : ∀ x < h.length, deref t x = deref h x
  nodes : ∀ metricName ∈ done, ∃ node, (deref t h.length).get? metricName = some node ∧
    Within IsNum t (levelsOf metadata metricName) node (Set.Ioo h.length t.length) ∧
    Shows (operationOf metadata metricName) h measurementsList t node metricName
  others : ∀ metricName ∉ done, (deref t h.length).get? metricName = none

theorem Shows.congr {operation : List ℚ → ℚ} {t' : Store} {metricName : Key} {node : Node}
    {P : Leaf → Prop} {levels : ℕ} {S : Set Addr}
    (hshows : Shows operation h measurementsList t node metricName) (hnode : Within P t levels node S)
    (hagree : Agree t t' S) : Shows operation h measurementsList t' node metricName where
  has := fun path => by
    rw [Has, hnode.lookup_congr hagree]
    exact hshows.has path
  nums := fun path => by
    rw [numAt, hnode.lookup_congr hagree]
    exact hshows.nums path

theorem MergesMetric.mergedSoFar {t' : Store} {names : List Key} {metricName : Key} {node : Node}
    (hso : MergedSoFar metadata h t measurementsList names)
    (hmerges : MergesMetric metadata h t t' measurementsList h.length metricName node) :
    MergedSoFar metadata h t' measurementsList (names ++ [metricName]) := by
  have hkept : Agree t t' (Set.Ioo h.length t.length) := fun x hx =>
    hmerges.agree x hx.2 fun heq => (heq ▸ hx.1).false
  refine ⟨hso.lt.trans_le hmerges.grows, fun x hx => ?_, fun name hmem => ?_, fun name hname => ?_⟩
  · exact (hmerges.agree x (hx.trans hso.lt) fun heq => (heq ▸ hx).false).trans (hso.agree x hx)
  · by_cases heq : name = metricName
    · refine ⟨node, ?_, ?_, ?_⟩
      · rw [hmerges.self, heq, Dict.get?_set_self]
      · rw [heq]
        exact hmerges.within.mono fun x hx => ⟨Nat.lt_of_lt_of_le hso.lt hx.1, hx.2⟩
      · rw [heq]
        exact hmerges.shows
    · have hname : name ∈ names := (List.mem_append.mp hmem).resolve_right (by simpa using heq)
      obtain ⟨node', hnode', hwithin, hshows⟩ := hso.nodes name hname
      refine ⟨node', ?_, ?_, hshows.congr hwithin hkept⟩
      · rw [hmerges.self, Dict.get?_set_of_ne heq, hnode']
      · exact (hwithin.congr hkept).mono fun x hx => ⟨hx.1, Nat.lt_of_lt_of_le hx.2 hmerges.grows⟩
  · rw [List.mem_append, not_or, List.mem_singleton] at hname
    rw [hmerges.self, Dict.get?_set_of_ne hname.2, hso.others name hname.1]

/-- What a merge of measurements is: the inputs stay as they are, and every metric is merged at every
path of it. -/
structure Merges (metadata : Dict MetricName MetricMetadata) (h h' : Store)
    (measurementsList : List Addr) (summedMetrics : Addr) : Prop where
  inputs : ∀ x < h.length, deref h' x = deref h x
  measured : Measured metadata h' summedMetrics
  has : ∀ metricName path, Has h' (.ref summedMetrics) (metricName :: path) ↔
    ∃ a ∈ measurementsList, Has h (.ref a) (metricName :: path)
  nums : ∀ metricName path, numAt h' (.ref summedMetrics) (metricName :: path) =
    merged (operationOf metadata metricName) (valuesAt h measurementsList (metricName :: path))

theorem MergedSoFar.merges {names : List Key}
    (hso : MergedSoFar metadata h t measurementsList names)
    (hnames : ∀ metricName, metricName ∈ names ↔
      ∃ a ∈ measurementsList, metricName ∈ (deref h a).keys) :
    Merges metadata h t measurementsList h.length := by
  have habsent : ∀ metricName ∉ names, ∀ a ∈ measurementsList, ∀ path,
      lookup h (.ref a) (metricName :: path) = none := by
    intro metricName hname a ha path
    have hk : (deref h a).get? metricName = none :=
      Dict.get?_eq_none_iff.mpr fun hk => hname ((hnames metricName).mpr ⟨a, ha, hk⟩)
    simp [hk]
  refine ⟨hso.agree, ⟨hso.lt, fun metricName node hk => ?_⟩, fun metricName path => ?_,
    fun metricName path => ?_⟩
  · by_cases hname : metricName ∈ names
    · obtain ⟨node', hnode', hwithin, -⟩ := hso.nodes metricName hname
      rw [hnode'] at hk
      cases hk
      exact hwithin.mono fun x hx => hx.2
    · rw [hso.others metricName hname] at hk
      cases hk
  · by_cases hname : metricName ∈ names
    · obtain ⟨node, hnode, -, hshows⟩ := hso.nodes metricName hname
      rw [Has, lookup_cons hnode]
      exact hshows.has path
    · simp only [Has, lookup_ref, hso.others metricName hname, Option.bind_none,
        Option.isSome_none, Bool.false_eq_true, false_iff]
      rintro ⟨a, ha, hhas⟩
      have hnone := habsent metricName hname a ha path
      rw [lookup_ref] at hnone
      rw [hnone] at hhas
      cases hhas
  · by_cases hname : metricName ∈ names
    · obtain ⟨node, hnode, -, hshows⟩ := hso.nodes metricName hname
      rw [numAt, lookup_cons hnode]
      exact hshows.nums path
    · have hvalues : valuesAt h measurementsList (metricName :: path) = [] := by
        rw [valuesAt, List.filterMap_eq_nil_iff]
        intro a ha
        rw [numAt, habsent metricName hname a ha path]
      simp [hvalues, numAt, hso.others metricName hname, merged]

/-- `merge_measurements` returns, and what it returns is the merge. -/
theorem wp_mergeMeasurements (sets : SetOrder Key)
    (hinputs : ∀ a ∈ measurementsList, Measured metadata h a) :
    wp (mergeMeasurements metadata sets measurementsList) (fun summedMetrics h' =>
      summedMetrics = h.length ∧ Merges metadata h h' measurementsList summedMetrics) E h := by
  have hkeys : measurementsList.flatMap (fun a => (deref (h ++ [∅]) a).keys) =
      measurementsList.flatMap fun a => (deref h a).keys := by simp
  rw [mergeMeasurements, wp_bind, wp_alloc, wp_bind, wp_get, wp_bind, hkeys]
  have hnames : ∀ metricName, metricName ∈ sets.order
      (measurementsList.flatMap fun a => (deref h a).keys).dedup ↔
        ∃ a ∈ measurementsList, metricName ∈ (deref h a).keys := by
    intro metricName
    rw [(sets.perm _).mem_iff, List.mem_dedup, List.mem_flatMap]
  refine (wp_forM (I := fun names t => MergedSoFar metadata h t measurementsList names)
    ⟨?_, fun x _ => deref_alloc, fun _ hmem => (nomatch hmem), fun _ _ => ?_⟩
    fun pre metricName post t hl hso => ?_).mono
      (fun _ h' hso => ⟨rfl, hso.merges hnames⟩) fun _ _ he => he
  · rw [List.length_append]
    exact Nat.lt_succ_self _
  · rw [deref_alloc, deref_of_length_le le_rfl]
    rfl
  · have hmem := (hnames metricName).mp (by rw [hl]; simp)
    refine (wp_mergeMetric hinputs hmem (fun x hx => hso.agree x hx) le_rfl hso.lt).mono
      (fun _ t' hmerges => ?_) fun _ _ he => he
    obtain ⟨node, hmerges⟩ := hmerges
    exact hmerges.mergedSoFar hso

theorem merged_sum_congr {values values' : List ℚ} (hperm : values.Perm values') :
    merged List.sum values = merged List.sum values' := by
  rw [merged, merged, hperm.sum_eq]
  refine if_congr ?_ rfl rfl
  rw [← List.length_eq_zero_iff, ← List.length_eq_zero_iff, hperm.length_eq]

/-- The order of the inputs, and that of the names, changes what is summed in no way. -/
theorem Merges.perm {h₁ h₂ : Store} {inputs₁ inputs₂ : List Addr} {a₁ a₂ : Addr}
    (h₁merges : Merges metadata h h₁ inputs₁ a₁) (h₂merges : Merges metadata h h₂ inputs₂ a₂)
    (hperm : inputs₁.Perm inputs₂) (metricName : Key) (path : List Key) :
    (Has h₁ (.ref a₁) (metricName :: path) ↔ Has h₂ (.ref a₂) (metricName :: path)) ∧
      (operationOf metadata metricName = List.sum →
        numAt h₁ (.ref a₁) (metricName :: path) = numAt h₂ (.ref a₂) (metricName :: path)) := by
  refine ⟨?_, fun hsum => ?_⟩
  · rw [h₁merges.has, h₂merges.has]
    simp only [hperm.mem_iff]
  · rw [h₁merges.nums, h₂merges.nums, hsum]
    exact merged_sum_congr (hperm.filterMap _)

/-- Two subcontainers, of which one has pages on a second node and one has a metric without an
entry. -/
def podStore : Store :=
  [.ofItems [(.str "task_mem_numa_pages", .ref 2), (.str "cycles", .leaf (.num 5))],
    .ofItems [(.str "task_mem_numa_pages", .ref 3), (.str "unknown", .leaf (.num 7))],
    .ofItems [(.int 0, .leaf (.num 10))],
    .ofItems [(.int 0, .leaf (.num 1)), (.int 1, .leaf (.num 2))]]

def insertionOrder : SetOrder Key := ⟨id, fun l => .refl l⟩

end Merge

end Wca.Metrics
