import Mathlib.Data.List.Nodup
import Mathlib.Data.List.Pairwise
import Wca.Metrics.Merging

/-!
# The series of tasks

`_build_tasks_metrics` makes a metric for every leaf of what the tasks measured, with labels for the
levels above it, and puts the labels of the task over them. Series of different tasks differ in
`task_id`. A label of a task that is named as a level takes the place of the level's
(`series_distinct_iff`).
-/

namespace Wca.Metrics

open Py Objects

/-! ## `append_additional_labels_to_tasks` -/

abbrev TaskId := String

structure Task where
  name : String
  taskId : TaskId
  labels : Dict String String

abbrev TaskLabelGenerator := Task → Option String

/-- One turn over the generators. -/
def Task.generateLabel (task : Task) (p : String × TaskLabelGenerator) : Task :=
  if p.1 ∈ task.labels then task
  else
    match p.2 task with
    | none => task
    | some val => { task with labels := task.labels.set p.1 val }

def Task.appendAdditionalLabels (taskLabelGenerators : Dict String TaskLabelGenerator)
    (task : Task) : Task :=
  taskLabelGenerators.items.foldl Task.generateLabel
    { task with labels := (task.labels.set "task_id" task.taskId).set "task_name" task.name }

def appendAdditionalLabelsToTasks (taskLabelGenerators : Dict String TaskLabelGenerator)
    (tasks : List Task) : List Task :=
  tasks.map (Task.appendAdditionalLabels taskLabelGenerators)

/-! ## `_prepare_tasks_data` -/

structure TaskData where
  labels : Dict String String
  measurements : Dict Key Node

/-- `_prepare_tasks_data`. The container of each task has been measured. -/
def prepareTasksData (measurements : Task → Dict Key Node) (tasks : List Task) :
    Dict TaskId TaskData :=
  .ofItems (tasks.map fun task => (task.taskId, ⟨task.labels, measurements task⟩))

/-! ## `_build_tasks_metrics` -/

structure Metric where
  name : Key
  value : Node
  labels : Dict String String

/-- The exception of `export_metrics_from_measurements`, by the metric that its text names. -/
inductive ExportExc where
  | expectedHierarchy (metricName : Key)
  deriving DecidableEq

/-- `str` of a key. -/
def keyText : Key → String
  | .str s => s
  | .int n => toString n

/-- The levels of a metric, none where it has no entry. -/
def levelNames (metadata : Dict MetricName MetricMetadata) (metricName : Key) : List String :=
  ((metadataOf metadata metricName).map MetricMetadata.levels).getD []

/-- `recursive_create_metric`, with the levels below the one it is at. -/
def recursiveCreateMetric (h : Store) (metricName : Key) : (levels : List String) → (node : Node) →
    (parentLabels : Dict String String) → Except ExportExc (List Metric)
  | [], node, parentLabels => pure [⟨metricName, node, parentLabels⟩]
  | level :: levels, .ref a, parentLabels => do
    let metrics ← (deref h a).items.mapM fun item =>
      recursiveCreateMetric h metricName levels item.2 (parentLabels.set level (keyText item.1))
    pure metrics.flatten
  | _ :: _, .leaf _, _ => throw (.expectedHierarchy metricName)

def exportMetricsFromMeasurements (metadata : Dict MetricName MetricMetadata) (h : Store)
    (measurements : Dict Key Node) : Except ExportExc (List Metric) := do
  let allMetrics ← measurements.items.mapM fun p =>
    match levelNames metadata p.1 with
    | [] => pure [⟨p.1, p.2, ∅⟩]
    | levels => recursiveCreateMetric h p.1 levels p.2 ∅
  pure allMetrics.flatten

def buildTasksMetrics (metadata : Dict MetricName MetricMetadata) (h : Store)
    (tasksData : Dict TaskId TaskData) : Except ExportExc (List Metric) := do
  let tasksMetrics ← tasksData.items.mapM fun p => do
    let taskMetrics ← exportMetricsFromMeasurements metadata h p.2.measurements
    pure (taskMetrics.map fun metric => { metric with labels := metric.labels.update p.2.labels })
  pure tasksMetrics.flatten

/-! ## The leaves -/

/-- The leaves of a node some levels below, with the paths to them. -/
def leavesBelow (h : Store) : ℕ → Node → List (List Key × Node)
  | 0, node => [([], node)]
  | levels + 1, .ref a => (deref h a).items.flatMap fun p =>
    (leavesBelow h levels p.2).map fun x => (p.1 :: x.1, x.2)
  | _ + 1, .leaf _ => []

section Leaves

variable {h : Store} {levels : ℕ} {node w : Node} {path : List Key}

theorem mem_leavesBelow_iff :
    (path, w) ∈ leavesBelow h levels node ↔
      path.length = levels ∧ lookup h node path = some w := by
  induction levels generalizing node path with
  | zero =>
    rw [leavesBelow, List.mem_singleton, Prod.mk.injEq, List.length_eq_zero_iff]
    constructor
    · rintro ⟨rfl, rfl⟩
      exact ⟨rfl, lookup_nil⟩
    · rintro ⟨rfl, hw⟩
      rw [lookup_nil] at hw
      exact ⟨rfl, (Option.some.inj hw).symm⟩
  | succ levels ih =>
    cases node with
    | leaf l =>
      rw [leavesBelow]
      cases path with
      | nil => simp
      | cons k path => simp
    | ref a =>
      rw [leavesBelow, List.mem_flatMap]
      constructor
      · rintro ⟨p, hp, hmem⟩
        obtain ⟨x, hx, heq⟩ := List.mem_map.mp hmem
        cases heq
        obtain ⟨hlength, hlookup⟩ := ih.mp hx
        rw [lookup_ref, Dict.get?_eq_some_iff.mpr hp]
        exact ⟨congrArg (· + 1) hlength, hlookup⟩
      · rintro ⟨hlength, hlookup⟩
        cases path with
        | nil => cases hlength
        | cons k path =>
          rw [lookup_ref] at hlookup
          obtain ⟨v, hv, hlookup⟩ := Option.bind_eq_some_iff.mp hlookup
          exact ⟨(k, v), Dict.get?_eq_some_iff.mp hv, List.mem_map.mpr
            ⟨(path, w), ih.mpr ⟨Nat.succ.inj hlength, hlookup⟩, rfl⟩⟩

theorem nodup_leavesBelow : (leavesBelow h levels node).Nodup := by
  induction levels generalizing node with
  | zero => exact List.nodup_singleton _
  | succ levels ih =>
    cases node with
    | leaf l => exact List.nodup_nil
    | ref a =>
      rw [leavesBelow, List.nodup_flatMap]
      refine ⟨fun p _ => ih.map fun x y heq => ?_, ?_⟩
      · obtain ⟨hpath, hnode⟩ := Prod.mk.inj heq
        exact Prod.ext (List.cons.inj hpath).2 hnode
      · -- the keys are different
        refine (List.pairwise_map.mp (deref h a).nodup).imp fun hne => ?_
        refine List.disjoint_left.mpr fun x hx hy => ?_
        obtain ⟨y, -, rfl⟩ := List.mem_map.mp hx
        obtain ⟨z, -, heq⟩ := List.mem_map.mp hy
        exact hne (List.cons.inj (Prod.mk.inj heq).1).1.symm

end Leaves

/-! ## The labels of a leaf -/

/-- Labels for the levels above a leaf. -/
def labelsAlong (labels : Dict String String) (pairs : List (String × Key)) : Dict String String :=
  pairs.foldl (fun labels p => labels.set p.1 (keyText p.2)) labels

section Labels

variable {labels : Dict String String} {pairs : List (String × Key)}

theorem get?_labelsAlong_of_not_mem {label : String} (hlabel : label ∉ pairs.map Prod.fst) :
    (labelsAlong labels pairs).get? label = labels.get? label := by
  induction pairs generalizing labels with
  | nil => rfl
  | cons p pairs ih =>
    rw [List.map_cons, List.mem_cons, not_or] at hlabel
    exact (ih hlabel.2).trans (Dict.get?_set_of_ne hlabel.1)

theorem get?_labelsAlong (hnodup : (pairs.map Prod.fst).Nodup) {p : String × Key} (hp : p ∈ pairs) :
    (labelsAlong labels pairs).get? p.1 = some (keyText p.2) := by
  induction pairs generalizing labels with
  | nil => cases hp
  | cons q pairs ih =>
    rw [List.map_cons, List.nodup_cons] at hnodup
    obtain rfl | hp := List.mem_cons.mp hp
    · exact (get?_labelsAlong_of_not_mem hnodup.1).trans Dict.get?_set_self
    · exact ih hnodup.2 hp

/-- The labels say the texts of the keys and no more. -/
theorem labelsAlong_congr {levels : List String} {path path' : List Key}
    (htexts : path.map keyText = path'.map keyText) :
    labelsAlong labels (levels.zip path) = labelsAlong labels (levels.zip path') := by
  induction levels generalizing labels path path' with
  | nil => rfl
  | cons level levels ih =>
    cases path with
    | nil =>
      rw [List.map_nil, eq_comm, List.map_eq_nil_iff] at htexts
      rw [htexts]
    | cons k path =>
      cases path' with
      | nil => cases htexts
      | cons k' path' =>
        obtain ⟨hk, hpath⟩ := List.cons.inj htexts
        rw [List.zip_cons_cons, List.zip_cons_cons, labelsAlong, labelsAlong, List.foldl_cons,
          List.foldl_cons, hk]
        exact ih hpath

end Labels

/-! ## What is returned -/

/-- A leaf of what a task measured. -/
structure Series where
  task : TaskId
  data : TaskData
  metricName : Key
  path : List Key
  node : Node

/-- The names of the levels above a leaf, with its keys. -/
def Series.pairs (metadata : Dict MetricName MetricMetadata) (s : Series) : List (String × Key) :=
  (levelNames metadata s.metricName).zip s.path

/-- The metric that is made of a leaf. -/
def Series.metric (metadata : Dict MetricName MetricMetadata) (s : Series) : Metric where
  name := s.metricName
  value := s.node
  labels := (labelsAlong ∅ (s.pairs metadata)).update s.data.labels

def measuredSeries (metadata : Dict MetricName MetricMetadata) (h : Store)
    (p : TaskId × TaskData) : List Series :=
  p.2.measurements.items.flatMap fun m =>
    (leavesBelow h (levelNames metadata m.1).length m.2).map fun x => ⟨p.1, p.2, m.1, x.1, x.2⟩

def allSeries (metadata : Dict MetricName MetricMetadata) (h : Store)
    (tasksData : Dict TaskId TaskData) : List Series :=
  tasksData.items.flatMap (measuredSeries metadata h)

/-- A leaf is there. -/
structure IsSeries (metadata : Dict MetricName MetricMetadata) (h : Store)
    (tasksData : Dict TaskId TaskData) (s : Series) : Prop where
  data : tasksData.get? s.task = some s.data
  leaf : ∃ node, s.data.measurements.get? s.metricName = some node ∧
    s.path.length = (levelNames metadata s.metricName).length ∧ lookup h node s.path = some s.node

section Build

variable {metadata : Dict MetricName MetricMetadata} {h : Store} {tasksData : Dict TaskId TaskData}

theorem length_levelNames (metricName : Key) :
    (levelNames metadata metricName).length = levelsOf metadata metricName := by
  rw [levelNames, levelsOf]
  cases metadataOf metadata metricName <;> rfl

theorem nodup_levelNames (metricName : Key) : (levelNames metadata metricName).Nodup := by
  rw [levelNames]
  cases metadataOf metadata metricName with
  | none => exact List.nodup_nil
  | some m => exact m.nodup

theorem map_fst_zip_sublist {α β : Type} (l : List α) (l' : List β) :
    ((l.zip l').map Prod.fst).Sublist l := by
  induction l generalizing l' with
  | nil => simp
  | cons a l ih =>
    cases l' with
    | nil => simp
    | cons b l' => exact (ih l').cons_cons a

theorem nodup_pairs (s : Series) : ((s.pairs metadata).map Prod.fst).Nodup :=
  (nodup_levelNames s.metricName).sublist (map_fst_zip_sublist _ _)

theorem recursiveCreateMetric_ok {metricName : Key} {levels : List String} {node : Node}
    {labels : Dict String String} {P : Leaf → Prop} {S : Set Addr}
    (hnode : Within P h levels.length node S) :
    recursiveCreateMetric h metricName levels node labels =
      .ok ((leavesBelow h levels.length node).map fun x =>
        ⟨metricName, x.2, labelsAlong labels (levels.zip x.1)⟩) := by
  induction levels generalizing node labels with
  | nil => rfl
  | cons level levels ih =>
    obtain ⟨a, -, rfl, hitems⟩ := hnode
    rw [recursiveCreateMetric, except_mapM_eq_ok fun item hitem =>
      ih (hitems item.1 item.2 (Dict.get?_eq_some_iff.mpr hitem)), except_ok_bind, except_pure]
    rw [List.length_cons, leavesBelow, List.map_flatMap, List.flatMap]
    congr 2
    refine List.map_congr_left fun item _ => ?_
    rw [List.map_map]
    rfl

theorem exportMetricsFromMeasurements_ok {measurements : Dict Key Node} {P : Leaf → Prop}
    {S : Set Addr} (hmeasured : ∀ metricName node, measurements.get? metricName = some node →
      Within P h (levelsOf metadata metricName) node S) :
    exportMetricsFromMeasurements metadata h measurements =
      .ok (measurements.items.flatMap fun m =>
        (leavesBelow h (levelNames metadata m.1).length m.2).map fun x =>
          ⟨m.1, x.2, labelsAlong ∅ ((levelNames metadata m.1).zip x.1)⟩) := by
  rw [exportMetricsFromMeasurements, except_mapM_eq_ok (g := fun m =>
    (leavesBelow h (levelNames metadata m.1).length m.2).map fun x =>
      ⟨m.1, x.2, labelsAlong ∅ ((levelNames metadata m.1).zip x.1)⟩) fun m hm => ?_]
  · rfl
  · have hnode := hmeasured m.1 m.2 (Dict.get?_eq_some_iff.mpr hm)
    rw [← length_levelNames] at hnode
    split
    · next hnil => rw [hnil]; rfl
    · exact recursiveCreateMetric_ok hnode

/-- `_build_tasks_metrics` returns the metrics of the leaves. -/
theorem buildTasksMetrics_ok (hmeasured : ∀ p ∈ tasksData.items, ∀ metricName node,
    p.2.measurements.get? metricName = some node →
      Within IsNum h (levelsOf metadata metricName) node (Set.Iio h.length)) :
    buildTasksMetrics metadata h tasksData =
      .ok ((allSeries metadata h tasksData).map (Series.metric metadata)) := by
  rw [buildTasksMetrics, except_mapM_eq_ok (g := fun p =>
    (measuredSeries metadata h p).map (Series.metric metadata)) fun p hp => ?_]
  · rw [allSeries, List.map_flatMap]
    rfl
  · rw [exportMetricsFromMeasurements_ok (hmeasured p hp), except_ok_bind, except_pure,
      measuredSeries, List.map_flatMap, List.map_flatMap]
    simp only [List.map_map]
    rfl

theorem mem_allSeries_iff {s : Series} :
    s ∈ allSeries metadata h tasksData ↔ IsSeries metadata h tasksData s := by
  rw [allSeries, List.mem_flatMap]
  constructor
  · rintro ⟨p, hp, hs⟩
    rw [measuredSeries, List.mem_flatMap] at hs
    obtain ⟨m, hm, hs⟩ := hs
    obtain ⟨x, hx, rfl⟩ := List.mem_map.mp hs
    exact ⟨Dict.get?_eq_some_iff.mpr hp, m.2, Dict.get?_eq_some_iff.mpr hm,
      mem_leavesBelow_iff.mp hx⟩
  · rintro ⟨hdata, node, hnode, hleaf⟩
    refine ⟨(s.task, s.data), Dict.get?_eq_some_iff.mp hdata, ?_⟩
    rw [measuredSeries, List.mem_flatMap]
    exact ⟨(s.metricName, node), Dict.get?_eq_some_iff.mp hnode,
      List.mem_map.mpr ⟨(s.path, s.node), mem_leavesBelow_iff.mpr hleaf, rfl⟩⟩

theorem nodup_allSeries : (allSeries metadata h tasksData).Nodup := by
  rw [allSeries, List.nodup_flatMap]
  refine ⟨fun p _ => ?_, ?_⟩
  · rw [measuredSeries, List.nodup_flatMap]
    refine ⟨fun m _ => nodup_leavesBelow.map fun x y heq => ?_, ?_⟩
    · injection heq with _ _ _ hpath hnode
      exact Prod.ext hpath hnode
    · refine (List.pairwise_map.mp p.2.measurements.nodup).imp fun hne => ?_
      refine List.disjoint_left.mpr fun x hx hy => ?_
      obtain ⟨y, -, rfl⟩ := List.mem_map.mp hx
      obtain ⟨z, -, heq⟩ := List.mem_map.mp hy
      injection heq with _ _ hname _ _
      exact hne hname.symm
  · refine (List.pairwise_map.mp tasksData.nodup).imp fun hne => ?_
    refine List.disjoint_left.mpr fun x hx hy => ?_
    obtain ⟨m, -, hx⟩ := List.mem_flatMap.mp hx
    obtain ⟨m', -, hy⟩ := List.mem_flatMap.mp hy
    obtain ⟨y, -, rfl⟩ := List.mem_map.mp hx
    obtain ⟨z, -, heq⟩ := List.mem_map.mp hy
    injection heq with htask _ _ _ _
    exact hne htask.symm

end Build

/-! ## The labels of a task -/

section TaskIds

variable {taskLabelGenerators : Dict String TaskLabelGenerator} {task : Task}

/-- A label that a task has is not generated. -/
theorem get?_generateLabel {p : String × TaskLabelGenerator} {k v : String}
    (hv : task.labels.get? k = some v) : (task.generateLabel p).labels.get? k = some v := by
  rw [Task.generateLabel]
  split
  · exact hv
  · next hp =>
    have hne : k ≠ p.1 := fun heq => hp (heq ▸ Dict.mem_keys_iff_get?.mpr ⟨v, hv⟩)
    split
    · exact hv
    · rw [Dict.get?_set_of_ne hne]
      exact hv

theorem taskId_generateLabel {p : String × TaskLabelGenerator} :
    (task.generateLabel p).taskId = task.taskId := by
  rw [Task.generateLabel]
  split
  · rfl
  · split <;> rfl

/-- Whatever the generators are, a task keeps its id, as a label too. -/
theorem taskId_appendAdditionalLabels :
    (task.appendAdditionalLabels taskLabelGenerators).taskId = task.taskId ∧
      (task.appendAdditionalLabels taskLabelGenerators).labels.get? "task_id" =
        some task.taskId := by
  suffices hfold : ∀ (generators : List (String × TaskLabelGenerator)) (task : Task) (id : TaskId),
      task.taskId = id ∧ task.labels.get? "task_id" = some id →
        (generators.foldl Task.generateLabel task).taskId = id ∧
          (generators.foldl Task.generateLabel task).labels.get? "task_id" = some id by
    refine hfold taskLabelGenerators.items _ _ ⟨rfl, ?_⟩
    rw [Dict.get?_set_of_ne (by decide), Dict.get?_set_self]
  intro generators
  induction generators with
  | nil => exact fun _ _ hid => hid
  | cons p generators ih =>
    intro task id hid
    exact ih _ id ⟨taskId_generateLabel.trans hid.1, get?_generateLabel hid.2⟩

theorem exists_task_of_mem_tasksData {measurements : Task → Dict Key Node} {tasks : List Task}
    {p : TaskId × TaskData} (hp : p ∈ (prepareTasksData measurements
      (appendAdditionalLabelsToTasks taskLabelGenerators tasks)).items) :
    ∃ task ∈ appendAdditionalLabelsToTasks taskLabelGenerators tasks,
      p.2 = ⟨task.labels, measurements task⟩ ∧ task.labels.get? "task_id" = some p.1 := by
  have hmem := Dict.mem_of_get?_ofItems (Dict.get?_eq_some_iff.mpr hp)
  obtain ⟨task, htask, heq⟩ := List.mem_map.mp hmem
  obtain ⟨hid, hdata⟩ := Prod.mk.inj heq
  refine ⟨task, htask, hdata.symm, ?_⟩
  obtain ⟨task', -, rfl⟩ := List.mem_map.mp htask
  rw [← hid, taskId_appendAdditionalLabels.1]
  exact taskId_appendAdditionalLabels.2

end TaskIds

/-! ## Distinct series -/

/-- A metric is that of a leaf: it has the labels of the levels above it. -/
structure KeepsLeaf (metadata : Dict MetricName MetricMetadata) (metric : Metric) (s : Series) :
    Prop where
  name : metric.name = s.metricName
  value : metric.value = s.node
  task : metric.labels.get? "task_id" = some s.task
  levels : ∀ p ∈ s.pairs metadata, metric.labels.get? p.1 = some (keyText p.2)

/-- Metrics that do not have the same name and labels. -/
def Metric.Differs (metric metric' : Metric) : Prop :=
  metric.name = metric'.name → ∃ label, metric.labels.get? label ≠ metric'.labels.get? label

instance : Std.Symm Metric.Differs where
  symm := fun _ _ hdiffers hname => (hdiffers hname.symm).imp fun _ => Ne.symm

/-- There is a metric for every leaf, and no two have the same name and labels. -/
structure Distinct (metadata : Dict MetricName MetricMetadata) (h : Store)
    (tasksData : Dict TaskId TaskData) (metrics : List Metric) : Prop where
  leaves : ∃ series : List Series, series.Nodup ∧
    (∀ s, s ∈ series ↔ IsSeries metadata h tasksData s) ∧
      List.Forall₂ (KeepsLeaf metadata) metrics series
  distinct : metrics.Pairwise Metric.Differs

/-- No label of a task says something else than a level of the same name, and no two leaves of a
metric have paths of the same texts. -/
structure Unambiguous (metadata : Dict MetricName MetricMetadata) (h : Store)
    (tasksData : Dict TaskId TaskData) : Prop where
  labels : ∀ s, IsSeries metadata h tasksData s → ∀ p ∈ s.pairs metadata, ∀ v,
    s.data.labels.get? p.1 = some v → v = keyText p.2
  texts : ∀ s s', IsSeries metadata h tasksData s → IsSeries metadata h tasksData s' →
    s.task = s'.task → s.metricName = s'.metricName →
      s.path.map keyText = s'.path.map keyText → s.path = s'.path

section Distinct

variable {metadata : Dict MetricName MetricMetadata} {h : Store} {tasksData : Dict TaskId TaskData}
  {s s' : Series}

theorem Series.get?_metric {label : String} :
    (s.metric metadata).labels.get? label =
      (s.data.labels.get? label).or ((labelsAlong ∅ (s.pairs metadata)).get? label) :=
  Dict.get?_update

theorem IsSeries.data_eq (hs : IsSeries metadata h tasksData s)
    (hs' : IsSeries metadata h tasksData s') (htask : s.task = s'.task) : s.data = s'.data := by
  have hdata := hs.data
  rw [htask, hs'.data] at hdata
  exact (Option.some.inj hdata).symm

/-- A leaf is where it is. -/
theorem IsSeries.ext (hs : IsSeries metadata h tasksData s)
    (hs' : IsSeries metadata h tasksData s') (htask : s.task = s'.task)
    (hname : s.metricName = s'.metricName) (hpath : s.path = s'.path) : s = s' := by
  have hdata := hs.data_eq hs' htask
  obtain ⟨node, hnode, -, hleaf⟩ := hs.leaf
  obtain ⟨node', hnode', -, hleaf'⟩ := hs'.leaf
  rw [hdata, hname, hnode'] at hnode
  cases hnode
  rw [hpath, hleaf'] at hleaf
  cases s
  cases s'
  simp_all

theorem Unambiguous.keepsLeaf (hunambiguous : Unambiguous metadata h tasksData)
    (hids : ∀ p ∈ tasksData.items, p.2.labels.get? "task_id" = some p.1)
    (hs : IsSeries metadata h tasksData s) : KeepsLeaf metadata (s.metric metadata) s where
  name := rfl
  value := rfl
  task := by
    rw [Series.get?_metric, hids _ (Dict.get?_eq_some_iff.mp hs.data)]
    rfl
  levels := fun p hp => by
    rw [Series.get?_metric, get?_labelsAlong (nodup_pairs s) hp]
    cases hv : s.data.labels.get? p.1 with
    | none => rfl
    | some v => rw [hunambiguous.labels s hs p hp v hv]; rfl

/-- Keys of the same texts all along. -/
theorem map_keyText_eq {levels : List String} {path path' : List Key}
    (hlevels : levels.Nodup) (hlength : path.length = levels.length)
    (hlength' : path'.length = levels.length) {labels : Dict String String}
    (hpath : ∀ p ∈ levels.zip path, labels.get? p.1 = some (keyText p.2))
    (hpath' : ∀ p ∈ levels.zip path', labels.get? p.1 = some (keyText p.2)) :
    path.map keyText = path'.map keyText := by
  induction levels generalizing path path' with
  | nil =>
    rw [List.length_eq_zero_iff.mp hlength, List.length_eq_zero_iff.mp hlength']
  | cons level levels ih =>
    cases path with
    | nil => cases hlength
    | cons k path =>
      cases path' with
      | nil => cases hlength'
      | cons k' path' =>
        rw [List.zip_cons_cons, List.forall_mem_cons] at hpath hpath'
        have hk := Option.some.inj (hpath.1.symm.trans hpath'.1)
        rw [List.map_cons, List.map_cons, hk, ih hlevels.of_cons (Nat.succ.inj hlength)
          (Nat.succ.inj hlength') hpath.2 hpath'.2]

theorem Unambiguous.distinct (hunambiguous : Unambiguous metadata h tasksData)
    (hids : ∀ p ∈ tasksData.items, p.2.labels.get? "task_id" = some p.1) :
    Distinct metadata h tasksData
      ((allSeries metadata h tasksData).map (Series.metric metadata)) := by
  have hkeeps : ∀ s ∈ allSeries metadata h tasksData, KeepsLeaf metadata (s.metric metadata) s :=
    fun s hs => hunambiguous.keepsLeaf hids (mem_allSeries_iff.mp hs)
  refine ⟨⟨_, nodup_allSeries, fun s => mem_allSeries_iff, ?_⟩, ?_⟩
  · rw [List.forall₂_map_left_iff, List.forall₂_same]
    exact hkeeps
  · rw [List.pairwise_map]
    refine nodup_allSeries.pairwise_of_forall_ne fun s hs s' hs' hne hname => ?_
    have hleaf := mem_allSeries_iff.mp hs
    have hleaf' := mem_allSeries_iff.mp hs'
    by_contra hsame
    push Not at hsame
    -- all labels being the same, so are the task and the texts of the path
    have htask : s.task = s'.task := Option.some.inj
      ((hkeeps s hs).task.symm.trans ((hsame "task_id").trans (hkeeps s' hs').task))
    have hname : s.metricName = s'.metricName := hname
    obtain ⟨node, -, hlength, -⟩ := hleaf.leaf
    obtain ⟨node', -, hlength', -⟩ := hleaf'.leaf
    rw [← hname] at hlength'
    refine hne (hleaf.ext hleaf' htask hname (hunambiguous.texts s s' hleaf hleaf' htask hname
      (map_keyText_eq (nodup_levelNames _) hlength hlength' (hkeeps s hs).levels fun p hp => ?_)))
    rw [hsame]
    refine (hkeeps s' hs').levels p ?_
    rw [Series.pairs, ← hname]
    exact hp

theorem Distinct.unambiguous (hids : ∀ p ∈ tasksData.items, p.2.labels.get? "task_id" = some p.1)
    (hdistinct : Distinct metadata h tasksData
      ((allSeries metadata h tasksData).map (Series.metric metadata))) :
    Unambiguous metadata h tasksData := by
  obtain ⟨⟨series, -, hseries, hshows⟩, hdistinct⟩ := hdistinct
  refine ⟨fun s hs p hp v hv => ?_, fun s s' hs hs' htask hname htexts => ?_⟩
  · -- the metric of the leaf is that of a leaf of the same task
    obtain ⟨metric, hmetric, hkeeps⟩ := forall₂_exists_left hshows ((hseries s).mpr hs)
    obtain ⟨s', hs', rfl⟩ := List.mem_map.mp hmetric
    have hleaf' := mem_allSeries_iff.mp hs'
    have htask := hkeeps.task
    rw [Series.get?_metric, hids _ (Dict.get?_eq_some_iff.mp hleaf'.data), Option.some_or] at htask
    have hlabel := hkeeps.levels p hp
    rw [Series.get?_metric, hleaf'.data_eq hs (Option.some.inj htask), hv, Option.some_or] at hlabel
    exact Option.some.inj hlabel
  · by_contra hpath
    have hlabels : ∀ label, (s.metric metadata).labels.get? label =
        (s'.metric metadata).labels.get? label := by
      intro label
      rw [Series.get?_metric, Series.get?_metric, hs.data_eq hs' htask, Series.pairs, Series.pairs,
        hname, labelsAlong_congr htexts]
    have hpairwise : (allSeries metadata h tasksData).Pairwise fun s s' =>
        (s.metric metadata).Differs (s'.metric metadata) := List.pairwise_map.mp hdistinct
    have hsymm : Std.Symm fun s s' : Series => (s.metric metadata).Differs (s'.metric metadata) :=
      ⟨fun s s' => Std.Symm.symm (r := Metric.Differs) _ _⟩
    obtain ⟨label, hlabel⟩ := hpairwise.forall (mem_allSeries_iff.mpr hs)
      (mem_allSeries_iff.mpr hs') (fun heq => hpath (heq ▸ rfl)) hname
    exact hlabel (hlabels label)

/-- The series of tasks are distinct and keep the labels of their leaves just when no label of a task
says something else than a level of the same name, and the texts of the keys tell the leaves apart. -/
theorem series_distinct_iff (metadata : Dict MetricName MetricMetadata) (h : Store)
    (taskLabelGenerators : Dict String TaskLabelGenerator) (tasks : List Task)
    (measurements : Task → Dict Key Node)
    (hmeasured : ∀ task ∈ appendAdditionalLabelsToTasks taskLabelGenerators tasks,
      ∀ metricName node, (measurements task).get? metricName = some node →
        Within IsNum h (levelsOf metadata metricName) node (Set.Iio h.length)) :
    let tasksData := prepareTasksData measurements
      (appendAdditionalLabelsToTasks taskLabelGenerators tasks)
    (∃ metrics, buildTasksMetrics metadata h tasksData = .ok metrics ∧
      Distinct metadata h tasksData metrics) ↔ Unambiguous metadata h tasksData := by
  intro tasksData
  have hids : ∀ p ∈ tasksData.items, p.2.labels.get? "task_id" = some p.1 := by
    intro p hp
    obtain ⟨task, -, hdata, hid⟩ := exists_task_of_mem_tasksData hp
    rw [hdata]
    exact hid
  have hbuild : buildTasksMetrics metadata h tasksData =
      .ok ((allSeries metadata h tasksData).map (Series.metric metadata)) :=
    buildTasksMetrics_ok fun p hp => by
      obtain ⟨task, htask, hdata, -⟩ := exists_task_of_mem_tasksData hp
      rw [hdata]
      exact hmeasured task htask
  constructor
  · intro hdistinct
    obtain ⟨metrics, hmetrics, hdistinct⟩ := hdistinct
    rw [hbuild] at hmetrics
    cases hmetrics
    exact hdistinct.unambiguous hids
  · intro hunambiguous
    exact ⟨_, hbuild, hunambiguous.distinct hids⟩

/-- A task with pages on two nodes, that a user has labelled with a node. -/
def labelled : Task := ⟨"memcached", "t1", .ofItems [("numa_node", "0")]⟩

def pagesStore : Store := [.ofItems [(.int 0, .leaf (.num 10)), (.int 1, .leaf (.num 20))]]

def pages : Dict Key Node := .ofItems [(.str "task_mem_numa_pages", .ref 0)]

theorem within_pagesStore : ∀ metricName node, pages.get? metricName = some node →
    Within IsNum pagesStore (levelsOf METRICS_METADATA metricName) node
      (Set.Iio pagesStore.length) := by
  have hlevels : levelsOf METRICS_METADATA (.str "task_mem_numa_pages") = 1 := by decide +kernel
  intro metricName node hk
  have hmem : (metricName, node) ∈ [_] := Dict.get?_eq_some_iff.mp hk
  cases List.mem_singleton.mp hmem
  rw [hlevels]
  refine ⟨0, by decide, rfl, fun k w hw => ?_⟩
  have hmem : (k, w) ∈ [_, _] := Dict.get?_eq_some_iff.mp hw
  obtain ⟨rfl, rfl⟩ | ⟨rfl, rfl⟩ := by simpa using hmem
  · exact ⟨_, rfl, _, rfl⟩
  · exact ⟨_, rfl, _, rfl⟩

theorem series_distinct_iff_labelled :
    let tasksData := prepareTasksData (fun _ => pages) (appendAdditionalLabelsToTasks ∅ [labelled])
    (∃ metrics, buildTasksMetrics METRICS_METADATA pagesStore tasksData = .ok metrics ∧
      Distinct METRICS_METADATA pagesStore tasksData metrics) ↔
        Unambiguous METRICS_METADATA pagesStore tasksData :=
  series_distinct_iff METRICS_METADATA pagesStore ∅ [labelled] (fun _ => pages)
    fun _ _ => within_pagesStore

/-- Both series of the task say that they are of node 0. -/
theorem label_hides_level :
    let tasksData := prepareTasksData (fun _ => pages) (appendAdditionalLabelsToTasks ∅ [labelled])
    ∃ metrics, buildTasksMetrics METRICS_METADATA pagesStore tasksData = .ok metrics ∧
      ¬ Distinct METRICS_METADATA pagesStore tasksData metrics := by
  intro tasksData
  have hitems : ∀ p ∈ tasksData.items, p.2.labels.get? "task_id" = some p.1 ∧
      p.2.measurements = pages := by
    intro p hp
    obtain ⟨task, -, hdata, hid⟩ := exists_task_of_mem_tasksData hp
    rw [hdata]
    exact ⟨hid, rfl⟩
  have hbuild : buildTasksMetrics METRICS_METADATA pagesStore tasksData =
      .ok ((allSeries METRICS_METADATA pagesStore tasksData).map (Series.metric METRICS_METADATA)) :=
    buildTasksMetrics_ok fun p hp => (hitems p hp).2 ▸ within_pagesStore
  refine ⟨_, hbuild, fun hdistinct => ?_⟩
  have hunambiguous := hdistinct.unambiguous fun p hp => (hitems p hp).1
  have hnode : keyText (.int 1) = "0" := (hunambiguous.labels
    ⟨"t1", ⟨(labelled.appendAdditionalLabels ∅).labels, pages⟩, .str "task_mem_numa_pages",
      [.int 1], .leaf (.num 20)⟩ ⟨rfl, .ref 0, rfl, by decide +kernel, rfl⟩ ("numa_node", .int 1)
      (by decide +kernel) "0" (by decide +kernel)).symm
  exact absurd hnode (by decide +kernel)

end Distinct

end Wca.Metrics
