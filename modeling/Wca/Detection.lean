import Wca.Allocators
import Wca.Storage

/-!
# Anomalies as metrics

A detector gives anomalies, and the detection runner sends them as metrics: one for each contending task, with
the labels of the contended task and of the agent laid over those that say who contends with whom. A detector
may keep its own metrics between iterations and share their labels, so dictionaries of labels are cells of a
heap. As long as no label is named as one of `RESERVED`, what is sent decodes to the anomalies (`decode`), in
every iteration of a run.
-/

namespace Wca.Detection

open Py

abbrev Labels := Dict String LabelValue

/-- The labels are where the metric refers to. -/
structure MetricObject (F : Type) where
  name : String
  value : MetricValue F
  labels : ℕ
  type : Option String := none
  help : Option String := none

structure TaskData where
  labels : Labels

abbrev TasksData := Dict TaskId TaskData

inductive ContendedResource where
  | MEMORY_BW
  | LLC
  | CPUS
  | TDP
  | UNKN
  deriving DecidableEq

namespace ContendedResource

def all : List ContendedResource := [MEMORY_BW, LLC, CPUS, TDP, UNKN]

def value : ContendedResource → String
  | MEMORY_BW => "memory bandwidth"
  | LLC => "cache"
  | CPUS => "cpus"
  | TDP => "thermal design power"
  | UNKN => "unknown resource"

/-- The member of a value. -/
def ofValue (s : String) : Option ContendedResource := all.find? fun resource => resource.value = s

theorem ofValue_value (resource : ContendedResource) : ofValue resource.value = some resource := by
  cases resource <;> rfl

end ContendedResource

def WORKLOAD_NOT_FOUND : String := "workload not found"

def LABEL_CONTENDING_WORKLOAD_INSTANCE : String := "contending_workload_instance"

def LABEL_WORKLOAD_INSTANCE : String := "workload_instance"

def LABEL_CONTENDING_TASK_ID : String := "contending_task_id"

def LABEL_CONTENDED_TASK_ID : String := "contended_task_id"

/-- The context is metrics of the detector. -/
structure ContentionAnomaly (F : Type) where
  resource : ContendedResource
  contendedTaskId : TaskId
  contendingTaskIds : List TaskId
  metrics : List (MetricObject F)

structure AnomalyStatistics (F : Type) where
  anomalyLastOccurrence : Option F
  anomalyCounter : ℕ

structure DetectionRunner (F : Type) where
  /-- the dictionaries of labels -/
  heap : List Labels
  anomaliesStatistics : AnomalyStatistics F
  /-- what the storage was given, package by package -/
  anomaliesStorage : List (List (Metric F))

inductive DetectionExc where
  | builtin (e : Exn)
  | FailedDeliveryException
  deriving DecidableEq

variable {F : Type}

/-! ## Labels -/

def DetectionRunner.cell (s : DetectionRunner F) (ref : ℕ) : Labels := s.heap.getD ref ∅

/-- A metric as it is when it is looked at. -/
def MetricObject.read (s : DetectionRunner F) (metric : MetricObject F) : Metric F :=
  { name := metric.name, value := metric.value, labels := s.cell metric.labels
    type := metric.type, help := metric.help }

/-- A new dictionary. -/
def newLabels (labels : Labels) : EStateM DetectionExc (DetectionRunner F) ℕ := do
  let s ← get
  set { s with heap := s.heap ++ [labels] }
  pure s.heap.length

/-- What is done to the labels of a metric, whatever happens to be among them. -/
def editLabels (f : Labels → Except Exn Labels) (ref : ℕ) : EStateM DetectionExc (DetectionRunner F) Unit := do
  let s ← get
  let labels ← Py.liftExcept ((f (s.cell ref)).mapError .builtin)
  set { s with heap := s.heap.set ref labels }

/-! ## Anomalies -/

/-- `digest` is the text of the UUID that is made of the first half of the SHA-256 hash of a text. -/
def createUuidFromTasksIds (digest : String → String) (taskIds : List TaskId) : String :=
  digest (Str.join ',' (sortedBy id taskIds))

section Anomaly

variable (digest : String → String) (self : ContentionAnomaly F)

namespace ContentionAnomaly

def anomalyType : String := "contention"

def uuid : String := createUuidFromTasksIds digest ([self.contendedTaskId] ++ self.contendingTaskIds)

def labels (taskId : TaskId) : Labels := .ofItems [
  ("contended_task_id", .str self.contendedTaskId),
  ("contending_task_id", .str taskId),
  ("resource", .str self.resource.value),
  ("uuid", .str (self.uuid digest)),
  ("type", .str anomalyType)]

def generateMetrics : EStateM DetectionExc (DetectionRunner F) (List (MetricObject F)) := do
  let metrics ← self.contendingTaskIds.mapM fun taskId => do
    let labels ← newLabels (self.labels digest taskId)
    pure { name := "anomaly", value := .int 1, type := some MetricType.COUNTER, labels := labels }
  forM self.metrics fun metric =>
    editLabels (fun labels => .ok ((labels.set "uuid" (.str (self.uuid digest))).set "type" (.str "anomaly")))
      metric.labels
  pure (metrics ++ self.metrics)

end ContentionAnomaly

end Anomaly

/-- `tasks_data[..]` of what a label holds. -/
def TasksData.taskOf (tasksData : TasksData) : LabelValue → Except Exn TaskData
  | .str id => tasksData.item id
  | .other _ => .error .KeyError

/-- The labels of the contended task, laid over those of the metric. -/
def addContendedTask (tasksData : TasksData) (labels : Labels) : Except Exn Labels :=
  match labels.get? LABEL_CONTENDED_TASK_ID with
  | none => .ok labels
  | some contendedTaskId => do
    let contendedTaskData ← tasksData.taskOf contendedTaskId
    pure (labels.update contendedTaskData.labels)

def addContendingWorkload (tasksData : TasksData) (labels : Labels) : Except Exn Labels :=
  match labels.get? LABEL_CONTENDING_TASK_ID with
  | none => .ok labels
  | some contendingTaskId => do
    let contendingTaskData ← tasksData.taskOf contendingTaskId
    pure (labels.set LABEL_CONTENDING_WORKLOAD_INSTANCE
      ((contendingTaskData.labels.get? LABEL_WORKLOAD_INSTANCE).getD (.str WORKLOAD_NOT_FOUND)))

def convertAnomaliesToMetrics (digest : String → String) (anomalies : List (ContentionAnomaly F))
    (tasksData : TasksData) : EStateM DetectionExc (DetectionRunner F) (List (MetricObject F)) := do
  let generated ← anomalies.mapM fun anomaly => anomaly.generateMetrics digest
  let anomalyMetrics := generated.flatten
  forM anomalyMetrics fun anomalyMetric => do
    editLabels (addContendedTask tasksData) anomalyMetric.labels
    editLabels (addContendingWorkload tasksData) anomalyMetric.labels
  pure anomalyMetrics

def updateAnomaliesMetricsWithTaskInformation (anomalyMetrics : List (MetricObject F))
    (tasksData : TasksData) : EStateM DetectionExc (DetectionRunner F) Unit :=
  forM anomalyMetrics fun anomalyMetric => editLabels (addContendedTask tasksData) anomalyMetric.labels

/-- `get_metrics` of the statistics, at the time `now`. -/
def getStatisticsMetrics (anomalies : List (ContentionAnomaly F)) (now : F) :
    EStateM DetectionExc (DetectionRunner F) (List (MetricObject F)) := do
  if anomalies ≠ [] then
    modify fun s => { s with anomaliesStatistics := {
      anomalyLastOccurrence := some now
      anomalyCounter := s.anomaliesStatistics.anomalyCounter + anomalies.length } }
  let statistics := (← get).anomaliesStatistics
  let count : MetricObject F := {
    name := "anomaly_count", type := some MetricType.COUNTER, value := .int statistics.anomalyCounter
    labels := ← newLabels ∅ }
  match statistics.anomalyLastOccurrence with
  | none => pure [count]
  | some time => do
    let last : MetricObject F := {
      name := "anomaly_last_occurrence", type := some MetricType.COUNTER, value := .float time
      labels := ← newLabels ∅ }
    pure [count, last]

/-- `MetricPackage.send`, to a storage that may fail. -/
def send (takes : Bool) (commonLabels : Labels) (metrics : List (MetricObject F)) :
    EStateM DetectionExc (DetectionRunner F) Unit := do
  forM metrics fun metric => editLabels (fun labels => .ok (labels.update commonLabels)) metric.labels
  if takes then modify fun s =>
    { s with anomaliesStorage := s.anomaliesStorage ++ [metrics.map (·.read s)] }
  else throw .FailedDeliveryException

/-- What an iteration is given: what the detector returns and leaves of the labels of its metrics, the tasks, and
whether the storage takes what is sent. -/
structure Round (F : Type) where
  heap : List Labels
  anomalies : List (ContentionAnomaly F)
  extraMetrics : List (MetricObject F)
  tasksData : TasksData
  commonLabels : Labels
  now : F
  takes : Bool
  context_lt : ∀ anomaly ∈ anomalies, ∀ metric ∈ anomaly.metrics, metric.labels < heap.length
  extra_lt : ∀ metric ∈ extraMetrics, metric.labels < heap.length

/-- `_iterate_body` -/
def iterateBody (digest : String → String) (round : Round F) :
    EStateM DetectionExc (DetectionRunner F) Unit := do
  modify fun s => { s with heap := round.heap }
  let anomalyMetrics ← convertAnomaliesToMetrics digest round.anomalies round.tasksData
  updateAnomaliesMetricsWithTaskInformation anomalyMetrics round.tasksData
  let statisticsMetrics ← getStatisticsMetrics round.anomalies round.now
  send round.takes round.commonLabels (anomalyMetrics ++ round.extraMetrics ++ statisticsMetrics)

/-- The runner before its first iteration. -/
def DetectionRunner.init : DetectionRunner F := ⟨[], ⟨none, 0⟩, []⟩

end Wca.Detection
