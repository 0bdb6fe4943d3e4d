import Wca.Py.Str
import Wca.Py.Dict
import Wca.Py.Sort

/-!
# Metrics as text, and the text in messages

Storages write metrics in the Prometheus exposition format: the check that comes first
(`isConvertableToPrometheusExpositionFormat`), the grouping by name with its natural sort of the
labels (`groupMetricsByName`), the text itself (`convertToPrometheusExpositionFormat`), and the
division of a long text into Kafka messages (`KafkaStorage.divideMessage`). A float is a value of an
arbitrary type `F` with its `repr`.
-/

namespace Wca

open Py

/-! ## Metrics -/

/-- The value of a metric, by its type. A bool is an `int` for `isinstance`, and an instance of a
subclass of `float` is a `float` for `isinstance` but not for `type(..) ==`. -/
inductive MetricValue (F : Type) where
  | int (n : ℤ)
  | bool (b : Bool)
  | float (f : F)
  | floatSubclass (f : F)
  | other (type : String)
  deriving DecidableEq

inductive LabelValue where
  | str (s : String)
  | other (type : String)
  deriving DecidableEq

structure Metric (F : Type) where
  name : String
  value : MetricValue F
  labels : Dict String LabelValue := ∅
  type : Option String := none
  help : Option String := none
  deriving DecidableEq

namespace MetricType

def GAUGE : String := "gauge"

def COUNTER : String := "counter"

end MetricType

/-! ## The check -/

/-- `$` also stands before a line feed that ends the text. -/
def dropFinalNewline (cs : List Char) : List Char :=
  if cs.getLast? = some '\n' then cs.dropLast else cs

/-- `^[first][rest]*$`. -/
def matchesName (first rest : Char → Bool) (s : String) : Bool :=
  match dropFinalNewline s.toList with
  | c :: cs => first c && cs.all rest
  | [] => false

def isAsciiLetter (c : Char) : Bool := ('a' ≤ c && c ≤ 'z') || ('A' ≤ c && c ≤ 'Z')

def isNameStart (c : Char) : Bool := isAsciiLetter c || c == '_' || c == ':'

def isNameChar (c : Char) : Bool := isNameStart c || c.isDigit

def isLabelNameStart (c : Char) : Bool := isAsciiLetter c || c == '_'

def isLabelNameChar (c : Char) : Bool := isLabelNameStart c || c.isDigit

/-- `_METRIC_NAME_RE.match`. -/
def metricNameMatches (s : String) : Bool := matchesName isNameStart isNameChar s

/-- `_METRIC_LABEL_NAME_RE.match`. -/
def metricLabelNameMatches (s : String) : Bool := matchesName isLabelNameStart isLabelNameChar s

/-- `_RESERVED_METRIC_LABEL_NAME_RE.match`, that is `^__.*$`. -/
def reservedMetricLabelNameMatches (s : String) : Bool :=
  Str.startsWith "__" s && (dropFinalNewline (s.toList.drop 2)).all (· ≠ '\n')

/-- Why metrics are not convertible, with what the message names. -/
inductive Inconvertible where
  | wrongMetricName (name : String)
  | labelNotStr (key name type : String)
  | wrongLabelName (key name : String)
  | reservedLabelName (key name : String)
  | wrongMetricType (type : String)
  | wrongValueType (type name : String)
  deriving DecidableEq

variable {F : Type}

def checkLabel (name : String) (label : String × LabelValue) : Option Inconvertible :=
  match label.2 with
  | .other type => some (.labelNotStr label.1 name type)
  | .str _ =>
    if !metricLabelNameMatches label.1 then some (.wrongLabelName label.1 name)
    else if reservedMetricLabelNameMatches label.1 then some (.reservedLabelName label.1 name)
    else none

def checkType (type : Option String) : Option Inconvertible :=
  match type with
  | none => none
  | some type =>
    if type ≠ MetricType.GAUGE ∧ type ≠ MetricType.COUNTER then some (.wrongMetricType type) else none

def checkValue (metric : Metric F) : Option Inconvertible :=
  match metric.value with
  | .other type => some (.wrongValueType type metric.name)
  | _ => none

def checkMetric (metric : Metric F) : Option Inconvertible :=
  if !metricNameMatches metric.name then some (.wrongMetricName metric.name)
  else
    metric.labels.items.findSome? (checkLabel metric.name) <|>
      checkType metric.type <|> checkValue metric

/-- The first reason against the metrics; none where they are convertible. -/
def isConvertableToPrometheusExpositionFormat (metrics : List (Metric F)) : Option Inconvertible :=
  metrics.findSome? checkMetric

/-! ## Grouping -/

/-- A label value in the natural sort. -/
inductive Natural where
  | int (n : ℤ)
  | str (s : String)
  deriving DecidableEq

/-- `int(v) if v.isdigit() else v`. -/
def naturalValue : LabelValue → Except Exn Natural
  | .other type => .error (.AttributeError ("'" ++ type ++ "' object has no attribute 'isdigit'"))
  | .str v =>
    if Str.isdigit v then (Str.int 10 v).map .int
    else .ok (.str v)

abbrev NaturalLabels := List (String × Natural)

/-- The keys of a dictionary differ, so the sort never comes to the values. -/
def labelsConversionWithNaturalSort (labels : Dict String LabelValue) : Except Exn NaturalLabels := do
  let converted ← labels.items.mapM fun label => (naturalValue label.2).map fun v => (label.1, v)
  pure (sortedBy Prod.fst converted)

/-- `a < b`; a number and a text have no order. -/
def Natural.lt? : Natural → Natural → Option Bool
  | .int n, .int n' => some (n < n')
  | .str s, .str s' => some (s < s')
  | .int _, .str _ => none
  | .str _, .int _ => none

/-- `a < b` for two lists of pairs. -/
def NaturalLabels.lt? : NaturalLabels → NaturalLabels → Option Bool
  | [], [] => some false
  | [], _ :: _ => some true
  | _ :: _, [] => some false
  | (k, v) :: labels, (k', v') :: labels' =>
    if k ≠ k' then some (k < k')
    else if v = v' then NaturalLabels.lt? labels labels'
    else Natural.lt? v v'

/-- Any two of the keys can be compared. -/
def AllComparable (keys : List NaturalLabels) : Prop :=
  keys.Pairwise fun a b => (NaturalLabels.lt? a b).isSome

instance (keys : List NaturalLabels) : Decidable (AllComparable keys) :=
  inferInstanceAs (Decidable (List.Pairwise _ _))

/-- Sorting comes to compare two neighbours of its result, so it raises where two keys have no
order. -/
def sortedByLabels (metrics : List (Metric F)) : Except Exn (List (Metric F)) := do
  let keyed ← metrics.mapM fun metric =>
    (labelsConversionWithNaturalSort metric.labels).map fun key => (key, metric)
  if AllComparable (keyed.map Prod.fst) then
    pure ((keyed.insertionSort fun a b => NaturalLabels.lt? b.1 a.1 ≠ some true).map Prod.snd)
  else
    throw (.TypeError "'<' not supported between instances of 'str' and 'int'")

/-- Group metrics with the same name to expose meta information only once. -/
def groupMetricsByName (metrics : List (Metric F)) : Except Exn (List (String × List (Metric F))) :=
  (groupby Metric.name (sortedBy Metric.name metrics)).mapM fun group =>
    (sortedByLabels group.2).map fun groupedMetrics => (group.1, groupedMetrics)

/-! ## The text -/

def escapeHelp (help : String) : String :=
  Str.replace '\n' "\\n" (Str.replace '\\' "\\\\" help)

def escapeLabelValue (v : String) : String :=
  Str.replace '"' "\\\"" (Str.replace '\n' "\\n" (Str.replace '\\' "\\\\" v))

/-- The lines before the samples of a group, and the separator for the next group. -/
def metaLines (n : ℕ) (firstMetric : Metric F) (groupSeparator : String) : List String × String :=
  let help := firstMetric.help.getD ""
  let type := firstMetric.type.getD ""
  let groupSeparator :=
    if truthy firstMetric.help then (if n > 0 then "\n" else "") else groupSeparator
  let helpLines :=
    if truthy firstMetric.help then
      [groupSeparator ++ "# HELP " ++ firstMetric.name ++ " " ++ escapeHelp help ++ "\n"]
    else []
  let typeLines :=
    if truthy firstMetric.type then ["# TYPE " ++ firstMetric.name ++ " " ++ type ++ "\n"] else []
  if ¬truthy firstMetric.help ∧ ¬truthy firstMetric.type then ([groupSeparator], groupSeparator)
  else (helpLines ++ typeLines, "")

/-- `k="v"` with the value escaped. -/
def labelText (label : String × LabelValue) : Except Exn String :=
  match label.2 with
  | .str v => .ok (label.1 ++ "=\"" ++ escapeLabelValue v ++ "\"")
  | .other type => .error (.AttributeError ("'" ++ type ++ "' object has no attribute 'replace'"))

/-- The labels in braces; nothing where there are none. -/
def labelStr (filterLabels : Option (List String)) (labels : Dict String LabelValue) :
    Except Exn String := do
  let kept := (sortedBy Prod.fst labels.items).filter fun label =>
    match filterLabels with
    | none => true
    | some filterLabels => label.1 ∈ filterLabels
  let texts ← kept.mapM labelText
  pure (if texts = [] then "" else "\x7b" ++ Str.join ',' texts ++ "\x7d")

variable (repr : F → String)

/-- A float by its `repr`, and `str` of the rest. -/
def valueStr : MetricValue F → Except Exn String
  | .float f => .ok (repr f)
  | .int n => .ok (toString n)
  | .bool b => .ok (if b then "True" else "False")
  | .floatSubclass _ => .error (.AssertionError "")
  | .other _ => .error (.AssertionError "")

/-- One line, with a timestamp if there is one. -/
def sampleText (timestamp : Option String) (name label value : String) : String :=
  match timestamp with
  | some timestamp => name ++ label ++ " " ++ value ++ " " ++ timestamp ++ "\n"
  | none => name ++ label ++ " " ++ value ++ "\n"

def sampleLine (timestamp : Option String) (filterLabels : Option (List String))
    (metric : Metric F) : Except Exn String := do
  let label ← labelStr filterLabels metric.labels
  let value ← valueStr repr metric.value
  pure (sampleText timestamp metric.name label value)

def assertAll (metrics : List (Metric F)) (p : Metric F → Bool) (msg : String) : Except Exn Unit :=
  if metrics.all p then .ok () else .error (.AssertionError msg)

/-- All metrics with the same name have the same metadata. -/
def assertMetadata (metricName : String) (firstMetric : Metric F) (metrics : List (Metric F)) :
    Except Exn Unit := do
  assertAll metrics (·.type = firstMetric.type) ("improper type for " ++ metricName)
  assertAll metrics (·.help = firstMetric.help) ("improper help for " ++ metricName)

/-- The output of one group, and the separator for the next one. -/
def convertGroup (timestamp : Option String) (filterLabels : Option (List String)) (n : ℕ)
    (group : String × List (Metric F)) (groupSeparator : String) :
    Except Exn (List String × String) :=
  match group.2 with
  | [] => .error (.IndexError "list index out of range")
  | firstMetric :: _ => do
    assertMetadata group.1 firstMetric group.2
    let samples ← group.2.mapM (sampleLine repr timestamp filterLabels)
    let (output, groupSeparator) := metaLines n firstMetric groupSeparator
    pure (output ++ samples, groupSeparator)

theorem assertAll_ok_iff {metrics : List (Metric F)} {p : Metric F → Bool} {msg : String} :
    assertAll metrics p msg = .ok () ↔ ∀ metric ∈ metrics, p metric = true := by
  rw [assertAll, ← List.all_eq_true]
  split
  · case isTrue h => exact iff_of_true rfl h
  · case isFalse h => exact iff_of_false (fun he => by cases he) h

theorem assertMetadata_ok_iff {metricName : String} {firstMetric : Metric F}
    {metrics : List (Metric F)} :
    assertMetadata metricName firstMetric metrics = .ok () ↔
      ∀ metric ∈ metrics, metric.type = firstMetric.type ∧ metric.help = firstMetric.help := by
  rw [assertMetadata, except_seq_ok_iff, assertAll_ok_iff, assertAll_ok_iff]
  simp only [decide_eq_true_eq]
  exact forall₂_and.symm

variable {repr} in
theorem convertGroup_ok_iff {timestamp : Option String} {filterLabels : Option (List String)} {n : ℕ}
    {metricName : String} {firstMetric : Metric F} {metrics : List (Metric F)}
    {groupSeparator : String} {result : List String × String} :
    convertGroup repr timestamp filterLabels n (metricName, firstMetric :: metrics) groupSeparator =
        .ok result ↔
      (∀ metric ∈ firstMetric :: metrics,
        metric.type = firstMetric.type ∧ metric.help = firstMetric.help) ∧
      ∃ samples, (firstMetric :: metrics).mapM (sampleLine repr timestamp filterLabels) = .ok samples ∧
        ((metaLines n firstMetric groupSeparator).1 ++ samples,
          (metaLines n firstMetric groupSeparator).2) = result := by
  rw [convertGroup, except_seq_ok_iff, assertMetadata_ok_iff, except_bind_ok_iff]
  refine and_congr_right fun _ => exists_congr fun samples => and_congr_right fun _ => ?_
  exact ⟨Except.ok.inj, congrArg Except.ok⟩

/-- The groups from the `n`-th on. -/
def convertGroups (timestamp : Option String) (filterLabels : Option (List String)) :
    ℕ → String → List (String × List (Metric F)) → Except Exn (List String)
  | _, _, [] => pure []
  | n, groupSeparator, group :: groups => do
    let (output, groupSeparator) ← convertGroup repr timestamp filterLabels n group groupSeparator
    let rest ← convertGroups timestamp filterLabels (n + 1) groupSeparator groups
    pure (output ++ rest)

/-- Convert metrics to the prometheus format. -/
def convertToPrometheusExpositionFormat (metrics : List (Metric F)) (timestamp : Option String)
    (filterLabels : Option (List String)) : Except Exn String := do
  let groupedMetrics ← groupMetricsByName metrics
  let output ← convertGroups repr timestamp filterLabels 0 "" groupedMetrics
  pure (String.join output)

/-! ## Messages -/

namespace KafkaStorage

def MAX_SIZE : ℕ := 10 ^ 5

/-- `sys.getsizeof`: the length of a text after the size of an empty one. -/
def getsizeof (overhead : ℕ) (s : String) : ℕ := s.length + overhead

/-- From a line on: the lines that start with `#` and the first that does not. -/
def newMetric : List String → Except Exn String
  | [] => .error (.IndexError "list index out of range")
  | line :: message =>
    if Str.startsWith "#" line then (newMetric message).map fun rest => line ++ "\n" ++ rest
    else .ok (line ++ "\n")

/-- The loop from one line on, with what is divided so far and the text that is not yet added to
it. The `i` that the inner loop advances is set again by the next round of the outer one. -/
def divideLines (overhead : ℕ) :
    List String → List String → String → Except Exn (List String × String)
  | [], devidedMessage, newMessage => pure (devidedMessage, newMessage)
  | line :: message, devidedMessage, newMessage => do
    let metric ← newMetric (line :: message)
    if getsizeof overhead (newMessage ++ metric) > MAX_SIZE ∧ newMessage ≠ "" then
      divideLines overhead message (devidedMessage ++ [newMessage]) metric
    else
      divideLines overhead message devidedMessage (newMessage ++ metric)

/-- Too big messages need to be divided into smaller chunks. -/
def divideMessage (overhead : ℕ) (msg : String) : Except Exn (List String) :=
  if getsizeof overhead msg < MAX_SIZE then .ok [msg]
  else (divideLines overhead (Str.split '\n' msg) [] "").map Prod.fst

end KafkaStorage

end Wca
