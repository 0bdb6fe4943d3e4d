import Wca.Grouping
import Wca.Prometheus

/-!
# The text is the metrics

The text that `convertToPrometheusExpositionFormat` makes of metrics that the check accepts, read by
the rules of the format (`Prometheus.parse`). `exposition_roundTrips_iff` says for which metrics it is
made and gives back exactly their names, labels and values.
-/

namespace Wca

open Py

/-! ## Floats as text -/

/-- A type of floats: how they are written (`repr`), how a reader of the format reads the text of a
value (`read`), and which float is equal to an integer, if one is. -/
structure FloatText (F : Type) where
  repr : F → String
  read : String → Option F
  ofInt : ℤ → Option F
  repr_ne : ∀ f, repr f ≠ ""
  repr_chars : ∀ f, ∀ c ∈ (repr f).toList, Prometheus.isNumeralChar c = true
  read_repr : ∀ f, read (repr f) = some f
  read_int : ∀ n f, ofInt n = some f → read (toString n) = some f
  read_bool : ∀ b : Bool, read (if b then "True" else "False") = none

variable {F : Type}

/-- The float that is equal to a value. -/
def MetricValue.exact (floats : FloatText F) : MetricValue F → Option F
  | .int n => floats.ofInt n
  | .bool b => floats.ofInt (if b then 1 else 0)
  | .float f => some f
  | .floatSubclass f => some f
  | .other _ => none

/-- The groups that a reader finds in a text are the metrics: each name once, with its help (whose
leading blanks the format does not keep) and its type before its samples, and for all samples the
names, labels and values of the metrics. -/
structure Exposes (floats : FloatText F) (metrics : List (Metric F)) (timestamp : Option ℤ)
    (families : List (Prometheus.Family F)) : Prop where
  nodup : (families.map Prometheus.Family.name).Nodup
  samples : List.Perm
    ((families.flatMap Prometheus.Family.samples).map fun sample =>
      (sample.name, sortedBy Prod.fst (sample.labels.map fun label => (label.1, LabelValue.str label.2)),
        some sample.value))
    (metrics.map fun metric =>
      (metric.name, sortedBy Prod.fst metric.labels.items, metric.value.exact floats))
  metadata : ∀ family ∈ families, ∀ metric ∈ metrics, metric.name = family.name →
    family.help = (metric.help.filter (· ≠ "")).map (fun help =>
      .ofList (Prometheus.skipBlanks help.toList)) ∧ family.type = metric.type
  own : ∀ family ∈ families, ∀ sample ∈ family.samples,
    sample.name = family.name ∧ sample.timestamp = timestamp

/-- The text is made, and it reads as the metrics. -/
def RoundTrips (floats : FloatText F) (metrics : List (Metric F)) (timestamp : Option ℤ) : Prop :=
  ∃ text, convertToPrometheusExpositionFormat floats.repr metrics (timestamp.map toString) none =
      .ok text ∧
    ∃ families, Prometheus.parse floats.read text = some families ∧
      Exposes floats metrics timestamp families

/-! ## What the check accepts -/

/-- `$` also accepts a name with one line feed after it. -/
theorem matchesName_iff {first rest : Char → Bool} (hfirst : first '\n' = false)
    (hrest : rest '\n' = false) {s : String} :
    matchesName first rest s = true ↔
      ∃ base, Prometheus.IsName first rest base ∧ (s.toList = base ∨ s.toList = base ++ ['\n']) := by
  have hname : ∀ cs : List Char, dropFinalNewline s.toList = cs →
      (matchesName first rest s = true ↔ Prometheus.IsName first rest cs) := by
    intro cs hcs
    rw [matchesName, hcs]
    cases cs with
    | nil =>
      refine iff_of_false Bool.false_ne_true fun h => ?_
      obtain ⟨c, cs, heq, -⟩ := h
      cases heq
    | cons c cs =>
      simp only [Bool.and_eq_true, List.all_eq_true]
      constructor
      · intro h
        exact ⟨c, cs, rfl, h.1, h.2⟩
      · rintro ⟨d, ds, heq, hd, hds⟩
        cases heq
        exact ⟨hd, hds⟩
  constructor
  · intro h
    refine ⟨dropFinalNewline s.toList, (hname _ rfl).mp h, ?_⟩
    unfold dropFinalNewline
    split
    · case isTrue hlast => exact .inr (List.dropLast_append_getLast? _ hlast).symm
    · exact .inl rfl
  · rintro ⟨base, hbase, heq⟩
    apply (hname base ?_).mpr hbase
    rcases heq with heq | heq
    · rw [dropFinalNewline, heq, if_neg]
      intro hlast
      obtain ⟨c, cs, rfl, hc, hcs⟩ := hbase
      rcases List.mem_cons.mp (List.mem_of_getLast? hlast) with h | h
      · rw [← h, hfirst] at hc
        cases hc
      · have hc := hcs _ h
        rw [hrest] at hc
        cases hc
    · rw [dropFinalNewline, heq, List.getLast?_concat, if_pos rfl, List.dropLast_concat]

/-- A metric that passed the check. -/
structure AcceptedMetric (metric : Metric F) : Prop where
  name : metricNameMatches metric.name = true
  labels : ∀ label ∈ metric.labels.items, (∃ v, label.2 = .str v) ∧ metricLabelNameMatches label.1 = true
  type : ∀ type, metric.type = some type → type = MetricType.GAUGE ∨ type = MetricType.COUNTER
  value : ∀ type, metric.value ≠ .other type

theorem accepted_of_check {metric : Metric F} (h : checkMetric metric = none) : AcceptedMetric metric := by
  unfold checkMetric at h
  split at h
  · cases h
  · case isFalse hname =>
    cases hlabels : metric.labels.items.findSome? (checkLabel metric.name) with
    | some reason =>
      rw [hlabels] at h
      cases h
    | none =>
      rw [hlabels] at h
      cases htype : checkType metric.type with
      | some reason =>
        rw [htype] at h
        cases h
      | none =>
        rw [htype] at h
        have hvalue : checkValue metric = none := h
        refine ⟨by simpa using hname, fun label hlabel => ?_, fun type heq => ?_, fun type heq => ?_⟩
        · have hlabel := List.findSome?_eq_none_iff.mp hlabels label hlabel
          unfold checkLabel at hlabel
          split at hlabel
          · cases hlabel
          · case h_2 v heq =>
            refine ⟨⟨v, heq⟩, ?_⟩
            split at hlabel
            · cases hlabel
            · case isFalse hkey => simpa using hkey
        · rw [heq, checkType] at htype
          by_contra hn
          rw [not_or] at hn
          rw [if_pos hn] at htype
          cases htype
        · rw [checkValue, heq] at hvalue
          cases hvalue

theorem accepted_of_convertable {metrics : List (Metric F)}
    (h : isConvertableToPrometheusExpositionFormat metrics = none) :
    ∀ metric ∈ metrics, AcceptedMetric metric := by
  intro metric hmetric
  exact accepted_of_check (List.findSome?_eq_none_iff.mp h metric hmetric)

/-! ## The lines of the text -/

theorem escapeLabelValue_toList (v : String) :
    (escapeLabelValue v).toList = Prometheus.escape true v := by
  rw [escapeLabelValue, Str.toList_replace, Str.toList_replace, Str.toList_replace,
    Prometheus.escape, List.flatMap_assoc, List.flatMap_assoc]
  refine congrArg (List.flatMap · v.toList) (funext fun c => ?_)
  unfold Prometheus.escapeChar
  by_cases hback : c = '\\'
  · subst hback
    rfl
  · rw [if_neg hback, if_neg hback, List.flatMap_singleton]
    by_cases hline : c = '\n'
    · subst hline
      rfl
    · rw [if_neg hline, if_neg hline, List.flatMap_singleton]
      by_cases hquote : c = '"'
      · subst hquote
        rfl
      · rw [if_neg hquote, if_neg fun h => hquote h.2]

theorem escapeHelp_toList (help : String) :
    (escapeHelp help).toList = Prometheus.escape false help := by
  rw [escapeHelp, Str.toList_replace, Str.toList_replace, Prometheus.escape, List.flatMap_assoc]
  refine congrArg (List.flatMap · help.toList) (funext fun c => ?_)
  unfold Prometheus.escapeChar
  by_cases hback : c = '\\'
  · subst hback
    rfl
  · rw [if_neg hback, if_neg hback, List.flatMap_singleton]
    by_cases hline : c = '\n'
    · subst hline
      rfl
    · rw [if_neg hline, if_neg hline, if_neg fun h => Bool.false_ne_true h.1]

def LabelValue.text : LabelValue → String
  | .str s => s
  | .other _ => ""

/-- The labels in the order of the text. -/
def labelPairs (labels : Dict String LabelValue) : List (String × String) :=
  (sortedBy Prod.fst labels.items).map fun label => (label.1, label.2.text)

theorem labelPairs_fst_perm (labels : Dict String LabelValue) :
    List.Perm ((labelPairs labels).map Prod.fst) (labels.items.map Prod.fst) := by
  rw [labelPairs, List.map_map]
  exact (sortedBy_perm Prod.fst labels.items).map Prod.fst

/-- Every label is a text. -/
def TextLabels (labels : Dict String LabelValue) : Prop :=
  ∀ label ∈ labels.items, ∃ v, label.2 = .str v

theorem labelStr_eq {labels : Dict String LabelValue} (h : TextLabels labels) :
    ∃ s, labelStr none labels = .ok s ∧ s.toList = Prometheus.printLabelSet (labelPairs labels) := by
  have htexts : ∀ items : List (String × LabelValue), (∀ label ∈ items, ∃ v, label.2 = .str v) →
      ∃ texts, items.mapM labelText = .ok texts ∧ texts.map String.toList =
        (items.map fun label => (label.1, label.2.text)).map Prometheus.printLabel := by
    intro items hitems
    induction items with
    | nil => exact ⟨[], rfl, rfl⟩
    | cons label items ih =>
      obtain ⟨texts, htexts, hmap⟩ := ih fun label hlabel => hitems label (List.mem_cons_of_mem _ hlabel)
      obtain ⟨v, hv⟩ := hitems label List.mem_cons_self
      have hlabel : labelText label = .ok (label.1 ++ "=\"" ++ escapeLabelValue v ++ "\"") := by
        rw [labelText, hv]
      refine ⟨_ :: texts, by rw [List.mapM_cons, hlabel, htexts]; rfl, ?_⟩
      rw [List.map_cons, hmap, List.map_cons, List.map_cons]
      congr 1
      simp only [String.toList_append, escapeLabelValue_toList, Prometheus.printLabel, hv,
        LabelValue.text]
      simp
  obtain ⟨texts, htexts, hmap⟩ := htexts (sortedBy Prod.fst labels.items) fun label hlabel =>
    h label ((mem_sortedBy Prod.fst).mp hlabel)
  have hkept : (sortedBy Prod.fst labels.items).filter (fun _ => true) =
      sortedBy Prod.fst labels.items := List.filter_true _
  refine ⟨_, except_bind_ok_iff.mpr ⟨texts, hkept.symm ▸ htexts, rfl⟩, ?_⟩
  have hnil : texts = [] ↔ labelPairs labels = [] := by
    rw [labelPairs, ← List.map_eq_nil_iff (f := String.toList), hmap, List.map_eq_nil_iff]
  unfold Prometheus.printLabelSet
  by_cases he : texts = []
  · rw [if_pos he, if_pos (hnil.mp he)]
    rfl
  · rw [if_neg he, if_neg fun hn => he (hnil.mpr hn)]
    have hjoin : (Str.join ',' texts).toList = Prometheus.printLabels (labelPairs labels) := by
      rw [Str.join, String.toList_ofList, hmap]
      rfl
    rw [String.toList_append, String.toList_append, hjoin]
    rfl

/-- The text of a value. -/
def MetricValue.text (repr : F → String) : MetricValue F → List Char
  | .int n => (toString n).toList
  | .bool b => (if b then "True" else "False").toList
  | .float f => (repr f).toList
  | .floatSubclass _ => []
  | .other _ => []

/-- The value has a text. -/
def MetricValue.Printable (v : MetricValue F) : Prop :=
  (∃ n, v = .int n) ∨ (∃ b, v = .bool b) ∨ ∃ f, v = .float f

variable {repr : F → String} {timestamp : Option ℤ} {metric : Metric F}

theorem valueStr_ok_iff {v : MetricValue F} {s : String} :
    valueStr repr v = .ok s ↔ v.Printable ∧ s.toList = v.text repr := by
  have hok : ∀ t : String, (Except.ok t : Except Exn String) = .ok s ↔ s.toList = t.toList := by
    intro t
    rw [String.toList_inj]
    exact ⟨fun h => (Except.ok.inj h).symm, fun h => congrArg Except.ok h.symm⟩
  cases v with
  | int n => exact (hok _).trans (and_iff_right (.inl ⟨n, rfl⟩)).symm
  | bool b => exact (hok _).trans (and_iff_right (.inr (.inl ⟨b, rfl⟩))).symm
  | float f => exact (hok _).trans (and_iff_right (.inr (.inr ⟨f, rfl⟩))).symm
  | floatSubclass f =>
    refine iff_of_false (fun h => by cases h) fun h => ?_
    rcases h.1 with ⟨n, hn⟩ | ⟨b, hb⟩ | ⟨f, hf⟩
    · cases hn
    · cases hb
    · cases hf
  | other type =>
    refine iff_of_false (fun h => by cases h) fun h => ?_
    rcases h.1 with ⟨n, hn⟩ | ⟨b, hb⟩ | ⟨f, hf⟩
    · cases hn
    · cases hb
    · cases hf

/-- The line of a sample, as the format has it. -/
def sampleChars (repr : F → String) (timestamp : Option ℤ) (metric : Metric F) : List Char :=
  Prometheus.printSample metric.name (labelPairs metric.labels) (metric.value.text repr) timestamp

theorem sampleText_toList {name label value : String} {timestamp : Option ℤ}
    {labels : List (String × String)} (hlabel : label.toList = Prometheus.printLabelSet labels) :
    (sampleText (timestamp.map toString) name label value).toList =
      Prometheus.printSample name labels value.toList timestamp ++ ['\n'] := by
  cases timestamp with
  | none =>
    change (name ++ label ++ " " ++ value ++ "\n").toList = _
    simp [Prometheus.printSample, Prometheus.printTimestamp, hlabel]
  | some t =>
    change (name ++ label ++ " " ++ value ++ " " ++ toString t ++ "\n").toList = _
    simp [Prometheus.printSample, Prometheus.printTimestamp, hlabel]

theorem sampleLine_ok_iff (h : TextLabels metric.labels) {s : String} :
    sampleLine repr (timestamp.map toString) none metric = .ok s ↔
      metric.value.Printable ∧ s.toList = sampleChars repr timestamp metric ++ ['\n'] := by
  obtain ⟨label, hlabel, hchars⟩ := labelStr_eq h
  rw [sampleLine, hlabel, except_ok_bind]
  constructor
  · intro h
    obtain ⟨value, hvalue, h⟩ := except_bind_ok_iff.mp h
    obtain ⟨hprintable, hvalue⟩ := valueStr_ok_iff.mp hvalue
    cases h
    rw [sampleText_toList hchars, hvalue]
    exact ⟨hprintable, rfl⟩
  · rintro ⟨hprintable, hs⟩
    have hvalue : valueStr repr metric.value = .ok (.ofList (metric.value.text repr)) :=
      valueStr_ok_iff.mpr ⟨hprintable, String.toList_ofList⟩
    refine except_bind_ok_iff.mpr ⟨_, hvalue, congrArg Except.ok (String.toList_inj.mp ?_)⟩
    rw [sampleText_toList hchars, String.toList_ofList, hs]
    rfl

/-- The lines before the samples of a group: an empty one between two groups, help and type. -/
def metaChars (n : ℕ) (metric : Metric F) : List (List Char) :=
  (if truthy metric.help then
    (if n > 0 then [[]] else []) ++ [Prometheus.printHelp metric.name (metric.help.getD "")]
  else []) ++
    (if truthy metric.type then [Prometheus.printType metric.name (metric.type.getD "")] else [])

def groupChars (repr : F → String) (timestamp : Option ℤ) (n : ℕ) (metrics : List (Metric F)) :
    List (List Char) :=
  match metrics with
  | [] => []
  | firstMetric :: _ => metaChars n firstMetric ++ metrics.map (sampleChars repr timestamp)

/-- All lines of the groups from the `n`-th on. -/
def textChars (repr : F → String) (timestamp : Option ℤ) :
    ℕ → List (String × List (Metric F)) → List (List Char)
  | _, [] => []
  | n, group :: groups => groupChars repr timestamp n group.2 ++ textChars repr timestamp (n + 1) groups

theorem render_append (lines lines' : List (List Char)) :
    Prometheus.render (lines ++ lines') = Prometheus.render lines ++ Prometheus.render lines' :=
  List.flatMap_append

theorem join_toList_append (output output' : List String) :
    (String.join (output ++ output')).toList =
      (String.join output).toList ++ (String.join output').toList := by
  rw [String.toList_join, String.toList_join, String.toList_join, List.flatMap_append]

theorem metaLines_render (n : ℕ) (metric : Metric F) :
    (String.join (metaLines n metric "").1).toList = Prometheus.render (metaChars n metric) ∧
      (metaLines n metric "").2 = "" := by
  have htype : ∀ b : Bool, (String.join (if b = true then
      ["# TYPE " ++ metric.name ++ " " ++ metric.type.getD "" ++ "\n"] else [])).toList =
        Prometheus.render (if b = true then
          [Prometheus.printType metric.name (metric.type.getD "")] else []) := by
    intro b
    cases b with
    | false => rfl
    | true => simp [Prometheus.render, Prometheus.printType]
  unfold metaLines metaChars
  dsimp only
  split
  · case isTrue hnone =>
    rw [if_neg hnone.1, if_neg hnone.1, if_neg hnone.2]
    exact ⟨rfl, rfl⟩
  · refine ⟨?_, rfl⟩
    rw [join_toList_append, render_append, htype]
    congr 1
    cases truthy metric.help with
    | false => rfl
    | true =>
      by_cases hn : n > 0
      · simp [hn, Prometheus.render, Prometheus.printHelp, escapeHelp_toList]
      · simp [hn, Prometheus.render, Prometheus.printHelp, escapeHelp_toList]

theorem samples_render {metrics : List (Metric F)} (h : ∀ metric ∈ metrics, TextLabels metric.labels)
    {samples : List String} :
    metrics.mapM (sampleLine repr (timestamp.map toString) none) = .ok samples →
      (∀ metric ∈ metrics, metric.value.Printable) ∧ (String.join samples).toList =
        Prometheus.render (metrics.map (sampleChars repr timestamp)) := by
  induction metrics generalizing samples with
  | nil =>
    intro hsamples
    cases hsamples
    exact ⟨fun metric hmetric => absurd hmetric List.not_mem_nil, rfl⟩
  | cons metric metrics ih =>
    intro hsamples
    rw [List.mapM_cons] at hsamples
    obtain ⟨s, hs, hsamples⟩ := except_bind_ok_iff.mp hsamples
    obtain ⟨rest, hrest, hsamples⟩ := except_bind_ok_iff.mp hsamples
    cases hsamples
    obtain ⟨hprintable, hchars⟩ := (sampleLine_ok_iff (h metric List.mem_cons_self)).mp hs
    obtain ⟨hall, hrender⟩ := ih (fun m hm => h m (List.mem_cons_of_mem _ hm)) hrest
    refine ⟨List.forall_mem_cons.mpr ⟨hprintable, hall⟩, ?_⟩
    rw [String.join_cons, String.toList_append, hchars, hrender, List.map_cons]
    rfl

/-- The output of the groups as lines. -/
theorem convertGroups_render {groups : List (String × List (Metric F))}
    (h : ∀ group ∈ groups, ∀ metric ∈ group.2, TextLabels metric.labels) {n : ℕ}
    {output : List String}
    (houtput : convertGroups repr (timestamp.map toString) none n "" groups = .ok output) :
    (∀ group ∈ groups, ∀ metric ∈ group.2, metric.value.Printable) ∧
      (String.join output).toList = Prometheus.render (textChars repr timestamp n groups) := by
  induction groups generalizing n output with
  | nil =>
    cases houtput
    exact ⟨fun group hgroup => absurd hgroup List.not_mem_nil, rfl⟩
  | cons group groups ih =>
    obtain ⟨⟨lines, groupSeparator⟩, hgroup, hmore⟩ := except_bind_ok_iff.mp houtput
    obtain ⟨rest, hrest, he⟩ := except_bind_ok_iff.mp hmore
    cases he
    clear hmore
    obtain ⟨name, metrics⟩ := group
    cases metrics with
    | nil => cases hgroup
    | cons firstMetric metrics =>
      obtain ⟨-, samples, hsamples, he⟩ := convertGroup_ok_iff.mp hgroup
      obtain ⟨hmeta, hsep⟩ := metaLines_render n firstMetric
      rw [hsep] at he
      cases he
      obtain ⟨hprintable, hsamples⟩ := samples_render (h _ List.mem_cons_self) hsamples
      obtain ⟨hall, hrest⟩ := ih (fun g hg => h g (List.mem_cons_of_mem _ hg)) hrest
      refine ⟨List.forall_mem_cons.mpr ⟨hprintable, hall⟩, ?_⟩
      rw [join_toList_append, join_toList_append, hmeta, hsamples, hrest, textChars, render_append,
        groupChars, render_append]

/-- Metrics of one type and help, with values that have a text, have an output. -/
theorem convertGroups_returns (repr : F → String) (timestamp : Option ℤ)
    {groups : List (String × List (Metric F))}
    (hne : ∀ group ∈ groups, group.2 ≠ [])
    (h : ∀ group ∈ groups, ∀ metric ∈ group.2, TextLabels metric.labels ∧ metric.value.Printable)
    (hmeta : ∀ group ∈ groups, ∀ metric ∈ group.2, ∀ metric' ∈ group.2,
      metric.type = metric'.type ∧ metric.help = metric'.help) (n : ℕ) (groupSeparator : String) :
    ∃ output, convertGroups repr (timestamp.map toString) none n groupSeparator groups = .ok output := by
  induction groups generalizing n groupSeparator with
  | nil => exact ⟨[], rfl⟩
  | cons group groups ih =>
    obtain ⟨name, metrics⟩ := group
    cases metrics with
    | nil => exact absurd rfl (hne _ List.mem_cons_self)
    | cons firstMetric metrics =>
      have hsamples : ∀ metric ∈ firstMetric :: metrics, ∃ s,
          sampleLine repr (timestamp.map toString) none metric = .ok s := by
        intro metric hmetric
        obtain ⟨hlabels, hprintable⟩ := h _ List.mem_cons_self metric hmetric
        exact ⟨_, (sampleLine_ok_iff hlabels).mpr ⟨hprintable, String.toList_ofList⟩⟩
      obtain ⟨samples, hsamples⟩ := except_mapM_returns hsamples
      have hsame : ∀ metric ∈ firstMetric :: metrics,
          metric.type = firstMetric.type ∧ metric.help = firstMetric.help := fun metric hmetric =>
        hmeta _ List.mem_cons_self metric hmetric firstMetric List.mem_cons_self
      obtain ⟨rest, hrest⟩ := ih (fun g hg => hne g (List.mem_cons_of_mem _ hg))
        (fun g hg => h g (List.mem_cons_of_mem _ hg)) (fun g hg => hmeta g (List.mem_cons_of_mem _ hg))
        (n + 1) (metaLines n firstMetric groupSeparator).2
      exact ⟨_, except_bind_ok_iff.mpr ⟨_, convertGroup_ok_iff.mpr ⟨hsame, samples, hsamples, rfl⟩,
        except_bind_ok_iff.mpr ⟨rest, hrest, rfl⟩⟩⟩

/-! ## Reading the lines -/

open Prometheus (parse parseLine Line Sample Family IsMetricName IsLabelName IsToken)

/-- No name has a line feed after it. -/
structure PlainNames (metric : Metric F) : Prop where
  name : '\n' ∉ metric.name.toList
  keys : ∀ key ∈ metric.labels.keys, '\n' ∉ key.toList

/-- A text that is `base` or has a line feed after it is so as a string. -/
theorem eq_or_eq_newline {name : String} {base : List Char}
    (h : name.toList = base ∨ name.toList = base ++ ['\n']) :
    name = .ofList base ∨ name = .ofList base ++ "\n" := by
  rcases h with h | h
  · exact .inl (String.toList_inj.mp (by rw [h, String.toList_ofList]))
  · exact .inr (String.toList_inj.mp (by rw [h, String.toList_append, String.toList_ofList]; rfl))

theorem isMetricName_of_matches {name : String} (h : metricNameMatches name = true) :
    ∃ base : String, IsMetricName base ∧ (name = base ∨ name = base ++ "\n") := by
  obtain ⟨base, hbase, heq⟩ := (matchesName_iff rfl rfl).mp h
  exact ⟨.ofList base, by rw [IsMetricName, String.toList_ofList]; exact hbase, eq_or_eq_newline heq⟩

theorem isLabelName_of_matches {name : String} (h : metricLabelNameMatches name = true) :
    ∃ base : String, IsLabelName base ∧ (name = base ∨ name = base ++ "\n") := by
  obtain ⟨base, hbase, heq⟩ := (matchesName_iff rfl rfl).mp h
  exact ⟨.ofList base, by rw [IsLabelName, String.toList_ofList]; exact hbase, eq_or_eq_newline heq⟩

theorem newline_not_mem_name {start char : Char → Bool} (hstart : start '\n' = false)
    (hchar : char '\n' = false) {name : List Char} (h : Prometheus.IsName start char name) :
    '\n' ∉ name := by
  obtain ⟨c, cs, rfl, hc, hcs⟩ := h
  intro hm
  rcases List.mem_cons.mp hm with h | h
  · rw [← h, hstart] at hc
    cases hc
  · have hc := hcs _ h
    rw [hchar] at hc
    cases hc

theorem newline_mem_append (base : String) : '\n' ∈ (base ++ "\n").toList := by
  rw [String.toList_append]
  exact List.mem_append_right _ List.mem_cons_self

theorem mem_labelPairs_fst {labels : Dict String LabelValue} {key : String} :
    key ∈ (labelPairs labels).map Prod.fst ↔ key ∈ labels.keys :=
  (labelPairs_fst_perm labels).mem_iff

/-- An accepted metric with plain names has names of the format. -/
theorem AcceptedMetric.names (h : AcceptedMetric metric) (hplain : PlainNames metric) :
    IsMetricName metric.name ∧ ∀ label ∈ labelPairs metric.labels, IsLabelName label.1 := by
  constructor
  · obtain ⟨base, hbase, rfl | heq⟩ := isMetricName_of_matches h.name
    · exact hbase
    · exact absurd (heq ▸ newline_mem_append base) hplain.name
  · intro label hlabel
    have hkey : label.1 ∈ metric.labels.keys := mem_labelPairs_fst.mp (List.mem_map_of_mem hlabel)
    obtain ⟨p, hp, hpkey⟩ := List.mem_map.mp hkey
    obtain ⟨base, hbase, heq | heq⟩ := isLabelName_of_matches (hpkey ▸ (h.labels p hp).2)
    · exact heq ▸ hbase
    · exact absurd (heq ▸ newline_mem_append base) (hplain.keys _ hkey)

theorem isToken_text (floats : FloatText F) {v : MetricValue F} (h : v.Printable) :
    IsToken (v.text floats.repr) ∧ (v.text floats.repr).head? ≠ some '{' ∧
      '\n' ∉ v.text floats.repr := by
  apply Prometheus.isToken_of_numeral
  · rcases h with ⟨n, rfl⟩ | ⟨b, rfl⟩ | ⟨f, rfl⟩
    · exact Prometheus.toString_ne_nil n
    · cases b with
      | false => exact List.cons_ne_nil _ _
      | true => exact List.cons_ne_nil _ _
    · exact fun hnil => floats.repr_ne f (String.toList_eq_nil_iff.mp hnil)
  · rcases h with ⟨n, rfl⟩ | ⟨b, rfl⟩ | ⟨f, rfl⟩
    · exact fun c hc => Prometheus.isNumeralChar_of_mem_toString hc
    · apply List.all_eq_true.mp
      cases b with
      | false => rfl
      | true => rfl
    · exact floats.repr_chars f

variable {floats : FloatText F}

/-- The sample of a metric, for a value that was read. -/
def sampleOf (timestamp : Option ℤ) (metric : Metric F) (value : F) : Sample F :=
  ⟨metric.name, labelPairs metric.labels, value, timestamp⟩

theorem parseLine_sampleChars (floats : FloatText F) (timestamp : Option ℤ) (h : AcceptedMetric metric)
    (hplain : PlainNames metric)
    (hvalue : metric.value.Printable) :
    parseLine floats.read (sampleChars floats.repr timestamp metric) =
      (floats.read (.ofList (metric.value.text floats.repr))).map fun value =>
        .sample (sampleOf timestamp metric value) := by
  obtain ⟨hname, hlabels⟩ := h.names hplain
  obtain ⟨htoken, hbrace, -⟩ := isToken_text floats hvalue
  have hnodup : ((labelPairs metric.labels).map Prod.fst).Nodup :=
    (labelPairs_fst_perm metric.labels).nodup_iff.mpr metric.labels.nodup
  have hread := Prometheus.readSample_print floats.read hname hlabels hnodup htoken hbrace timestamp
  rw [sampleChars, Prometheus.printSample, Prometheus.parseLine_of_metric floats.read hname]
  change (Prometheus.readSample floats.read (Prometheus.printSample _ _ _ _)).map _ = _
  rw [hread, Option.map_map]
  rfl

theorem newline_not_mem_printLabel {label : String × String} (h : '\n' ∉ label.1.toList) :
    '\n' ∉ Prometheus.printLabel label := by
  unfold Prometheus.printLabel
  simp only [List.mem_append, List.mem_cons, List.not_mem_nil, or_false, not_or]
  exact ⟨⟨h, by decide, by decide, Prometheus.newline_not_mem_escape true label.2⟩, by decide⟩

theorem newline_not_mem_sampleChars (hplain : PlainNames metric) (hvalue : metric.value.Printable) :
    '\n' ∉ sampleChars floats.repr timestamp metric := by
  obtain ⟨-, -, htext⟩ := isToken_text floats hvalue
  have hset : '\n' ∉ Prometheus.printLabelSet (labelPairs metric.labels) := by
    unfold Prometheus.printLabelSet
    split
    · exact List.not_mem_nil
    · simp only [List.cons_append, List.mem_cons, List.mem_append, List.not_mem_nil, or_false, not_or]
      refine ⟨by decide, fun hm => ?_, by decide⟩
      rcases Str.mem_intercalate hm with hm | ⟨cs, hcs, hm⟩
      · exact absurd hm (by decide)
      · obtain ⟨label, hlabel, rfl⟩ := List.mem_map.mp hcs
        refine newline_not_mem_printLabel ?_ hm
        exact hplain.keys _ (mem_labelPairs_fst.mp (List.mem_map_of_mem hlabel))
  have htime : '\n' ∉ Prometheus.printTimestamp timestamp := by
    cases timestamp with
    | none => exact List.not_mem_nil
    | some t =>
      have ht := (Prometheus.isToken_of_numeral (Prometheus.toString_ne_nil t) fun c hc =>
        Prometheus.isNumeralChar_of_mem_toString hc).2.2
      intro hm
      rcases List.mem_cons.mp hm with hm | hm
      · exact absurd hm (by decide)
      · exact ht hm
  unfold sampleChars Prometheus.printSample
  simp only [List.mem_append, List.mem_cons, not_or]
  exact ⟨hplain.name, hset, by decide, htext, htime⟩

/-- A value that the format gives back. -/
def GivenBack (floats : FloatText F) (v : MetricValue F) (f : F) : Prop :=
  v = .float f ∨ ∃ n, v = .int n ∧ floats.ofInt n = some f

theorem GivenBack.read {v : MetricValue F} {f : F} (h : GivenBack floats v f) :
    v.Printable ∧ v.exact floats = some f ∧ floats.read (.ofList (v.text floats.repr)) = some f := by
  rcases h with rfl | ⟨n, rfl, hn⟩
  · refine ⟨.inr (.inr ⟨f, rfl⟩), rfl, ?_⟩
    rw [MetricValue.text, String.ofList_toList, floats.read_repr]
  · refine ⟨.inl ⟨n, rfl⟩, hn, ?_⟩
    rw [MetricValue.text, String.ofList_toList, floats.read_int n f hn]

/-- Lines are read, one by one. -/
def ReadsLines (floats : FloatText F) (lines : List (List Char)) (parsed : List (Line F)) : Prop :=
  lines.mapM (parseLine floats.read) = some parsed

theorem ReadsLines.append {lines lines' : List (List Char)} {parsed parsed' : List (Line F)}
    (h : ReadsLines floats lines parsed) (h' : ReadsLines floats lines' parsed') :
    ReadsLines floats (lines ++ lines') (parsed ++ parsed') := by
  unfold ReadsLines at h h' ⊢
  rw [List.mapM_append, h, h']
  rfl

theorem ReadsLines.cons {line : List Char} {lines : List (List Char)} {p : Line F}
    {parsed : List (Line F)} (h : parseLine floats.read line = some p) (h' : ReadsLines floats lines parsed) :
    ReadsLines floats (line :: lines) (p :: parsed) := by
  unfold ReadsLines at h' ⊢
  rw [List.mapM_cons, h, h']
  rfl

theorem readsLines_nil : ReadsLines floats [] [] := rfl

/-- The help of a group that a reader finds. -/
def helpRead (metric : Metric F) : Option String :=
  (metric.help.filter (· ≠ "")).map fun help => .ofList (Prometheus.skipBlanks help.toList)

theorem truthy_type (h : AcceptedMetric metric) {type : String} (htype : metric.type = some type) :
    truthy metric.type = true ∧ type ∈ Prometheus.metricTypes := by
  rw [htype]
  rcases h.type type htype with rfl | rfl
  · exact ⟨by decide, by decide⟩
  · exact ⟨by decide, by decide⟩

/-- The lines before the samples are read as the help and the type, after an empty line or none. -/
theorem reads_metaChars (floats : FloatText F) (h : AcceptedMetric metric) (hname : IsMetricName metric.name) (n : ℕ) :
    ∃ blanks : List (Line F), (∀ line ∈ blanks, line = .blank) ∧
      ReadsLines floats (metaChars n metric) (blanks ++
        ((helpRead metric).toList.map (Line.help metric.name) ++
          metric.type.toList.map (Line.type metric.name))) := by
  have htype : ReadsLines floats (if truthy metric.type then
      [Prometheus.printType metric.name (metric.type.getD "")] else [])
        (metric.type.toList.map (Line.type metric.name)) := by
    cases ht : metric.type with
    | none => exact readsLines_nil
    | some type =>
      obtain ⟨htruthy, hmem⟩ := truthy_type h ht
      rw [ht] at htruthy
      rw [if_pos htruthy]
      exact .cons (Prometheus.parseLine_type floats.read hname hmem) readsLines_nil
  unfold metaChars helpRead
  cases hh : metric.help with
  | none => exact ⟨[], fun line hline => absurd hline List.not_mem_nil, htype⟩
  | some help =>
    by_cases hne : help = ""
    · rw [hne]
      exact ⟨[], fun line hline => absurd hline List.not_mem_nil, htype⟩
    · have htruthy : truthy (some help) = true := decide_eq_true hne
      have hfilter : (some help).filter (· ≠ "") = some help :=
        Option.filter_some_pos (decide_eq_true hne)
      have hhelp := Prometheus.parseLine_help floats.read hname help
      rw [if_pos htruthy, hfilter, Option.getD_some]
      by_cases hn : n > 0
      · rw [if_pos hn]
        refine ⟨[.blank], List.forall_mem_singleton.mpr rfl, ?_⟩
        exact .cons rfl ((ReadsLines.cons hhelp readsLines_nil).append htype)
      · rw [if_neg hn]
        refine ⟨[], fun line hline => absurd hline List.not_mem_nil, ?_⟩
        exact (ReadsLines.cons hhelp readsLines_nil).append htype

theorem newline_not_mem_metaChars (h : AcceptedMetric metric) (hname : IsMetricName metric.name) (n : ℕ) :
    ∀ line ∈ metaChars n metric, '\n' ∉ line := by
  have hplain : '\n' ∉ metric.name.toList := newline_not_mem_name rfl rfl hname
  have hhelp : '\n' ∉ Prometheus.printHelp metric.name (metric.help.getD "") := by
    unfold Prometheus.printHelp
    simp only [List.mem_cons, List.mem_append, not_or]
    exact ⟨by decide, by decide, by decide, by decide, hplain, by decide,
      Prometheus.newline_not_mem_escape _ _⟩
  unfold metaChars
  intro line hline
  rcases List.mem_append.mp hline with hline | hline
  · split at hline
    · rcases List.mem_append.mp hline with hline | hline
      · split at hline
        · rw [List.mem_singleton.mp hline]
          exact List.not_mem_nil
        · exact absurd hline List.not_mem_nil
      · exact List.mem_singleton.mp hline ▸ hhelp
    · exact absurd hline List.not_mem_nil
  · split at hline
    · rw [List.mem_singleton.mp hline]
      unfold Prometheus.printType
      have htype : '\n' ∉ (metric.type.getD "").toList := by
        cases ht : metric.type with
        | none => exact List.not_mem_nil
        | some type =>
          exact (by decide +kernel : ∀ type ∈ Prometheus.metricTypes, '\n' ∉ type.toList) type
            (truthy_type h ht).2
      simp only [List.mem_cons, List.mem_append, not_or]
      exact ⟨by decide, by decide, by decide, by decide, hplain, by decide, htype⟩
    · exact absurd hline List.not_mem_nil

/-! ## Reading the text -/

/-- The group that a reader finds for a group of metrics. -/
structure FamilyOf (floats : FloatText F) (timestamp : Option ℤ) (group : String × List (Metric F))
    (family : Family F) : Prop where
  name : family.name = group.1
  samples : List.Forall₂ (fun metric sample => ∃ f, GivenBack floats metric.value f ∧
    sample = sampleOf timestamp metric f) group.2 family.samples
  metadata : ∃ metric ∈ group.2, family.help = helpRead metric ∧ family.type = metric.type

/-- A metric whose line is read as its sample. -/
structure Readable (floats : FloatText F) (metric : Metric F) : Prop where
  accepted : AcceptedMetric metric
  plain : PlainNames metric
  value : ∃ f, GivenBack floats metric.value f

theorem reads_samples {metrics : List (Metric F)} (h : ∀ metric ∈ metrics, Readable floats metric)
    (timestamp : Option ℤ) :
    ∃ samples : List (Sample F),
      List.Forall₂ (fun metric sample => ∃ f, GivenBack floats metric.value f ∧
        sample = sampleOf timestamp metric f) metrics samples ∧
      ReadsLines floats (metrics.map (sampleChars floats.repr timestamp)) (samples.map .sample) := by
  induction metrics with
  | nil => exact ⟨[], .nil, readsLines_nil⟩
  | cons metric metrics ih =>
    obtain ⟨samples, hsamples, hreads⟩ := ih fun m hm => h m (List.mem_cons_of_mem _ hm)
    obtain ⟨haccepted, hplain, f, hf⟩ := h metric List.mem_cons_self
    obtain ⟨hprintable, -, hread⟩ := hf.read
    have hline := parseLine_sampleChars floats timestamp haccepted hplain hprintable
    rw [hread] at hline
    exact ⟨_ :: samples, .cons ⟨f, hf, rfl⟩ hsamples, .cons hline hreads⟩

/-- The lines of the groups are read as groups of the reader, each after an empty line or none. -/
theorem reads_textChars (timestamp : Option ℤ) {groups : List (String × List (Metric F))}
    (hnamed : ∀ group ∈ groups, group.2 ≠ [] ∧ ∀ metric ∈ group.2, metric.name = group.1)
    (h : ∀ group ∈ groups, ∀ metric ∈ group.2, Readable floats metric) (n : ℕ) :
    ∃ (families : List (Family F)) (blocks : List (List (Line F))),
      List.Forall₂ (FamilyOf floats timestamp) groups families ∧
      List.Forall₂ (fun family block => ∃ blanks, (∀ line ∈ blanks, line = .blank) ∧
        block = blanks ++ family.lines) families blocks ∧
      ReadsLines floats (textChars floats.repr timestamp n groups) blocks.flatten := by
  induction groups generalizing n with
  | nil => exact ⟨[], [], .nil, .nil, readsLines_nil⟩
  | cons group groups ih =>
    obtain ⟨families, blocks, hfamilies, hblocks, hreads⟩ :=
      ih (fun g hg => hnamed g (List.mem_cons_of_mem _ hg))
        (fun g hg => h g (List.mem_cons_of_mem _ hg)) (n + 1)
    obtain ⟨name, metrics⟩ := group
    obtain ⟨hne, hnames⟩ := hnamed _ List.mem_cons_self
    cases metrics with
    | nil => exact absurd rfl hne
    | cons firstMetric metrics =>
      have hall := h _ List.mem_cons_self
      have hfirst := hall firstMetric List.mem_cons_self
      have hname := (hfirst.accepted.names hfirst.plain).1
      obtain ⟨samples, hsamples, hreadSamples⟩ := reads_samples hall timestamp
      obtain ⟨blanks, hblanks, hmeta⟩ := reads_metaChars floats hfirst.accepted hname n
      refine ⟨⟨firstMetric.name, helpRead firstMetric, firstMetric.type, samples⟩ :: families,
        _ :: blocks, .cons ⟨hnames _ List.mem_cons_self, hsamples, firstMetric, List.mem_cons_self,
          rfl, rfl⟩ hfamilies, .cons ⟨blanks, hblanks, rfl⟩ hblocks, ?_⟩
      have hgroup := hmeta.append hreadSamples
      rw [List.append_assoc] at hgroup
      exact hgroup.append hreads

theorem newline_not_mem_textChars (floats : FloatText F) (timestamp : Option ℤ)
    {groups : List (String × List (Metric F))}
    (h : ∀ group ∈ groups, ∀ metric ∈ group.2,
      AcceptedMetric metric ∧ PlainNames metric ∧ metric.value.Printable) (n : ℕ) :
    ∀ line ∈ textChars floats.repr timestamp n groups, '\n' ∉ line := by
  induction groups generalizing n with
  | nil => exact fun line hline => absurd hline List.not_mem_nil
  | cons group groups ih =>
    intro line hline
    rcases List.mem_append.mp hline with hline | hline
    · obtain ⟨name, metrics⟩ := group
      cases metrics with
      | nil => exact absurd hline List.not_mem_nil
      | cons firstMetric metrics =>
        have hall := h _ List.mem_cons_self
        obtain ⟨haccepted, hplain, -⟩ := hall firstMetric List.mem_cons_self
        rcases List.mem_append.mp hline with hline | hline
        · exact newline_not_mem_metaChars haccepted (haccepted.names hplain).1 n line hline
        · obtain ⟨metric, hmetric, rfl⟩ := List.mem_map.mp hline
          obtain ⟨-, hplain, hprintable⟩ := hall metric hmetric
          exact newline_not_mem_sampleChars hplain hprintable
    · exact ih (fun g hg => h g (List.mem_cons_of_mem _ hg)) (n + 1) line hline

/-- The sorted labels of a metric are the labels in its line. -/
theorem labelPairs_str {labels : Dict String LabelValue} (h : TextLabels labels) :
    sortedBy Prod.fst ((labelPairs labels).map fun label => (label.1, LabelValue.str label.2)) =
      sortedBy Prod.fst labels.items := by
  have hmap : (labelPairs labels).map (fun label => (label.1, LabelValue.str label.2)) =
      sortedBy Prod.fst labels.items := by
    rw [labelPairs, List.map_map]
    refine (List.map_congr_left fun label hlabel => ?_).trans (List.map_id _)
    obtain ⟨v, hv⟩ := h label ((mem_sortedBy Prod.fst).mp hlabel)
    obtain ⟨key, value⟩ := label
    cases hv
    rfl
  rw [hmap]
  exact sortedBy_eq_self (pairwise_sortedBy Prod.fst labels.items)

variable {metrics : List (Metric F)} {groups : List (String × List (Metric F))}
  {families : List (Family F)}

/-- The groups that are read are the metrics. -/
theorem exposes_of_familyOf (hgrouped : Grouped metrics groups)
    (h : ∀ metric ∈ metrics, AcceptedMetric metric)
    (hmeta : ∀ metric ∈ metrics, ∀ metric' ∈ metrics, metric.name = metric'.name →
      metric.type = metric'.type ∧ metric.help = metric'.help)
    (hfamilies : List.Forall₂ (FamilyOf floats timestamp) groups families) :
    Exposes floats metrics timestamp families where
  nodup := by
    have hnames : families.map Family.name = groups.map Prod.fst := by
      clear hgrouped
      induction hfamilies with
      | nil => rfl
      | cons hfamily _ ih => rw [List.map_cons, List.map_cons, hfamily.name, ih]
    rw [hnames]
    exact hgrouped.nodup
  samples := by
    have hsamples : List.Forall₂ (fun metric sample => ∃ f, GivenBack floats metric.value f ∧
        sample = sampleOf timestamp metric f) (groups.flatMap Prod.snd)
          (families.flatMap Family.samples) := by
      clear hgrouped
      induction hfamilies with
      | nil => exact .nil
      | cons hfamily _ ih =>
        rw [List.flatMap_cons, List.flatMap_cons]
        exact List.rel_append hfamily.samples ih
    refine List.Perm.trans (List.Perm.of_eq ?_) (hgrouped.perm.map _)
    have haccepted : ∀ metric ∈ groups.flatMap Prod.snd, AcceptedMetric metric := fun metric hmetric =>
      h metric (hgrouped.perm.mem_iff.mp hmetric)
    generalize groups.flatMap Prod.snd = metrics at hsamples haccepted
    generalize families.flatMap Family.samples = samples at hsamples
    induction hsamples with
    | nil => rfl
    | @cons metric sample metrics samples hsample _ ih =>
      obtain ⟨f, hf, rfl⟩ := hsample
      have htext : TextLabels metric.labels := fun label hlabel =>
        ((haccepted metric List.mem_cons_self).labels label hlabel).1
      rw [List.map_cons, List.map_cons, ih fun m hm => haccepted m (List.mem_cons_of_mem _ hm),
        hf.read.2.1]
      change (metric.name, sortedBy Prod.fst ((labelPairs metric.labels).map _), some f) :: _ = _
      rw [labelPairs_str htext]
  metadata := by
    intro family hfamily metric hmetric hname
    obtain ⟨group, hgroup, hof⟩ := forall₂_exists_left hfamilies hfamily
    obtain ⟨firstMetric, hfirst, hhelp, htype⟩ := hof.metadata
    have hfirst := (hgrouped.mem_iff hgroup).mp hfirst
    obtain ⟨htype', hhelp'⟩ := hmeta metric hmetric firstMetric hfirst.1
      ((hname.trans hof.name).trans hfirst.2.symm)
    rw [hhelp, htype, htype', hhelp']
    exact ⟨rfl, rfl⟩
  own := by
    intro family hfamily sample hsample
    obtain ⟨group, hgroup, hof⟩ := forall₂_exists_left hfamilies hfamily
    obtain ⟨metric, hmetric, f, -, rfl⟩ := forall₂_exists_left hof.samples hsample
    refine ⟨?_, rfl⟩
    rw [hof.name]
    exact (hgrouped.named group hgroup).2 metric hmetric

/-! ## What a text that is read has been made of -/

/-- Every line feed of a text that is read ends a line of the format. -/
theorem parseLine_of_render {text : String} {lines : List (List Char)} (htext : text.toList = Prometheus.render lines)
    (hparse : parse floats.read text = some families) {line : List Char} (hline : line ∈ lines)
    {before after : List Char} (hsplit : line ++ ['\n'] = before ++ '\n' :: after)
    (hbefore : '\n' ∉ before) : ∃ parsed, parseLine floats.read before = some parsed := by
  obtain ⟨lines₁, lines₂, rfl⟩ := List.append_of_mem hline
  have hends : Prometheus.render lines₁ = [] ∨ ∃ cs, Prometheus.render lines₁ = cs ++ ['\n'] := by
    rcases List.eq_nil_or_concat lines₁ with rfl | ⟨lines, last, rfl⟩
    · exact .inl rfl
    · refine .inr ⟨Prometheus.render lines ++ last, ?_⟩
      rw [List.concat_eq_append, render_append]
      simp [Prometheus.render]
  have hcons : Prometheus.render (line :: lines₂) = line ++ ['\n'] ++ Prometheus.render lines₂ := rfl
  have hchars : text.toList = Prometheus.render lines₁ ++ before ++
      '\n' :: (after ++ Prometheus.render lines₂) := by
    rw [htext, render_append, hcons, hsplit]
    simp
  exact Prometheus.parseLine_of_parse floats.read hparse hbefore hends hchars

/-- A name with a line feed after it breaks the line of its sample. -/
theorem plainNames_of_parse {text : String} {lines : List (List Char)}
    (htext : text.toList = Prometheus.render lines)
    (hparse : parse floats.read text = some families) (h : AcceptedMetric metric)
    (hline : sampleChars floats.repr timestamp metric ∈ lines) : PlainNames metric := by
  obtain ⟨base, hbase, hname⟩ := isMetricName_of_matches h.name
  have hbasePlain := newline_not_mem_name rfl rfl hbase
  have hname : metric.name = base := by
    rcases hname with hname | hname
    · exact hname
    · have hsplit : sampleChars floats.repr timestamp metric ++ ['\n'] = base.toList ++ '\n' ::
          (Prometheus.printLabelSet (labelPairs metric.labels) ++ ' ' :: (metric.value.text floats.repr ++
            Prometheus.printTimestamp timestamp) ++ ['\n']) := by
        simp [sampleChars, Prometheus.printSample, hname]
      obtain ⟨parsed, hparsed⟩ := parseLine_of_render htext hparse hline hsplit hbasePlain
      rw [Prometheus.parseLine_name floats.read hbase] at hparsed
      cases hparsed
  refine ⟨hname ▸ hbasePlain, fun key hkey hnewline => ?_⟩
  -- the first of the labels in the line whose name has a line feed
  obtain ⟨label, hlabel, rfl⟩ := List.mem_map.mp (mem_labelPairs_fst.mpr hkey)
  obtain ⟨⟨bad, value⟩, hfind⟩ := Option.isSome_iff_exists.mp (List.find?_isSome.mpr
    ⟨label, hlabel, decide_eq_true hnewline⟩ : ((labelPairs metric.labels).find?
      fun label => decide ('\n' ∈ label.1.toList)).isSome)
  obtain ⟨hbad, labels₁, labels₂, heq, hfirst⟩ := List.find?_eq_some_iff_append.mp hfind
  have hbad : '\n' ∈ bad.toList := of_decide_eq_true hbad
  have hfirst : ∀ label ∈ labels₁, '\n' ∉ label.1.toList := fun label hlabel => by
    simpa using hfirst label hlabel
  have hkeys : ∀ label ∈ labelPairs metric.labels, ∃ base : String, IsLabelName base ∧
      (label.1 = base ∨ label.1 = base ++ "\n") := by
    intro label hlabel
    obtain ⟨p, hp, hpkey⟩ := List.mem_map.mp (mem_labelPairs_fst.mp (List.mem_map_of_mem hlabel))
    exact isLabelName_of_matches (hpkey ▸ (h.labels p hp).2)
  obtain ⟨keyBase, hkeyBase, hkeyEq⟩ := hkeys (bad, value) (heq ▸ List.mem_append_right _ List.mem_cons_self)
  have hkeyPlain := newline_not_mem_name rfl rfl hkeyBase
  have hkeyEq : bad = keyBase ++ "\n" := by
    rcases hkeyEq with he | he
    · exact absurd (he ▸ hbad) hkeyPlain
    · exact he
  have hfirstNames : ∀ label ∈ labels₁, IsLabelName label.1 := by
    intro label hlabel
    obtain ⟨base, hbase, he | he⟩ := hkeys label (heq ▸ List.mem_append_left _ hlabel)
    · exact he ▸ hbase
    · exact absurd (he ▸ newline_mem_append base) (hfirst label hlabel)
  obtain ⟨rest, hrest⟩ := Prometheus.printLabels_append labels₁ (bad, value) labels₂
  have hset : Prometheus.printLabelSet (labelPairs metric.labels) = '{' ::
      (labels₁.flatMap (fun label => Prometheus.printLabel label ++ [',']) ++ keyBase.toList) ++
        '\n' :: ('=' :: '"' :: Prometheus.escape true value ++ ['"'] ++ rest ++ ['}']) := by
    rw [Prometheus.printLabelSet, if_neg (by rw [heq]; simp), heq, hrest]
    simp [Prometheus.printLabel, hkeyEq]
  have hsplit : sampleChars floats.repr timestamp metric ++ ['\n'] = (base.toList ++ '{' ::
      (labels₁.flatMap (fun label => Prometheus.printLabel label ++ [',']) ++ keyBase.toList)) ++
        '\n' :: ('=' :: '"' :: Prometheus.escape true value ++ ['"'] ++ rest ++ ['}'] ++
          ' ' :: (metric.value.text floats.repr ++ Prometheus.printTimestamp timestamp) ++ ['\n']) := by
    rw [sampleChars, Prometheus.printSample, hset, hname]
    simp
  have hbefore : '\n' ∉ base.toList ++ '{' ::
      (labels₁.flatMap (fun label => Prometheus.printLabel label ++ [',']) ++ keyBase.toList) := by
    simp only [List.mem_append, List.mem_cons, List.mem_flatMap, not_or, not_exists, not_and]
    refine ⟨hbasePlain, by decide, fun label hlabel => ?_, hkeyPlain⟩
    exact ⟨newline_not_mem_printLabel (hfirst label hlabel), by decide, List.not_mem_nil⟩
  obtain ⟨parsed, hparsed⟩ := parseLine_of_render htext hparse hline hsplit hbefore
  rw [Prometheus.parseLine_broken floats.read hbase hfirstNames hkeyBase] at hparsed
  cases hparsed

/-- The line of every metric is in the text. -/
theorem mem_textChars {group : String × List (Metric F)} (hgroup : group ∈ groups) {metric : Metric F}
    (hmetric : metric ∈ group.2) (n : ℕ) :
    sampleChars repr timestamp metric ∈ textChars repr timestamp n groups := by
  induction groups generalizing n with
  | nil => exact absurd hgroup List.not_mem_nil
  | cons first groups ih =>
    rcases List.mem_cons.mp hgroup with rfl | hgroup
    · obtain ⟨name, metrics⟩ := group
      cases metrics with
      | nil => exact absurd hmetric List.not_mem_nil
      | cons firstMetric metrics =>
        apply List.mem_append_left
        exact List.mem_append_right _ (List.mem_map_of_mem hmetric)
    · exact List.mem_append_right _ (ih hgroup (n + 1))

/-- A bool has a text that is no number, and an integer that no float is equal to is not given
back. -/
theorem givenBack_of_exposes (h : Exposes floats metrics timestamp families)
    (hmetric : metric ∈ metrics) (hprintable : metric.value.Printable)
    (hbool : ∀ b, metric.value ≠ .bool b) : ∃ f, GivenBack floats metric.value f := by
  obtain ⟨sample, -, heq⟩ := List.mem_map.mp (h.samples.mem_iff.mpr (List.mem_map_of_mem hmetric))
  have hexact : some sample.value = metric.value.exact floats := (Prod.mk.inj (Prod.mk.inj heq).2).2
  rcases hprintable with ⟨n, hn⟩ | ⟨b, hb⟩ | ⟨f, hf⟩
  · rw [hn] at hexact
    exact ⟨sample.value, .inr ⟨n, hn, hexact.symm⟩⟩
  · exact absurd hb (hbool b)
  · exact ⟨f, .inl hf⟩

/-- What the metrics must be like for their text to be made and to give them back. -/
structure Exposable (floats : FloatText F) (metrics : List (Metric F)) : Prop where
  digits : ∀ metric ∈ metrics, ∀ key v, (key, LabelValue.str v) ∈ metric.labels.items →
    Str.isdigit v = true → ∀ c ∈ v.toList, (Str.decimal? c).isSome = true
  ordered : ∀ metric ∈ metrics, ∀ metric' ∈ metrics, metric.name = metric'.name → ∀ key key',
    labelsConversionWithNaturalSort metric.labels = .ok key →
    labelsConversionWithNaturalSort metric'.labels = .ok key' →
    (NaturalLabels.lt? key key').isSome = true
  plain : ∀ metric ∈ metrics, PlainNames metric
  value : ∀ metric ∈ metrics, ∃ f, GivenBack floats metric.value f

/-- The natural sort compares the metrics of each name. -/
theorem groupsSortable_iff (h : ∀ metric ∈ metrics, AcceptedMetric metric) :
    GroupsSortable metrics ↔
      (∀ metric ∈ metrics, ∀ key v, (key, LabelValue.str v) ∈ metric.labels.items →
        Str.isdigit v = true → ∀ c ∈ v.toList, (Str.decimal? c).isSome = true) ∧
      ∀ metric ∈ metrics, ∀ metric' ∈ metrics, metric.name = metric'.name → ∀ key key',
        labelsConversionWithNaturalSort metric.labels = .ok key →
        labelsConversionWithNaturalSort metric'.labels = .ok key' →
        (NaturalLabels.lt? key key').isSome = true := by
  have hmem : ∀ metric ∈ metrics, metric ∈ metrics.filter (·.name = metric.name) := fun metric hmetric =>
    List.mem_filter.mpr ⟨hmetric, decide_eq_true rfl⟩
  constructor
  · intro hsort
    refine ⟨fun metric hmetric key v hlabel hdigit => ?_,
      fun metric hmetric metric' hmetric' hname key key' hkey hkey' => ?_⟩
    · have hkeyed := (hsort metric.name).keyed metric (hmem metric hmetric)
      obtain ⟨s, hs, hdigits⟩ :=
        naturalValue_returns_iff.mp (labelsConversion_returns_iff.mp hkeyed (key, .str v) hlabel)
      cases hs
      exact hdigits hdigit
    · exact (hsort metric.name).ordered metric (hmem metric hmetric) metric'
        (hname ▸ hmem metric' hmetric') key key' hkey hkey'
  · rintro ⟨hdigits, hordered⟩ name
    refine ⟨fun metric hmetric => ?_, fun metric hmetric metric' hmetric' => ?_⟩
    · have hmetric := (List.mem_filter.mp hmetric).1
      refine labelsConversion_returns_iff.mpr fun label hlabel => naturalValue_returns_iff.mpr ?_
      obtain ⟨v, hv⟩ := ((h metric hmetric).labels label hlabel).1
      exact ⟨v, hv, hdigits metric hmetric label.1 v (hv ▸ hlabel)⟩
    · obtain ⟨hmetric, hname⟩ := List.mem_filter.mp hmetric
      obtain ⟨hmetric', hname'⟩ := List.mem_filter.mp hmetric'
      exact hordered metric hmetric metric' hmetric'
        ((of_decide_eq_true hname).trans (of_decide_eq_true hname').symm)

/-- For metrics that the check accepts, of one type and help for each name, the text is made and
gives back names, labels and values exactly when they are exposable. -/
theorem exposition_roundTrips_iff (floats : FloatText F) (metrics : List (Metric F))
    (timestamp : Option ℤ) (hcheck : isConvertableToPrometheusExpositionFormat metrics = none)
    (hmeta : ∀ metric ∈ metrics, ∀ metric' ∈ metrics, metric.name = metric'.name →
      metric.type = metric'.type ∧ metric.help = metric'.help) :
    RoundTrips floats metrics timestamp ↔ Exposable floats metrics := by
  have haccepted := accepted_of_convertable hcheck
  have htexts : ∀ metric ∈ metrics, TextLabels metric.labels := fun metric hmetric label hlabel =>
    ((haccepted metric hmetric).labels label hlabel).1
  constructor
  · rintro ⟨text, hconvert, families, hparse, hexposes⟩
    obtain ⟨groups, hgroups, hconvert⟩ := except_bind_ok_iff.mp hconvert
    obtain ⟨output, houtput, hconvert⟩ := except_bind_ok_iff.mp hconvert
    cases hconvert
    have hgrouped := groupMetricsByName_ok hgroups
    have hgroup : ∀ group ∈ groups, ∀ metric ∈ group.2, metric ∈ metrics := fun group hg metric hm =>
      ((hgrouped.mem_iff hg).mp hm).1
    obtain ⟨hprintable, htext⟩ := convertGroups_render
      (fun group hg metric hm => htexts metric (hgroup group hg metric hm)) houtput
    have hline : ∀ metric ∈ metrics, metric.value.Printable ∧
        sampleChars floats.repr timestamp metric ∈ textChars floats.repr timestamp 0 groups := by
      intro metric hmetric
      obtain ⟨group, hg, hm⟩ := List.mem_flatMap.mp (hgrouped.perm.mem_iff.mpr hmetric)
      exact ⟨hprintable group hg metric hm, mem_textChars hg hm 0⟩
    have hplain : ∀ metric ∈ metrics, PlainNames metric := fun metric hmetric =>
      plainNames_of_parse htext hparse (haccepted metric hmetric) (hline metric hmetric).2
    obtain ⟨hdigits, hordered⟩ :=
      (groupsSortable_iff haccepted).mp (groupMetricsByName_returns_iff.mp ⟨groups, hgroups⟩)
    refine ⟨hdigits, hordered, hplain, fun metric hmetric => ?_⟩
    obtain ⟨hvalue, hmem⟩ := hline metric hmetric
    refine givenBack_of_exposes hexposes hmetric hvalue fun b hb => ?_
    obtain ⟨parsed, hparsed⟩ := parseLine_of_render htext hparse hmem rfl
      (newline_not_mem_sampleChars (hplain metric hmetric) hvalue)
    rw [parseLine_sampleChars floats timestamp (haccepted metric hmetric) (hplain metric hmetric) hvalue,
      hb, MetricValue.text, String.ofList_toList, floats.read_bool b] at hparsed
    cases hparsed
  · rintro ⟨hdigits, hordered, hplain, hvalue⟩
    obtain ⟨groups, hgroups⟩ := groupMetricsByName_returns_iff.mpr
      ((groupsSortable_iff haccepted).mpr ⟨hdigits, hordered⟩)
    have hgrouped := groupMetricsByName_ok hgroups
    have hgroup : ∀ group ∈ groups, ∀ metric ∈ group.2, metric ∈ metrics := fun group hg metric hm =>
      ((hgrouped.mem_iff hg).mp hm).1
    have hreadable : ∀ group ∈ groups, ∀ metric ∈ group.2, Readable floats metric := by
      intro group hg metric hm
      have hmetric := hgroup group hg metric hm
      exact ⟨haccepted metric hmetric, hplain metric hmetric, hvalue metric hmetric⟩
    have hprintable : ∀ group ∈ groups, ∀ metric ∈ group.2, metric.value.Printable := by
      intro group hg metric hm
      obtain ⟨f, hf⟩ := (hreadable group hg metric hm).value
      exact hf.read.1
    obtain ⟨output, houtput⟩ := convertGroups_returns floats.repr timestamp
      (fun group hg => (hgrouped.named group hg).1)
      (fun group hg metric hm => ⟨htexts metric (hgroup group hg metric hm), hprintable group hg metric hm⟩)
      (fun group hg metric hm metric' hm' => hmeta metric (hgroup group hg metric hm) metric'
        (hgroup group hg metric' hm') (((hgrouped.named group hg).2 metric hm).trans
          ((hgrouped.named group hg).2 metric' hm').symm)) 0 ""
    obtain ⟨-, htext⟩ := convertGroups_render
      (fun group hg metric hm => htexts metric (hgroup group hg metric hm)) houtput
    obtain ⟨families, blocks, hfamilies, hblocks, hreads⟩ :=
      reads_textChars timestamp hgrouped.named hreadable 0
    have hexposes := exposes_of_familyOf hgrouped haccepted hmeta hfamilies
    refine ⟨String.join output, ?_, families, ?_, hexposes⟩
    · exact except_bind_ok_iff.mpr ⟨groups, hgroups, except_bind_ok_iff.mpr ⟨output, houtput, rfl⟩⟩
    · have hown : ∀ family ∈ families, family.samples ≠ [] ∧
          ∀ sample ∈ family.samples, sample.name = family.name := by
        intro family hfamily
        obtain ⟨group, hg, hof⟩ := forall₂_exists_left hfamilies hfamily
        refine ⟨fun hnil => (hgrouped.named group hg).1 ?_, fun sample hsample =>
          (hexposes.own family hfamily sample hsample).1⟩
        have hsamples := hof.samples
        rw [hnil] at hsamples
        exact List.forall₂_nil_right_iff.mp hsamples
      have hnodup : (families.map Family.name ++ ([] : List (Family F)).map Family.name).Nodup := by
        rw [List.map_nil, List.append_nil]
        exact hexposes.nodup
      have hfold := Prometheus.foldlM_families hblocks hown hnodup
      have hnewline := newline_not_mem_textChars floats timestamp
        (fun group hg metric hm => ⟨(hreadable group hg metric hm).accepted,
          (hreadable group hg metric hm).plain, hprintable group hg metric hm⟩) 0
      rw [Prometheus.parse_render floats.read hnewline htext, hreads]
      change (blocks.flatten.foldlM Prometheus.addLine []).map List.reverse = some families
      rw [hfold, List.append_nil, Option.map_some, List.reverse_reverse]

/-! ## Whole floats -/

/-- The floats without a fraction. -/
def wholeFloats : FloatText ℤ where
  repr n := toString n ++ ".0"
  read s :=
    Prometheus.readInt (if s.toList.drop (s.toList.length - 2) = ['.', '0'] then
      s.toList.take (s.toList.length - 2) else s.toList)
  ofInt n := if n.natAbs ≤ 2 ^ 53 then some n else none
  repr_ne n := by
    intro h
    have hlist := congrArg String.toList h
    rw [String.toList_append] at hlist
    exact absurd hlist (List.append_ne_nil_of_right_ne_nil _ (by decide))
  repr_chars n := by
    intro c hc
    rw [String.toList_append] at hc
    rcases List.mem_append.mp hc with hc | hc
    · exact Prometheus.isNumeralChar_of_mem_toString hc
    · exact List.all_eq_true.mp (by decide : ".0".toList.all Prometheus.isNumeralChar = true) c hc
  read_repr n := by
    have hlist : (toString n ++ ".0").toList = (toString n).toList ++ ['.', '0'] := by
      rw [String.toList_append]
      rfl
    have hlength : ((toString n).toList ++ ['.', '0']).length - 2 = (toString n).toList.length := by
      rw [List.length_append]
      rfl
    rw [hlist, hlength, List.drop_left, if_pos rfl, List.take_left]
    exact Prometheus.readInt_toString n
  read_int n f h := by
    split at h
    · cases h
      rw [if_neg, Prometheus.readInt_toString]
      intro hdrop
      have hdot : '.' ∈ (toString n).toList := List.mem_of_mem_drop (hdrop ▸ List.mem_cons_self)
      cases n with
      | ofNat n => exact absurd (Prometheus.isDigit_of_mem_toString hdot) (by decide)
      | negSucc n =>
        change '.' ∈ ("-" ++ toString (n + 1)).toList at hdot
        rw [String.toList_append] at hdot
        rcases List.mem_append.mp hdot with hdot | hdot
        · exact absurd hdot (by decide)
        · exact absurd (Prometheus.isDigit_of_mem_toString hdot) (by decide)
    · cases h
  read_bool b := by
    revert b
    decide

/-- One label of a metric. -/
def oneLabel (key value : String) : Dict String LabelValue := (∅ : Dict String LabelValue).set key (.str value)

/-- A number and a word at one label of one metric. -/
def clashingMetrics : List (Metric ℤ) :=
  [{ name := "up", value := .int 1, labels := oneLabel "core" "0" },
    { name := "up", value := .int 1, labels := oneLabel "core" "all" }]

/-- They are accepted, and cannot be sorted. -/
theorem exposition_fails_to_sort :
    isConvertableToPrometheusExpositionFormat clashingMetrics = none ∧
      (∀ metric ∈ clashingMetrics, ∀ metric' ∈ clashingMetrics, metric.name = metric'.name →
        metric.type = metric'.type ∧ metric.help = metric'.help) ∧
      ¬RoundTrips wholeFloats clashingMetrics none := by
  refine ⟨by decide +kernel, by decide +kernel, ?_⟩
  rintro ⟨text, h, -⟩
  have herror : convertToPrometheusExpositionFormat wholeFloats.repr clashingMetrics none none =
      .error (.TypeError "'<' not supported between instances of 'str' and 'int'") := by
    decide +kernel
  rw [Option.map_none, herror] at h
  cases h

def someMetrics : List (Metric ℤ) :=
  [{ name := "up", value := .int 1, labels := oneLabel "core" "10", help := some "state" },
    { name := "load", value := .float 2, labels := oneLabel "host" "a\"b", type := some "gauge" },
    { name := "up", value := .int 0, labels := oneLabel "core" "9", help := some "state" }]

theorem exposition_roundTrips_someMetrics : RoundTrips wholeFloats someMetrics (some 1531729598000) := by
  have hcheck : isConvertableToPrometheusExpositionFormat someMetrics = none := by decide +kernel
  have hgroups : ∃ groups, groupMetricsByName someMetrics = .ok groups :=
    except_exists_of_isOk (by decide +kernel)
  obtain ⟨hdigits, hordered⟩ := (groupsSortable_iff (accepted_of_convertable hcheck)).mp
    (groupMetricsByName_returns_iff.mp hgroups)
  refine (exposition_roundTrips_iff wholeFloats someMetrics _ hcheck (by decide +kernel)).mpr
    ⟨hdigits, hordered, fun metric hmetric => ?_, fun metric hmetric => ?_⟩
  · obtain ⟨hname, hkeys⟩ := (by decide +kernel : ∀ metric ∈ someMetrics, '\n' ∉ metric.name.toList ∧
      ∀ key ∈ metric.labels.keys, '\n' ∉ key.toList) metric hmetric
    exact ⟨hname, hkeys⟩
  · rcases List.mem_cons.mp hmetric with rfl | hmetric
    · exact ⟨1, .inr ⟨1, rfl, by decide⟩⟩
    · rcases List.mem_cons.mp hmetric with rfl | hmetric
      · exact ⟨2, .inl rfl⟩
      · cases List.mem_singleton.mp hmetric
        exact ⟨0, .inr ⟨0, rfl, by decide⟩⟩

end Wca
