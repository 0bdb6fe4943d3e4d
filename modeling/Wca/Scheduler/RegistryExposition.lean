import Wca.Scheduler.MetricRegistry
import Wca.Exposition

/-!
# The exposition of the registry

`prometheusExposition` means to answer with an empty text where a stored metric is not convertible.
The check answers with a pair, which is true in any case, so the conversion always runs.
`AllOrNothing` is what is meant, and `Presentable` says of which registries it holds.
-/

namespace Wca.Scheduler.MetricRegistry

open Py

variable {F L : Type}

/-- A metric as the converter reads it; `view` is what it finds in place of a label value. -/
def shown (view : L → LabelValue) (metric : Metric (MetricValue F) L) : Wca.Metric F where
  name := metric.name
  value := metric.value
  labels := metric.labels.map fun _ v => view v
  type := metric.type
  help := metric.help

/-- `bool(answer)` of the pair that the check returns: a pair is not empty, whatever is in it. -/
def answerIsTrue (_ : Option Inconvertible) : Bool := true

def prometheusExposition (repr : F → String) (view : L → LabelValue)
    (self : MetricRegistry (MetricValue F) L) : Except Exc String :=
  let metrics := self.stored.map (shown view)
  if answerIsTrue (isConvertableToPrometheusExpositionFormat metrics) then
    liftM (convertToPrometheusExpositionFormat repr metrics none none)
  else pure ""

/-- The lines of the text are one for the sample of each metric, besides comments and empty lines. -/
def HoldsSamples (repr : F → String) (metrics : List (Wca.Metric F)) (text : String) : Prop :=
  ∃ lines : List (List Char × Option (Wca.Metric F)),
    text.toList = Prometheus.render (lines.map Prod.fst) ∧ (∀ line ∈ lines, '\n' ∉ line.1) ∧
    (lines.filterMap Prod.snd).Perm metrics ∧
    (∀ line ∈ lines, line.2 = none → line.1 = [] ∨ line.1.head? = some '#') ∧
    ∀ line ∈ lines, ∀ metric, line.2 = some metric → line.1 = sampleChars repr none metric

/-- The text comes back: an empty one if the check rejects a metric, else one with a sample for each. -/
def AllOrNothing (repr : F → String) (view : L → LabelValue)
    (self : MetricRegistry (MetricValue F) L) : Prop :=
  ∃ text, prometheusExposition repr view self = .ok text ∧
    ((∃ metric ∈ self.stored, checkMetric (shown view metric) ≠ none) → text = "") ∧
    ((∀ metric ∈ self.stored, checkMetric (shown view metric) = none) →
      HoldsSamples repr (self.stored.map (shown view)) text)

/-! ## The converter -/

section Converter

variable {repr : F → String} {metrics : List (Wca.Metric F)}
  {groups : List (String × List (Wca.Metric F))} {output : List String}

/-- What the groups were like, and where their samples are. -/
theorem convertGroups_inv {n : ℕ} {groupSeparator : String}
    (h : convertGroups repr none none n groupSeparator groups = .ok output) :
    ∀ group ∈ groups, (∀ metric ∈ group.2, ∀ metric' ∈ group.2,
        metric.type = metric'.type ∧ metric.help = metric'.help) ∧
      ∀ metric ∈ group.2, ∃ s ∈ output, sampleLine repr none none metric = .ok s := by
  induction groups generalizing n groupSeparator output with
  | nil => exact fun _ h => (nomatch h)
  | cons group groups ih =>
    obtain ⟨⟨lines, groupSeparator'⟩, hgroup, h⟩ := except_bind_ok_iff.mp h
    obtain ⟨rest, hrest, he⟩ := except_bind_ok_iff.mp h
    cases he
    rw [List.forall_mem_cons]
    constructor
    · obtain ⟨name, metrics⟩ := group
      cases metrics with
      | nil => exact ⟨fun _ h => (nomatch h), fun _ h => (nomatch h)⟩
      | cons firstMetric metrics =>
        obtain ⟨hmeta, samples, hsamples, he⟩ := convertGroup_ok_iff.mp hgroup
        cases he
        constructor
        · intro metric hm metric' hm'
          exact ⟨(hmeta metric hm).1.trans (hmeta metric' hm').1.symm,
            (hmeta metric hm).2.trans (hmeta metric' hm').2.symm⟩
        · intro metric hm
          obtain ⟨s, hs, hline⟩ := forall₂_exists_right (except_mapM_ok_iff.mp hsamples) hm
          exact ⟨s, List.mem_append_left _ (List.mem_append_right _ hs), hline⟩
    · intro group' hgroup'
      obtain ⟨hmeta, hlines⟩ := ih hrest group' hgroup'
      refine ⟨hmeta, fun metric hm => ?_⟩
      obtain ⟨s, hs, hline⟩ := hlines metric hm
      exact ⟨s, List.mem_append_right _ hs, hline⟩

theorem sampleLine_ne_empty {metric : Wca.Metric F} {s : String}
    (h : sampleLine repr none none metric = .ok s) : s ≠ "" := by
  obtain ⟨label, -, h⟩ := except_bind_ok_iff.mp h
  obtain ⟨value, -, h⟩ := except_bind_ok_iff.mp h
  cases h
  intro hnil
  have hlist := congrArg String.toList hnil
  simp [sampleText] at hlist

/-- A text of metrics is not empty. -/
theorem convert_ne_empty {text : String} {metric : Wca.Metric F} (hmetric : metric ∈ metrics)
    (h : convertToPrometheusExpositionFormat repr metrics none none = .ok text) : text ≠ "" := by
  obtain ⟨groups, hgroups, h⟩ := except_bind_ok_iff.mp h
  obtain ⟨output, houtput, h⟩ := except_bind_ok_iff.mp h
  cases h
  obtain ⟨group, hg, hm⟩ := List.mem_flatMap.mp
    ((groupMetricsByName_ok hgroups).perm.mem_iff.mpr hmetric)
  obtain ⟨s, hs, hline⟩ := (convertGroups_inv houtput group hg).2 metric hm
  intro hnil
  have hlist := congrArg String.toList hnil
  rw [String.toList_join] at hlist
  have hs' := List.flatMap_eq_nil_iff.mp hlist s hs
  exact sampleLine_ne_empty hline (String.toList_eq_nil_iff.mp hs')

/-- The lines of the groups, each with the metric that it is a sample of, if it is one. -/
def taggedChars (repr : F → String) : ℕ → List (String × List (Wca.Metric F)) →
    List (List Char × Option (Wca.Metric F))
  | _, [] => []
  | n, (_, []) :: groups => taggedChars repr (n + 1) groups
  | n, (_, firstMetric :: metrics) :: groups =>
    (metaChars n firstMetric).map (fun line => (line, none)) ++
      (firstMetric :: metrics).map (fun metric => (sampleChars repr none metric, some metric)) ++
        taggedChars repr (n + 1) groups

theorem taggedChars_lines (n : ℕ) :
    (taggedChars repr n groups).map Prod.fst = textChars repr none n groups := by
  induction n, groups using taggedChars.induct with
  | case1 n => rfl
  | case2 n name groups ih =>
    rw [taggedChars, textChars, ih]
    rfl
  | case3 n name firstMetric metrics groups ih =>
    rw [taggedChars, textChars, List.map_append, List.map_append, ih, List.map_map, List.map_map]
    congr 2
    exact List.map_id _

theorem taggedChars_metrics (n : ℕ) :
    (taggedChars repr n groups).filterMap Prod.snd = groups.flatMap Prod.snd := by
  induction n, groups using taggedChars.induct with
  | case1 n => rfl
  | case2 n name groups ih =>
    rw [taggedChars, ih]
    rfl
  | case3 n name firstMetric metrics groups ih =>
    have hmeta : ((metaChars n firstMetric).map fun line =>
        (line, (none : Option (Wca.Metric F)))).filterMap Prod.snd = [] := by
      rw [List.filterMap_eq_nil_iff]
      intro line hline
      obtain ⟨_, _, rfl⟩ := List.mem_map.mp hline
      rfl
    rw [taggedChars, List.filterMap_append, List.filterMap_append, hmeta, List.nil_append, ih,
      List.filterMap_map, List.flatMap_cons]
    congr 1
    exact List.filterMap_some

/-- A line before the samples of a group is empty or a comment. -/
theorem metaChars_comment {n : ℕ} {metric : Wca.Metric F} {line : List Char}
    (h : line ∈ metaChars n metric) : line = [] ∨ line.head? = some '#' := by
  unfold metaChars at h
  rcases List.mem_append.mp h with h | h
  · split at h
    · rcases List.mem_append.mp h with h | h
      · split at h
        · exact .inl (List.mem_singleton.mp h)
        · cases h
      · rw [List.mem_singleton.mp h]
        exact .inr rfl
    · cases h
  · split at h
    · rw [List.mem_singleton.mp h]
      exact .inr rfl
    · cases h

theorem mem_taggedChars {n : ℕ} {line : List Char × Option (Wca.Metric F)}
    (h : line ∈ taggedChars repr n groups) :
    (line.2 = none ∧ (line.1 = [] ∨ line.1.head? = some '#')) ∨
      ∃ metric, line.2 = some metric ∧ line.1 = sampleChars repr none metric := by
  induction n, groups using taggedChars.induct with
  | case1 n => cases h
  | case2 n name groups ih =>
    rw [taggedChars] at h
    exact ih h
  | case3 n name firstMetric metrics groups ih =>
    rw [taggedChars] at h
    rcases List.mem_append.mp h with h | h
    · rcases List.mem_append.mp h with h | h
      · obtain ⟨chars, hchars, rfl⟩ := List.mem_map.mp h
        exact .inl ⟨rfl, metaChars_comment hchars⟩
      · obtain ⟨metric, _, rfl⟩ := List.mem_map.mp h
        exact .inr ⟨metric, rfl, rfl⟩
    · exact ih h

/-- Stored metrics that are converted as they are meant to be: the check accepts them, those of one
name have one type and help and an order, and each sample is one line. -/
structure Presentable (metrics : List (Wca.Metric F)) : Prop where
  accepted : ∀ metric ∈ metrics, checkMetric metric = none
  sortable : GroupsSortable metrics
  metadata : ∀ metric ∈ metrics, ∀ metric' ∈ metrics, metric.name = metric'.name →
    metric.type = metric'.type ∧ metric.help = metric'.help
  printable : ∀ metric ∈ metrics, metric.value.Printable
  plain : ∀ metric ∈ metrics, PlainNames metric

theorem textLabels_of_accepted {metric : Wca.Metric F} (h : checkMetric metric = none) :
    TextLabels metric.labels := fun label hlabel => ((accepted_of_check h).labels label hlabel).1

theorem holdsSamples_of_presentable (floats : FloatText F) (h : Presentable metrics) : ∃ text,
    convertToPrometheusExpositionFormat floats.repr metrics none none = .ok text ∧
      HoldsSamples floats.repr metrics text := by
  obtain ⟨groups, hgroups⟩ := groupMetricsByName_returns_iff.mpr h.sortable
  have hgrouped := groupMetricsByName_ok hgroups
  have hgroup : ∀ group ∈ groups, ∀ metric ∈ group.2, metric ∈ metrics := fun group hg metric hm =>
    ((hgrouped.mem_iff hg).mp hm).1
  have htexts : ∀ group ∈ groups, ∀ metric ∈ group.2, TextLabels metric.labels :=
    fun group hg metric hm => textLabels_of_accepted (h.accepted metric (hgroup group hg metric hm))
  obtain ⟨output, houtput⟩ := convertGroups_returns floats.repr none
    (fun group hg => (hgrouped.named group hg).1)
    (fun group hg metric hm =>
      ⟨htexts group hg metric hm, h.printable metric (hgroup group hg metric hm)⟩)
    (fun group hg metric hm metric' hm' => h.metadata metric (hgroup group hg metric hm) metric'
      (hgroup group hg metric' hm') (((hgrouped.named group hg).2 metric hm).trans
        ((hgrouped.named group hg).2 metric' hm').symm)) 0 ""
  obtain ⟨-, htext⟩ := convertGroups_render htexts houtput
  refine ⟨String.join output, except_bind_ok_iff.mpr ⟨groups, hgroups,
    except_bind_ok_iff.mpr ⟨output, houtput, rfl⟩⟩, taggedChars floats.repr 0 groups, ?_, ?_, ?_, ?_, ?_⟩
  · rw [taggedChars_lines]
    exact htext
  · intro line hline
    apply newline_not_mem_textChars floats none (fun group hg metric hm => ?_) 0 line.1
    · rw [← taggedChars_lines]
      exact List.mem_map_of_mem hline
    · have hmetric := hgroup group hg metric hm
      exact ⟨accepted_of_check (h.accepted metric hmetric), h.plain metric hmetric,
        h.printable metric hmetric⟩
  · rw [taggedChars_metrics]
    exact hgrouped.perm
  · intro line hline hnone
    rcases mem_taggedChars hline with ⟨-, hcomment⟩ | ⟨metric, hsome, -⟩
    · exact hcomment
    · rw [hnone] at hsome
      cases hsome
  · intro line hline metric hsome
    rcases mem_taggedChars hline with ⟨hnone, -⟩ | ⟨metric', hsome', hchars⟩
    · rw [hnone] at hsome
      cases hsome
    · rw [hsome'] at hsome
      cases hsome
      exact hchars

theorem mem_printLabels {labels : List (String × String)} {label : String × String} {c : Char}
    (h : label ∈ labels) (hc : c ∈ Prometheus.printLabel label) : c ∈ Prometheus.printLabels labels := by
  obtain ⟨labels₁, labels₂, rfl⟩ := List.append_of_mem h
  obtain ⟨rest, hrest⟩ := Prometheus.printLabels_append labels₁ label labels₂
  rw [hrest]
  simp [hc]

/-- The name and the label names are in the line of a sample. -/
theorem plainNames_of_sampleChars {metric : Wca.Metric F} (h : '\n' ∉ sampleChars repr none metric) :
    PlainNames metric := by
  unfold sampleChars Prometheus.printSample at h
  simp only [List.mem_append, List.mem_cons, not_or] at h
  obtain ⟨hname, hset, -⟩ := h
  refine ⟨hname, fun key hkey hnewline => hset ?_⟩
  obtain ⟨label, hlabel, rfl⟩ := List.mem_map.mp (mem_labelPairs_fst.mpr hkey)
  rw [Prometheus.printLabelSet, if_neg (List.ne_nil_of_mem hlabel)]
  refine List.mem_cons_of_mem _ (List.mem_append_left _ (mem_printLabels hlabel ?_))
  exact List.mem_append_left _ (List.mem_append_left _ hnewline)

theorem presentable_of_holdsSamples {text : String}
    (haccepted : ∀ metric ∈ metrics, checkMetric metric = none)
    (htext : convertToPrometheusExpositionFormat repr metrics none none = .ok text)
    (hholds : HoldsSamples repr metrics text) : Presentable metrics := by
  obtain ⟨groups, hgroups, htext⟩ := except_bind_ok_iff.mp htext
  obtain ⟨output, houtput, -⟩ := except_bind_ok_iff.mp htext
  have hgrouped := groupMetricsByName_ok hgroups
  have hin : ∀ metric ∈ metrics, ∃ group ∈ groups, metric ∈ group.2 := fun metric hm =>
    List.mem_flatMap.mp (hgrouped.perm.mem_iff.mpr hm)
  refine ⟨haccepted, groupMetricsByName_returns_iff.mp ⟨groups, hgroups⟩, ?_, ?_, ?_⟩
  · intro metric hm metric' hm' hname
    obtain ⟨group, hg, hmg⟩ := hin metric hm
    refine (convertGroups_inv houtput group hg).1 metric hmg metric' ?_
    exact (hgrouped.mem_iff hg).mpr ⟨hm', hname.symm.trans ((hgrouped.named group hg).2 metric hmg)⟩
  · intro metric hm
    obtain ⟨group, hg, hmg⟩ := hin metric hm
    obtain ⟨s, -, hs⟩ := (convertGroups_inv houtput group hg).2 metric hmg
    have hline : sampleLine repr ((none : Option ℤ).map toString) none metric = .ok s := hs
    exact ((sampleLine_ok_iff (textLabels_of_accepted (haccepted metric hm))).mp hline).1
  · intro metric hm
    obtain ⟨lines, -, hnewline, hperm, -, hsamples⟩ := hholds
    obtain ⟨line, hline, hsome⟩ := List.mem_filterMap.mp (hperm.mem_iff.mpr hm)
    have hchars : '\n' ∉ sampleChars repr none metric := by
      rw [← hsamples line hline metric hsome]
      exact hnewline line hline
    exact plainNames_of_sampleChars hchars

end Converter

/-! ## The registry -/

variable {view : L → LabelValue} {self : MetricRegistry (MetricValue F) L}

/-- The conversion always runs. -/
theorem prometheusExposition_ok_iff {repr : F → String} {text : String} :
    prometheusExposition repr view self = .ok text ↔
      convertToPrometheusExpositionFormat repr (self.stored.map (shown view)) none none = .ok text :=
  liftM_ok_iff

theorem allOrNothing_iff (floats : FloatText F) :
    AllOrNothing floats.repr view self ↔ Presentable (self.stored.map (shown view)) := by
  constructor
  · intro ⟨text, htext, hempty, hsamples⟩
    rw [prometheusExposition_ok_iff] at htext
    have haccepted : ∀ metric ∈ self.stored, checkMetric (shown view metric) = none := by
      intro metric hmetric
      by_contra hnot
      exact convert_ne_empty (List.mem_map_of_mem hmetric) htext (hempty ⟨metric, hmetric, hnot⟩)
    exact presentable_of_holdsSamples (List.forall_mem_map.mpr haccepted) htext (hsamples haccepted)
  · intro h
    obtain ⟨text, htext, hholds⟩ := holdsSamples_of_presentable floats h
    refine ⟨text, prometheusExposition_ok_iff.mpr htext, fun hrejected => ?_, fun _ => hholds⟩
    obtain ⟨metric, hmetric, hnot⟩ := hrejected
    exact absurd (h.accepted _ (List.mem_map_of_mem hmetric)) hnot

/-- After any calls that did not raise, the exposition is all or nothing just when the metrics that
are stored are presentable. -/
theorem runs_allOrNothing_iff [DecidableEq L] (floats : FloatText F)
    (plus : MetricValue F → MetricValue F → Except Exc (MetricValue F)) (view : L → LabelValue)
    (calls : List (Call (MetricValue F) L)) (self : MetricRegistry (MetricValue F) L) :
    runs plus calls = .ok self →
      (AllOrNothing floats.repr view self ↔ Presentable (self.stored.map (shown view))) :=
  fun _ => allOrNothing_iff floats

/-- The addition of integers; nothing else is added up here. -/
def addIntValues : MetricValue ℤ → MetricValue ℤ → Except Exc (MetricValue ℤ)
  | .int a, .int b => .ok (.int (a + b))
  | _, _ => .error (.builtin (.TypeError "unsupported operand type(s) for +="))

/-- A metric without labels. -/
def bareMetric (name : String) (value : MetricValue ℤ) : Metric (MetricValue ℤ) String where
  name := name
  value := value

theorem runs_allOrNothing_iff_bareMetric :
    AllOrNothing wholeFloats.repr LabelValue.str (Dict.ofItems [("up", [bareMetric "up" (.int 1)])]) ↔
      Presentable (stored (Dict.ofItems [("up", [bareMetric "up" (.int 1)])]) |>.map
        (shown LabelValue.str)) :=
  runs_allOrNothing_iff wholeFloats addIntValues LabelValue.str [.add (bareMetric "up" (.int 1))] _ rfl

/-- A metric with a name that is no name of a metric comes out in the text, and one with a value that
is no number ends the exposition with an assertion. -/
theorem exposes_rejected :
    (runs addIntValues [.add (bareMetric "1up" (.int 1))] =
        .ok (Dict.ofItems [("1up", [bareMetric "1up" (.int 1)])]) ∧
      checkMetric (shown LabelValue.str (bareMetric "1up" (.int 1))) ≠ none ∧
      prometheusExposition wholeFloats.repr LabelValue.str
        (Dict.ofItems [("1up", [bareMetric "1up" (.int 1)])]) = .ok "1up 1\n" ∧
      ¬AllOrNothing wholeFloats.repr LabelValue.str
        (Dict.ofItems [("1up", [bareMetric "1up" (.int 1)])])) ∧
    runs addIntValues [.add (bareMetric "up" (.other "str"))] =
        .ok (Dict.ofItems [("up", [bareMetric "up" (.other "str")])]) ∧
      prometheusExposition wholeFloats.repr LabelValue.str
        (Dict.ofItems [("up", [bareMetric "up" (.other "str")])]) =
          .error (.builtin (.AssertionError "")) := by
  have htext : prometheusExposition wholeFloats.repr LabelValue.str
      (Dict.ofItems [("1up", [bareMetric "1up" (.int 1)])]) = .ok "1up 1\n" := by decide +kernel
  have hrejected : checkMetric (shown LabelValue.str (bareMetric "1up" (.int 1))) ≠ none := by
    decide +kernel
  refine ⟨⟨rfl, hrejected, htext, fun ⟨text, h, hempty, _⟩ => ?_⟩, rfl, by decide +kernel⟩
  rw [htext] at h
  cases h
  exact absurd (hempty ⟨_, List.mem_cons_self, hrejected⟩) (by decide)

end Wca.Scheduler.MetricRegistry
