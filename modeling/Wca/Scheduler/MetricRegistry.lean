import Wca.Allocators
import Wca.Storage

/-!
# The registry of metrics

`MetricRegistry` keeps metrics by their names. A metric with the labels of one that is already here
changes the value of that one, by its type. A value is of a type with an addition `plus` that may
raise, and a label value is of any type.
-/

namespace Wca.Scheduler

open Py

/-- A metric, with all that is compared when it comes a second time. -/
structure Metric (V L : Type) where
  name : String
  value : V
  labels : Dict String L := ∅
  unit : Option String := none
  type : Option String := none
  help : Option String := none
  granularity : Option String := none
  deriving DecidableEq

variable {V L : Type} [DecidableEq L]

/-- `a == b` for two dictionaries, whatever the order of their items. -/
def SameLabels (a b : Dict String L) : Prop := a.items.Perm b.items

instance (a b : Dict String L) : Decidable (SameLabels a b) :=
  inferInstanceAs (Decidable (List.Perm _ _))

abbrev MetricRegistry (V L : Type) := Dict String (List (Metric V L))

omit [DecidableEq L] in
def checkMetricMetadata (first second : Metric V L) : Except Exc Unit := do
  assert (first.help = second.help) ("improper help for '" ++ first.name ++ "'")
  assert (first.unit = second.unit) ("improper unit for '" ++ first.name ++ "'")
  assert (first.type = second.type) ("improper type for '" ++ first.name ++ "'")
  assert (first.granularity = second.granularity) ("improper granularity for '" ++ first.name ++ "'")

namespace MetricRegistry

variable (plus : V → V → Except Exc V)

omit [DecidableEq L] in
/-- The value of a metric that is already here, when it comes again. -/
def updateValue (registeredMetric metric : Metric V L) : Except Exc V :=
  if metric.type = some MetricType.GAUGE then pure metric.value
  else if metric.type = some MetricType.COUNTER then plus registeredMetric.value metric.value
  else pure registeredMetric.value

/-- One turn of the loop over the metrics of the name. -/
def updateRegistered (metric registeredMetric : Metric V L) : Except Exc (Metric V L) :=
  if SameLabels registeredMetric.labels metric.labels then do
    checkMetricMetadata registeredMetric metric
    let value ← updateValue plus registeredMetric metric
    pure { registeredMetric with value }
  else pure registeredMetric

def add (self : MetricRegistry V L) (metric : Metric V L) : Except Exc (MetricRegistry V L) :=
  match self.get? metric.name with
  | some registered => do
    let updated ← registered.mapM (updateRegistered plus metric)
    let metricAlreadyHere := registered.any fun registeredMetric =>
      SameLabels registeredMetric.labels metric.labels
    pure (self.set metric.name (if metricAlreadyHere then updated else updated ++ [metric]))
  | none => pure (self.set metric.name [metric])

def extend (self : MetricRegistry V L) (metrics : List (Metric V L)) :
    Except Exc (MetricRegistry V L) := metrics.foldlM (add plus) self

/-- A call to the registry. -/
inductive Call (V L : Type) where
  | add (metric : Metric V L)
  | extend (metrics : List (Metric V L))

/-- The metrics that a call adds. -/
def Call.metrics : Call V L → List (Metric V L)
  | .add metric => [metric]
  | .extend metrics => metrics

def Call.run (self : MetricRegistry V L) : Call V L → Except Exc (MetricRegistry V L)
  | .add metric => MetricRegistry.add plus self metric
  | .extend metrics => MetricRegistry.extend plus self metrics

/-- The registry after some calls, none of which raised. -/
def runs (calls : List (Call V L)) : Except Exc (MetricRegistry V L) := calls.foldlM (Call.run plus) ∅

/-- All the metrics that are stored. -/
def stored (self : MetricRegistry V L) : List (Metric V L) := self.items.flatMap Prod.snd

/-! ## The series -/

/-- The metrics with the name and the labels. -/
def series (metrics : List (Metric V L)) (name : String) (labels : Dict String L) :
    List (Metric V L) :=
  metrics.filter fun metric => metric.name = name ∧ SameLabels metric.labels labels

/-- The sum of the values, in their order. -/
def IsSum (values : List V) (v : V) : Prop :=
  ∃ first rest, values = first :: rest ∧ rest.foldlM plus first = .ok v

/-- One entry for each series that was added, and its current value. -/
def OneCurrent (added : List (Metric V L)) (self : MetricRegistry V L) : Prop :=
  ∀ name labels, (series added name labels = [] → series self.stored name labels = []) ∧
    (series added name labels ≠ [] → ∃ entry, series self.stored name labels = [entry] ∧
      (entry.type = some MetricType.COUNTER →
        IsSum plus ((series added name labels).map Metric.value) entry.value) ∧
      (entry.type ≠ some MetricType.COUNTER →
        ((series added name labels).map Metric.value).getLast? = some entry.value))

/-! ## What one addition does -/

variable {plus}
variable {metric metric' entry entry' : Metric V L} {metrics added : List (Metric V L)}
  {self self' : MetricRegistry V L} {name : String} {labels labels' labels'' : Dict String L}

omit [DecidableEq L] in
theorem SameLabels.refl (labels : Dict String L) : SameLabels labels labels := List.Perm.refl _

omit [DecidableEq L] in
theorem checkMetricMetadata_ok_iff {u : Unit} : checkMetricMetadata metric metric' = .ok u ↔
    metric.help = metric'.help ∧ metric.unit = metric'.unit ∧ metric.type = metric'.type ∧
      metric.granularity = metric'.granularity := by
  rw [checkMetricMetadata, except_seq_ok_iff, except_seq_ok_iff, except_seq_ok_iff, assert_ok_iff,
    assert_ok_iff, assert_ok_iff, assert_ok_iff]

/-- An entry of the series gets its new value, every other stays as it is. -/
structure Updated (plus : V → V → Except Exc V) (metric entry entry' : Metric V L) : Prop where
  name : entry'.name = entry.name
  labels : entry'.labels = entry.labels
  type : entry'.type = entry.type
  same : SameLabels entry.labels metric.labels →
    metric.type = entry.type ∧ updateValue plus entry metric = .ok entry'.value
  other : ¬SameLabels entry.labels metric.labels → entry' = entry

theorem updated_of_ok (h : updateRegistered plus metric entry = .ok entry') :
    Updated plus metric entry entry' := by
  rw [updateRegistered] at h
  split at h
  · next hsame =>
    obtain ⟨hmeta, h⟩ := except_seq_ok_iff.mp h
    obtain ⟨value, hvalue, h⟩ := except_bind_ok_iff.mp h
    cases h
    obtain ⟨-, -, htype, -⟩ := checkMetricMetadata_ok_iff.mp hmeta
    exact ⟨rfl, rfl, rfl, fun _ => ⟨htype.symm, hvalue⟩, fun hnot => absurd hsame hnot⟩
  · next hnot =>
    cases h
    exact ⟨rfl, rfl, rfl, fun hsame => absurd hsame hnot, fun _ => rfl⟩

/-- An addition changes the entries of its name: those that are there, and the metric itself where it
was not among them. -/
theorem add_ok (h : add plus self metric = .ok self') : ∃ updated,
    List.Forall₂ (Updated plus metric) ((self.get? metric.name).getD []) updated ∧
      self' = self.set metric.name
        (if ∃ entry ∈ (self.get? metric.name).getD [], SameLabels entry.labels metric.labels then updated
        else updated ++ [metric]) := by
  rw [add] at h
  cases hget : self.get? metric.name with
  | none =>
    rw [hget] at h
    cases h
    exact ⟨[], List.Forall₂.nil, by simp⟩
  | some registered =>
    rw [hget] at h
    obtain ⟨updated, hupdated, h⟩ := except_bind_ok_iff.mp h
    cases h
    refine ⟨updated, (except_mapM_ok_iff.mp hupdated).imp fun _ _ he => updated_of_ok he, ?_⟩
    simp only [Option.getD_some, List.any_eq_true, decide_eq_true_eq]

/-! ## The invariant -/

variable (plus) in
/-- The value of an entry, by the values that were added to its series. -/
def Current (type : Option String) (values : List V) (v : V) : Prop :=
  if type = some MetricType.GAUGE then values.getLast? = some v
  else if type = some MetricType.COUNTER then IsSum plus values v
  else values.head? = some v

omit [DecidableEq L] in
theorem Current.snoc {values : List V} {v : V} (h : Current plus entry.type values entry.value)
    (htype : metric.type = entry.type) (hv : updateValue plus entry metric = .ok v) :
    Current plus entry.type (values ++ [metric.value]) v := by
  rw [updateValue, htype] at hv
  unfold Current at h ⊢
  split
  · next hgauge =>
    rw [if_pos hgauge] at hv
    cases hv
    exact List.getLast?_concat
  · next hgauge =>
    rw [if_neg hgauge] at h hv
    split
    · next hcounter =>
      rw [if_pos hcounter] at h hv
      obtain ⟨first, rest, rfl, hsum⟩ := h
      refine ⟨first, rest ++ [metric.value], rfl, ?_⟩
      rw [List.foldlM_append, hsum, except_ok_bind, List.foldlM_cons, hv]
      rfl
    · next hcounter =>
      rw [if_neg hcounter] at h hv
      cases hv
      rw [List.head?_append, h]
      rfl

theorem current_singleton {type : Option String} {v : V} : Current plus type [v] v := by
  unfold Current
  split
  · rfl
  · split
    · exact ⟨v, [], rfl, rfl⟩
    · rfl

variable (plus) in
/-- What the entries of a name are, by what was added: they differ in their labels, each of them is
current, and there is one for each series. -/
structure Keeps (added : List (Metric V L)) (name : String) (entries : List (Metric V L)) : Prop where
  names : ∀ entry ∈ entries, entry.name = name
  apart : entries.Pairwise fun entry entry' => ¬SameLabels entry.labels entry'.labels
  current : ∀ entry ∈ entries,
    Current plus entry.type ((series added name entry.labels).map Metric.value) entry.value
  types : ∀ entry ∈ entries, ∀ metric ∈ series added name entry.labels, metric.type = entry.type
  covers : ∀ metric ∈ added, metric.name = name →
    ∃ entry ∈ entries, SameLabels entry.labels metric.labels

theorem mem_series : entry ∈ series metrics name labels ↔
    entry ∈ metrics ∧ entry.name = name ∧ SameLabels entry.labels labels := by
  rw [series, List.mem_filter, decide_eq_true_eq]

theorem series_congr (h : SameLabels labels labels') :
    series metrics name labels = series metrics name labels' := by
  refine List.filter_congr fun m _ => ?_
  have hiff : SameLabels m.labels labels ↔ SameLabels m.labels labels' :=
    ⟨fun hm => hm.trans h, fun hm => hm.trans h.symm⟩
  simp only [hiff]

theorem series_append {metrics' : List (Metric V L)} : series (metrics ++ metrics') name labels =
    series metrics name labels ++ series metrics' name labels := List.filter_append _ _

theorem series_singleton_of (hname : metric.name = name) (h : SameLabels metric.labels labels) :
    series [metric] name labels = [metric] := by
  simp [series, hname, h]

theorem series_singleton_of_not (h : ¬(metric.name = name ∧ SameLabels metric.labels labels)) :
    series [metric] name labels = [] := by
  simp only [series]
  simp [h]

/-- The entries of another name. -/
theorem Keeps.other {entries : List (Metric V L)} (h : Keeps plus added name entries)
    (hne : metric.name ≠ name) : Keeps plus (added ++ [metric]) name entries := by
  refine ⟨h.names, h.apart, fun entry hentry => ?_, fun entry hentry => ?_, fun m hm hname => ?_⟩
  · rw [series_append, series_singleton_of_not fun hs => hne hs.1, List.append_nil]
    exact h.current entry hentry
  · rw [series_append, series_singleton_of_not fun hs => hne hs.1, List.append_nil]
    exact h.types entry hentry
  · rcases List.mem_append.mp hm with hm | hm
    · exact h.covers m hm hname
    · cases List.mem_singleton.mp hm
      exact absurd hname hne

/-- The entries of the name, once the values are changed. -/
theorem Keeps.updated {entries updated : List (Metric V L)} (h : Keeps plus added metric.name entries)
    (hall : List.Forall₂ (Updated plus metric) entries updated) :
    (∀ entry ∈ updated, entry.name = metric.name) ∧
      (updated.Pairwise fun entry entry' => ¬SameLabels entry.labels entry'.labels) ∧
      (∀ entry ∈ updated, Current plus entry.type
        ((series (added ++ [metric]) metric.name entry.labels).map Metric.value) entry.value) ∧
      (∀ entry ∈ updated, ∀ m ∈ series (added ++ [metric]) metric.name entry.labels,
        m.type = entry.type) ∧
      ∀ m ∈ added, m.name = metric.name → ∃ entry ∈ updated, SameLabels entry.labels m.labels := by
  refine ⟨fun entry' hentry' => ?_, ?_, fun entry' hentry' => ?_, fun entry' hentry' m hm => ?_,
    fun m hm hname => ?_⟩
  · obtain ⟨entry, hentry, hup⟩ := forall₂_exists_left hall hentry'
    rw [hup.name]
    exact h.names entry hentry
  · have hlabels : updated.map Metric.labels = entries.map Metric.labels := by
      have hmap : List.Forall₂ (· = ·) (updated.map Metric.labels) (entries.map Metric.labels) := by
        rw [List.forall₂_map_left_iff, List.forall₂_map_right_iff]
        exact hall.flip.imp fun _ _ hup => hup.labels
      exact List.forall₂_eq_eq_eq ▸ hmap
    have hpair : (entries.map Metric.labels).Pairwise fun a b => ¬SameLabels a b :=
      List.pairwise_map.mpr h.apart
    rw [← hlabels] at hpair
    exact List.pairwise_map.mp hpair
  · obtain ⟨entry, hentry, hup⟩ := forall₂_exists_left hall hentry'
    have hcurrent := h.current entry hentry
    rw [series_append, hup.type, hup.labels]
    by_cases hsame : SameLabels entry.labels metric.labels
    · obtain ⟨htype, hvalue⟩ := hup.same hsame
      rw [series_singleton_of rfl hsame.symm, List.map_append]
      exact hcurrent.snoc htype hvalue
    · rw [series_singleton_of_not fun hs => hsame hs.2.symm, List.append_nil, hup.other hsame]
      exact hcurrent
  · obtain ⟨entry, hentry, hup⟩ := forall₂_exists_left hall hentry'
    rw [series_append, hup.labels] at hm
    rw [hup.type]
    rcases List.mem_append.mp hm with hm | hm
    · exact h.types entry hentry m hm
    · obtain ⟨hm, -, hs⟩ := mem_series.mp hm
      cases List.mem_singleton.mp hm
      exact (hup.same hs.symm).1
  · obtain ⟨entry, hentry, hs⟩ := h.covers m hm hname
    obtain ⟨entry', hentry', hup⟩ := forall₂_exists_right hall hentry
    exact ⟨entry', hentry', by rw [hup.labels]; exact hs⟩

/-- What an addition keeps. -/
theorem keeps_add (h : ∀ name, Keeps plus added name ((self.get? name).getD []))
    (hadd : add plus self metric = .ok self') (name : String) :
    Keeps plus (added ++ [metric]) name ((self'.get? name).getD []) := by
  obtain ⟨updated, hall, rfl⟩ := add_ok hadd
  by_cases hname : metric.name = name
  · subst hname
    obtain ⟨hnames, hapart, hcurrent, htypes, hcovers⟩ := (h metric.name).updated hall
    rw [Dict.get?_set_self, Option.getD_some]
    split
    · next hhere =>
      refine ⟨hnames, hapart, hcurrent, htypes, fun m hm hname => ?_⟩
      rcases List.mem_append.mp hm with hm | hm
      · exact hcovers m hm hname
      · cases List.mem_singleton.mp hm
        obtain ⟨entry, hentry, hs⟩ := hhere
        obtain ⟨entry', hentry', hup⟩ := forall₂_exists_right hall hentry
        exact ⟨entry', hentry', by rw [hup.labels]; exact hs⟩
    · next hnot =>
      have hfresh : series added metric.name metric.labels = [] := by
        rw [List.eq_nil_iff_forall_not_mem]
        intro m hm
        obtain ⟨hm, hname, hs⟩ := mem_series.mp hm
        obtain ⟨entry, hentry, hs'⟩ := (h metric.name).covers m hm hname
        exact hnot ⟨entry, hentry, hs'.trans hs⟩
      have hdiffers : ∀ entry ∈ updated, ¬SameLabels entry.labels metric.labels := by
        intro entry' hentry' hs
        obtain ⟨entry, hentry, hup⟩ := forall₂_exists_left hall hentry'
        exact hnot ⟨entry, hentry, by rw [← hup.labels]; exact hs⟩
      refine ⟨fun entry hentry => ?_, ?_, fun entry hentry => ?_, fun entry hentry m hm => ?_,
        fun m hm hname => ?_⟩
      · rcases List.mem_append.mp hentry with hentry | hentry
        · exact hnames entry hentry
        · rw [List.mem_singleton.mp hentry]
      · refine List.pairwise_append.mpr ⟨hapart, List.pairwise_singleton _ _, fun entry hentry m hm => ?_⟩
        rw [List.mem_singleton.mp hm]
        exact hdiffers entry hentry
      · rcases List.mem_append.mp hentry with hentry | hentry
        · exact hcurrent entry hentry
        · rw [List.mem_singleton.mp hentry, series_append, hfresh,
            series_singleton_of rfl (SameLabels.refl _)]
          exact current_singleton
      · rcases List.mem_append.mp hentry with hentry | hentry
        · exact htypes entry hentry m hm
        · rw [List.mem_singleton.mp hentry, series_append, hfresh,
            series_singleton_of rfl (SameLabels.refl _)] at hm
          rw [List.mem_singleton.mp hm, List.mem_singleton.mp hentry]
      · rcases List.mem_append.mp hm with hm | hm
        · obtain ⟨entry, hentry, hs⟩ := hcovers m hm hname
          exact ⟨entry, List.mem_append_left _ hentry, hs⟩
        · cases List.mem_singleton.mp hm
          exact ⟨metric, List.mem_append_right _ List.mem_cons_self, SameLabels.refl _⟩
  · rw [Dict.get?_set_of_ne (Ne.symm hname)]
    exact (h name).other hname

theorem keeps_empty (name : String) : Keeps plus [] name
    (((∅ : MetricRegistry V L).get? name).getD []) := by
  rw [Dict.get?_empty]
  exact ⟨fun _ h => (nomatch h), List.Pairwise.nil, fun _ h => (nomatch h), fun _ h => (nomatch h),
    fun _ h => (nomatch h)⟩

theorem keeps_extend (h : ∀ name, Keeps plus added name ((self.get? name).getD []))
    (hextend : extend plus self metrics = .ok self') (name : String) :
    Keeps plus (added ++ metrics) name ((self'.get? name).getD []) := by
  induction metrics generalizing added self with
  | nil =>
    cases hextend
    rw [List.append_nil]
    exact h name
  | cons metric metrics ih =>
    rw [extend, List.foldlM_cons, except_bind_ok_iff] at hextend
    obtain ⟨self'', hadd, hextend⟩ := hextend
    rw [← List.singleton_append, ← List.append_assoc]
    exact ih (keeps_add h hadd) hextend

/-- After any calls that did not raise, the entries of each name are those of what was added. -/
theorem runs_keeps {calls : List (Call V L)} (h : runs plus calls = .ok self) (name : String) :
    Keeps plus (calls.flatMap Call.metrics) name ((self.get? name).getD []) := by
  refine except_foldlM_ok (I := fun pre (self : MetricRegistry V L) => ∀ name,
    Keeps plus (pre.flatMap Call.metrics) name ((self.get? name).getD [])) h keeps_empty
    (fun pre call post self self' _ hpre hstep name => ?_) name
  rw [List.flatMap_append, List.flatMap_singleton]
  cases call with
  | add metric => exact keeps_add hpre hstep name
  | extend metrics => exact keeps_extend hpre hstep name

/-! ## The entry of a series -/

theorem series_flatMap {items : List (String × List (Metric V L))}
    (hnd : (items.map Prod.fst).Nodup) (h : ∀ p ∈ items, ∀ entry ∈ p.2, entry.name = p.1) :
    series (items.flatMap Prod.snd) name labels =
      series (((items.find? (·.1 = name)).map Prod.snd).getD []) name labels := by
  induction items with
  | nil => rfl
  | cons p items ih =>
    rw [List.map_cons, List.nodup_cons] at hnd
    obtain ⟨hp, hitems⟩ := List.forall_mem_cons.mp h
    rw [List.flatMap_cons, series_append, ih hnd.2 hitems, List.find?_cons]
    by_cases hk : p.1 = name
    · have hnone : items.find? (·.1 = name) = none := by
        rw [List.find?_eq_none]
        intro q hq hqk
        exact hnd.1 (List.mem_map.mpr ⟨q, hq, (decide_eq_true_eq.mp hqk).trans hk.symm⟩)
      simp [hk, hnone, series]
    · have hnil : series p.2 name labels = [] := by
        rw [List.eq_nil_iff_forall_not_mem]
        intro entry hentry
        obtain ⟨hentry, hname, -⟩ := mem_series.mp hentry
        exact hk ((hp entry hentry).symm.trans hname)
      simp [hk, hnil]

/-- The stored metrics of a series are among those of its name. -/
theorem series_stored (h : ∀ name, ∀ entry ∈ (self.get? name).getD [], entry.name = name) :
    series self.stored name labels = series ((self.get? name).getD []) name labels := by
  refine series_flatMap self.nodup fun p hp entry hentry => h p.1 entry ?_
  rw [Dict.get?_eq_some_iff.mpr hp]
  exact hentry

theorem series_eq_singleton {entries : List (Metric V L)} (hnames : ∀ entry ∈ entries, entry.name = name)
    (hapart : entries.Pairwise fun entry entry' => ¬SameLabels entry.labels entry'.labels)
    (hentry : entry ∈ entries) (hs : SameLabels entry.labels labels) :
    series entries name labels = [entry] := by
  induction entries with
  | nil => cases hentry
  | cons e entries ih =>
    obtain ⟨hfirst, hrest⟩ := List.pairwise_cons.mp hapart
    obtain ⟨hname, hnames⟩ := List.forall_mem_cons.mp hnames
    rw [← List.singleton_append, series_append]
    rcases List.mem_cons.mp hentry with rfl | hentry
    · have hnil : series entries name labels = [] := by
        rw [List.eq_nil_iff_forall_not_mem]
        intro e' he'
        obtain ⟨he', -, hs'⟩ := mem_series.mp he'
        exact hfirst e' he' (hs.trans hs'.symm)
      rw [hnil, series_singleton_of hname hs, List.append_nil]
    · rw [ih hnames hrest hentry, series_singleton_of_not fun hs' =>
        hfirst entry hentry (hs'.2.trans hs.symm), List.nil_append]

/-- Each series that was added has one entry, with its current value. -/
theorem entry_of_keeps (h : ∀ name, Keeps plus added name ((self.get? name).getD [])) (name : String)
    (labels : Dict String L) :
    (series added name labels = [] → series self.stored name labels = []) ∧
      (series added name labels ≠ [] → ∃ entry, series self.stored name labels = [entry] ∧
        Current plus entry.type ((series added name labels).map Metric.value) entry.value ∧
        ∀ metric ∈ series added name labels, metric.type = entry.type) := by
  rw [series_stored fun name => (h name).names]
  constructor
  · intro hnil
    rw [List.eq_nil_iff_forall_not_mem]
    intro entry hentry
    obtain ⟨hentry, -, hs⟩ := mem_series.mp hentry
    have hcurrent := (h name).current entry hentry
    rw [series_congr hs, hnil] at hcurrent
    unfold Current at hcurrent
    split at hcurrent
    · cases hcurrent
    · split at hcurrent
      · obtain ⟨_, _, he, _⟩ := hcurrent
        cases he
      · cases hcurrent
  · intro hne
    obtain ⟨m, hm⟩ := List.exists_mem_of_ne_nil _ hne
    obtain ⟨hm, hname, hs⟩ := mem_series.mp hm
    obtain ⟨entry, hentry, hs'⟩ := (h name).covers m hm hname
    refine ⟨entry, series_eq_singleton (h name).names (h name).apart hentry (hs'.trans hs), ?_⟩
    rw [← series_congr (hs'.trans hs)]
    exact ⟨(h name).current entry hentry, (h name).types entry hentry⟩

/-- The first value of a series that is neither a gauge nor a counter is also its last one. -/
def UntypedSettled (added : List (Metric V L)) : Prop :=
  ∀ metric ∈ added, metric.type ≠ some MetricType.GAUGE → metric.type ≠ some MetricType.COUNTER →
    ((series added metric.name metric.labels).map Metric.value).getLast? =
      ((series added metric.name metric.labels).map Metric.value).head?

/-- After any calls that did not raise, each series has one entry with its current value just when
no later value of an untyped series was lost. -/
theorem runs_oneCurrent_iff (plus : V → V → Except Exc V) (calls : List (Call V L))
    (self : MetricRegistry V L) (h : runs plus calls = .ok self) :
    OneCurrent plus (calls.flatMap Call.metrics) self ↔
      UntypedSettled (calls.flatMap Call.metrics) := by
  have hentry := entry_of_keeps (runs_keeps h)
  constructor
  · intro hone metric hmetric hgauge hcounter
    have hin := mem_series.mpr ⟨hmetric, rfl, SameLabels.refl metric.labels⟩
    obtain ⟨entry, heq, hcurrent, htypes⟩ := (hentry metric.name metric.labels).2
      (List.ne_nil_of_mem hin)
    obtain ⟨entry', heq', -, hlast⟩ := (hone metric.name metric.labels).2 (List.ne_nil_of_mem hin)
    have he : entry = entry' := List.singleton_inj.mp (heq.symm.trans heq')
    subst he
    have htype := htypes metric hin
    rw [Current, if_neg (htype ▸ hgauge), if_neg (htype ▸ hcounter)] at hcurrent
    rw [hcurrent, hlast (htype ▸ hcounter)]
  · intro hsettled name labels
    refine ⟨(hentry name labels).1, fun hne => ?_⟩
    obtain ⟨entry, heq, hcurrent, htypes⟩ := (hentry name labels).2 hne
    refine ⟨entry, heq, fun hcounter => ?_, fun hcounter => ?_⟩
    · rw [Current, if_neg (by rw [hcounter]; decide), if_pos hcounter] at hcurrent
      exact hcurrent
    · by_cases hgauge : entry.type = some MetricType.GAUGE
      · rw [Current, if_pos hgauge] at hcurrent
        exact hcurrent
      · rw [Current, if_neg hgauge, if_neg hcounter] at hcurrent
        obtain ⟨m, hm⟩ := List.exists_mem_of_ne_nil _ hne
        have htype := htypes m hm
        obtain ⟨hin, hname, hs⟩ := mem_series.mp hm
        have hlast := hsettled m hin (htype ▸ hgauge) (htype ▸ hcounter)
        rw [hname, series_congr hs, hcurrent] at hlast
        exact hlast

/-- The addition of integers never raises. -/
def addInts (a b : ℤ) : Except Exc ℤ := .ok (a + b)

/-- The number of nodes of a shape, as `HierBAR` reports it: without a type. -/
def shapeNumbers (n : ℤ) : Metric ℤ String where
  name := "wca_scheduler_hierbar_node_shape_numbers"
  value := n
  labels := .ofItems [("shape", "cpu=8,mem=16")]

/-- A counter of the calls of a filter. -/
def filterCalls (n : ℤ) : Metric ℤ String where
  name := "wca_scheduler_filter"
  value := n
  type := some MetricType.COUNTER

theorem runs_oneCurrent_iff_filterCalls :
    OneCurrent addInts [filterCalls 1, filterCalls 2, shapeNumbers 2]
        (.ofItems [("wca_scheduler_filter", [filterCalls 3]),
          ("wca_scheduler_hierbar_node_shape_numbers", [shapeNumbers 2])]) ↔
      UntypedSettled [filterCalls 1, filterCalls 2, shapeNumbers 2] :=
  runs_oneCurrent_iff addInts [.add (filterCalls 1), .extend [filterCalls 2, shapeNumbers 2]] _ rfl

/-- The second number of nodes of a shape is lost. -/
theorem runs_shapeNumbers :
    runs addInts [.extend [shapeNumbers 2], .extend [shapeNumbers 3]] =
        .ok (.ofItems [("wca_scheduler_hierbar_node_shape_numbers", [shapeNumbers 2])]) ∧
      ¬OneCurrent addInts [shapeNumbers 2, shapeNumbers 3]
        (.ofItems [("wca_scheduler_hierbar_node_shape_numbers", [shapeNumbers 2])]) := by
  refine ⟨rfl, fun h => ?_⟩
  obtain ⟨entry, hentry, -, hlast⟩ := (h (shapeNumbers 2).name (shapeNumbers 2).labels).2 (by decide)
  have he : [shapeNumbers 2] = [entry] := hentry
  cases he
  exact absurd (hlast (by decide)) (by decide)

end MetricRegistry
end Wca.Scheduler
