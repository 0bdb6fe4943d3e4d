import Wca.Storage
import Mathlib.Data.List.Pairwise

/-!
# Grouping of metrics

What `groupMetricsByName` returns is the metrics themselves, one group for each name
(`groupMetricsByName_ok`). It returns unless the natural sort raises: on a digit that `int` does not
read, or on a number and a text at the same label of two metrics of one name
(`groupMetricsByName_returns_iff`).
-/

namespace Wca

open Py

/-! ## The natural sort -/

theorem naturalValue_returns_iff {v : LabelValue} :
    (∃ n, naturalValue v = .ok n) ↔
      ∃ s, v = .str s ∧ (Str.isdigit s = true → ∀ c ∈ s.toList, (Str.decimal? c).isSome = true) := by
  cases v with
  | other type =>
    refine iff_of_false (fun h => ?_) (fun h => ?_)
    · obtain ⟨n, hn⟩ := h
      cases hn
    · obtain ⟨s, hs, -⟩ := h
      cases hs
  | str s =>
    have hstr : (∃ s', LabelValue.str s = .str s' ∧ (Str.isdigit s' = true →
        ∀ c ∈ s'.toList, (Str.decimal? c).isSome = true)) ↔
        (Str.isdigit s = true → ∀ c ∈ s.toList, (Str.decimal? c).isSome = true) := by
      refine ⟨fun h => ?_, fun h => ⟨s, rfl, h⟩⟩
      obtain ⟨s', hs, h⟩ := h
      cases hs
      exact h
    rw [hstr, naturalValue]
    split
    · case isTrue hdigit =>
      rw [imp_iff_right hdigit, ← Str.int_ok_iff_of_isdigit hdigit]
      cases Str.int 10 s with
      | ok n => exact iff_of_true ⟨_, rfl⟩ ⟨n, rfl⟩
      | error e =>
        refine iff_of_false (fun h => ?_) (fun h => ?_)
        · obtain ⟨n, hn⟩ := h
          cases hn
        · obtain ⟨n, hn⟩ := h
          cases hn
    · case isFalse hdigit => exact iff_of_true ⟨_, rfl⟩ fun h => absurd h hdigit

theorem labelsConversion_returns_iff {labels : Dict String LabelValue} :
    (∃ key, labelsConversionWithNaturalSort labels = .ok key) ↔
      ∀ label ∈ labels.items, ∃ n, naturalValue label.2 = .ok n := by
  constructor
  · rintro ⟨key, hkey⟩ label hlabel
    obtain ⟨converted, hconverted, -⟩ := except_bind_ok_iff.mp hkey
    obtain ⟨p, -, hp⟩ := forall₂_exists_right (except_mapM_ok_iff.mp hconverted) hlabel
    cases hv : naturalValue label.2 with
    | ok n => exact ⟨n, rfl⟩
    | error e =>
      rw [hv] at hp
      cases hp
  · intro h
    have hreturns : ∀ label ∈ labels.items, ∃ p : String × Natural,
        (naturalValue label.2).map (fun v => (label.1, v)) = .ok p := by
      intro label hlabel
      obtain ⟨n, hn⟩ := h label hlabel
      exact ⟨(label.1, n), by rw [hn]; rfl⟩
    obtain ⟨converted, hconverted⟩ := except_mapM_returns hreturns
    exact ⟨sortedBy Prod.fst converted, except_bind_ok_iff.mpr ⟨converted, hconverted, rfl⟩⟩

namespace NaturalLabels

theorem lt?_self (key : NaturalLabels) : NaturalLabels.lt? key key = some false := by
  induction key with
  | nil => rfl
  | cons label key ih =>
    rw [NaturalLabels.lt?, if_neg (not_not.mpr rfl), if_pos rfl]
    exact ih

/-- Whether two keys can be compared does not depend on their order. -/
theorem lt?_isSome_symm {key key' : NaturalLabels} (h : (NaturalLabels.lt? key key').isSome = true) :
    (NaturalLabels.lt? key' key).isSome = true := by
  induction key generalizing key' with
  | nil =>
    cases key' with
    | nil => rfl
    | cons label' key' => rfl
  | cons label key ih =>
    cases key' with
    | nil => rfl
    | cons label' key' =>
      obtain ⟨k, v⟩ := label
      obtain ⟨k', v'⟩ := label'
      rw [NaturalLabels.lt?] at h ⊢
      by_cases hk : k = k'
      · rw [if_neg (not_not.mpr hk)] at h
        rw [if_neg (not_not.mpr hk.symm)]
        by_cases hv : v = v'
        · rw [if_pos hv] at h
          rw [if_pos hv.symm]
          exact ih h
        · rw [if_neg hv] at h
          rw [if_neg fun he => hv he.symm]
          cases v with
          | int n =>
            cases v' with
            | int n' => rfl
            | str s' => cases h
          | str s =>
            cases v' with
            | int n' => cases h
            | str s' => rfl
      · rw [if_pos fun he => hk he.symm]
        rfl

end NaturalLabels

variable {F : Type}

/-- The metrics have keys, and any two of them have keys that can be compared. -/
structure Sortable (metrics : List (Metric F)) : Prop where
  keyed : ∀ metric ∈ metrics, ∃ key, labelsConversionWithNaturalSort metric.labels = .ok key
  ordered : ∀ metric ∈ metrics, ∀ metric' ∈ metrics, ∀ key key',
    labelsConversionWithNaturalSort metric.labels = .ok key →
    labelsConversionWithNaturalSort metric'.labels = .ok key' →
    (NaturalLabels.lt? key key').isSome = true

/-- The metrics, each with its key. -/
def Keyed (metrics : List (Metric F)) (keyed : List (NaturalLabels × Metric F)) : Prop :=
  List.Forall₂ (fun metric p => labelsConversionWithNaturalSort metric.labels = .ok p.1 ∧ p.2 = metric)
    metrics keyed

theorem Keyed.map_snd {metrics : List (Metric F)} {keyed : List (NaturalLabels × Metric F)}
    (h : Keyed metrics keyed) : keyed.map Prod.snd = metrics := by
  induction h with
  | nil => rfl
  | cons hp _ ih => rw [List.map_cons, hp.2, ih]

theorem keyed_iff {metrics : List (Metric F)} {keyed : List (NaturalLabels × Metric F)} :
    metrics.mapM (fun metric => (labelsConversionWithNaturalSort metric.labels).map
      fun key => (key, metric)) = .ok keyed ↔ Keyed metrics keyed := by
  have hone : ∀ (metric : Metric F) (p : NaturalLabels × Metric F),
      (labelsConversionWithNaturalSort metric.labels).map (fun key => (key, metric)) = .ok p ↔
        labelsConversionWithNaturalSort metric.labels = .ok p.1 ∧ p.2 = metric := by
    intro metric p
    obtain ⟨key, metric'⟩ := p
    cases labelsConversionWithNaturalSort metric.labels with
    | error e => exact iff_of_false (fun h => by cases h) (fun h => by cases h.1)
    | ok key' =>
      constructor
      · intro h
        cases h
        exact ⟨rfl, rfl⟩
      · intro h
        cases h.1
        cases h.2
        rfl
  rw [except_mapM_ok_iff, Keyed]
  simp only [hone]

theorem sortedByLabels_perm {metrics sorted : List (Metric F)}
    (h : sortedByLabels metrics = .ok sorted) : List.Perm sorted metrics := by
  obtain ⟨keyed, hkeyed, h⟩ := except_bind_ok_iff.mp h
  split at h
  · cases h
    rw [← (keyed_iff.mp hkeyed).map_snd]
    exact (List.perm_insertionSort _ _).map _
  · cases h

theorem sortedByLabels_returns_iff {metrics : List (Metric F)} :
    (∃ sorted, sortedByLabels metrics = .ok sorted) ↔ Sortable metrics := by
  constructor
  · rintro ⟨sorted, h⟩
    obtain ⟨keyed, hkeyed, h⟩ := except_bind_ok_iff.mp h
    have hkeyed := keyed_iff.mp hkeyed
    split at h
    · case isTrue hcomparable =>
      have hsymm : Std.Symm fun a b : NaturalLabels => (NaturalLabels.lt? a b).isSome = true :=
        ⟨fun _ _ hab => NaturalLabels.lt?_isSome_symm hab⟩
      have hall := List.Pairwise.forall_of_forall
        (fun key _ => by rw [NaturalLabels.lt?_self]; rfl) hcomparable
      have hmem : ∀ metric ∈ metrics, ∀ key, labelsConversionWithNaturalSort metric.labels = .ok key →
          key ∈ keyed.map Prod.fst := by
        intro metric hmetric key hkey
        obtain ⟨p, hp, hp', -⟩ := forall₂_exists_right hkeyed hmetric
        rw [hkey] at hp'
        cases hp'
        exact List.mem_map_of_mem hp
      refine ⟨fun metric hmetric => ?_, fun metric hmetric metric' hmetric' key key' hkey hkey' => ?_⟩
      · obtain ⟨p, -, hp, -⟩ := forall₂_exists_right hkeyed hmetric
        exact ⟨p.1, hp⟩
      · exact hall (hmem metric hmetric key hkey) (hmem metric' hmetric' key' hkey')
    · cases h
  · intro h
    have hreturns : ∀ metric ∈ metrics, ∃ p : NaturalLabels × Metric F,
        (labelsConversionWithNaturalSort metric.labels).map (fun key => (key, metric)) = .ok p := by
      intro metric hmetric
      obtain ⟨key, hkey⟩ := h.keyed metric hmetric
      exact ⟨(key, metric), by rw [hkey]; rfl⟩
    obtain ⟨keyed, hkeyed⟩ := except_mapM_returns hreturns
    have hcomparable : AllComparable (keyed.map Prod.fst) := by
      have hsource : ∀ key ∈ keyed.map Prod.fst,
          ∃ metric ∈ metrics, labelsConversionWithNaturalSort metric.labels = .ok key := by
        intro key hkey
        obtain ⟨p, hp, rfl⟩ := List.mem_map.mp hkey
        obtain ⟨metric, hmetric, hp', -⟩ := forall₂_exists_left (keyed_iff.mp hkeyed) hp
        exact ⟨metric, hmetric, hp'⟩
      apply List.pairwise_of_forall_mem_list
      intro key hkey key' hkey'
      obtain ⟨metric, hmetric, hm⟩ := hsource key hkey
      obtain ⟨metric', hmetric', hm'⟩ := hsource key' hkey'
      exact h.ordered metric hmetric metric' hmetric' key key' hm hm'
    exact ⟨_, except_bind_ok_iff.mpr ⟨keyed, hkeyed, if_pos hcomparable⟩⟩

/-! ## The groups -/

/-- Groups of metrics by name. -/
structure Grouped (metrics : List (Metric F)) (groups : List (String × List (Metric F))) : Prop where
  perm : List.Perm (groups.flatMap Prod.snd) metrics
  nodup : (groups.map Prod.fst).Nodup
  named : ∀ group ∈ groups, group.2 ≠ [] ∧ ∀ metric ∈ group.2, metric.name = group.1

/-- The runs of the sorted metrics. -/
theorem grouped_runs (metrics : List (Metric F)) :
    Grouped metrics (groupby Metric.name (sortedBy Metric.name metrics)) where
  perm := by
    rw [flatMap_groupby]
    exact sortedBy_perm Metric.name metrics
  nodup := groupby_sortedBy_nodup metrics
  named := fun _ hgroup => run_of_mem_groupby hgroup

/-- Two metrics of one name are in one group. -/
theorem Grouped.mem_iff {metrics : List (Metric F)} {groups : List (String × List (Metric F))}
    (h : Grouped metrics groups) {group : String × List (Metric F)} (hgroup : group ∈ groups)
    {metric : Metric F} : metric ∈ group.2 ↔ metric ∈ metrics ∧ metric.name = group.1 := by
  constructor
  · intro hm
    exact ⟨h.perm.mem_iff.mp (List.mem_flatMap.mpr ⟨group, hgroup, hm⟩), (h.named group hgroup).2 _ hm⟩
  · rintro ⟨hm, hname⟩
    obtain ⟨group', hgroup', hm'⟩ := List.mem_flatMap.mp (h.perm.mem_iff.mpr hm)
    have heq : group' = group := List.inj_on_of_nodup_map h.nodup hgroup' hgroup
      (((h.named group' hgroup').2 _ hm').symm.trans hname)
    exact heq ▸ hm'

theorem groupMetricsByName_ok {metrics : List (Metric F)} {groups : List (String × List (Metric F))}
    (h : groupMetricsByName metrics = .ok groups) : Grouped metrics groups := by
  have hruns := grouped_runs metrics
  have hgroups := except_mapM_ok_iff.mp h
  generalize groupby Metric.name (sortedBy Metric.name metrics) = runs at hruns hgroups
  have hone : List.Forall₂ (fun run group => run.1 = group.1 ∧ List.Perm group.2 run.2) runs groups := by
    refine hgroups.imp fun run group hgroup => ?_
    cases hsorted : sortedByLabels run.2 with
    | error e =>
      rw [hsorted] at hgroup
      cases hgroup
    | ok sorted =>
      rw [hsorted] at hgroup
      cases hgroup
      exact ⟨rfl, sortedByLabels_perm hsorted⟩
  clear h
  have hfst : groups.map Prod.fst = runs.map Prod.fst := by
    clear hruns hgroups
    induction hone with
    | nil => rfl
    | cons hp _ ih => rw [List.map_cons, List.map_cons, hp.1, ih]
  have hperm : List.Perm (groups.flatMap Prod.snd) (runs.flatMap Prod.snd) := by
    clear hruns hgroups hfst
    induction hone with
    | nil => exact List.Perm.refl _
    | cons hp _ ih =>
      rw [List.flatMap_cons, List.flatMap_cons]
      exact hp.2.append ih
  refine ⟨hperm.trans hruns.perm, hfst ▸ hruns.nodup, fun group hgroup => ?_⟩
  obtain ⟨run, hrun, hname, hp⟩ := forall₂_exists_left hone hgroup
  obtain ⟨hne, hnames⟩ := hruns.named run hrun
  refine ⟨fun hnil => hne ?_, fun metric hmetric => ?_⟩
  · rw [hnil] at hp
    exact hp.symm.eq_nil
  · rw [← hname]
    exact hnames metric (hp.mem_iff.mp hmetric)

/-- The metrics of each name can be sorted. -/
def GroupsSortable (metrics : List (Metric F)) : Prop :=
  ∀ name, Sortable (metrics.filter (·.name = name))

theorem groupMetricsByName_returns_iff {metrics : List (Metric F)} :
    (∃ groups, groupMetricsByName metrics = .ok groups) ↔ GroupsSortable metrics := by
  have hruns := grouped_runs metrics
  have hmem : ∀ run ∈ groupby Metric.name (sortedBy Metric.name metrics), ∀ metric,
      metric ∈ run.2 ↔ metric ∈ metrics.filter (·.name = run.1) := by
    intro run hrun metric
    rw [hruns.mem_iff hrun, List.mem_filter, decide_eq_true_eq]
  have hsame : ∀ {l l' : List (Metric F)}, (∀ metric, metric ∈ l ↔ metric ∈ l') → Sortable l →
      Sortable l' := by
    intro l l' hl h
    refine ⟨fun metric hmetric => h.keyed metric ((hl metric).mpr hmetric), ?_⟩
    intro metric hmetric metric' hmetric'
    exact h.ordered metric ((hl metric).mpr hmetric) metric' ((hl metric').mpr hmetric')
  constructor
  · rintro ⟨groups, h⟩ name
    by_cases hname : ∃ metric ∈ metrics, metric.name = name
    · obtain ⟨metric, hmetric, rfl⟩ := hname
      obtain ⟨run, hrun, hm⟩ := List.mem_flatMap.mp (hruns.perm.mem_iff.mpr hmetric)
      obtain ⟨group, -, hgroup⟩ := forall₂_exists_right (except_mapM_ok_iff.mp h) hrun
      rw [(hruns.named run hrun).2 metric hm]
      refine hsame (hmem run hrun) (sortedByLabels_returns_iff.mp ?_)
      cases hsorted : sortedByLabels run.2 with
      | ok sorted => exact ⟨sorted, rfl⟩
      | error e =>
        rw [hsorted] at hgroup
        cases hgroup
    · have hnil : metrics.filter (·.name = name) = [] := by
        refine List.filter_eq_nil_iff.mpr fun metric hmetric hm => ?_
        exact hname ⟨metric, hmetric, of_decide_eq_true hm⟩
      rw [hnil]
      exact ⟨fun metric hm => absurd hm List.not_mem_nil, fun metric hm => absurd hm List.not_mem_nil⟩
  · intro h
    refine except_mapM_returns fun run hrun => ?_
    obtain ⟨sorted, hsorted⟩ := sortedByLabels_returns_iff.mpr
      (hsame (fun metric => (hmem run hrun metric).symm) (h run.1))
    exact ⟨(run.1, sorted), by rw [hsorted]; rfl⟩

end Wca
