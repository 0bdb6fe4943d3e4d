import Mathlib.Algebra.Order.BigOperators.Group.List
import Mathlib.Data.Finset.Max
import Mathlib.Order.Bounds.Basic
import Wca.Metrics.Merging

/-!
# Ratios of a pod

A `ContainerSet` merges what its subcontainers measured. No entry of `METRICS_METADATA` has a merge
operation of its own, so ratios are added up as counters are (`operationOf_metricsMetadata`), and the
sum of ratios is a mean of them only where all but one cancel out.
-/

namespace Wca.Metrics

open Py Objects

/-! ## `ContainerSet.get_measurements` -/

/-- What the measurements of a pod are made of. The resgroup is measured when monitoring is enabled,
the working set when it is asked for. -/
structure ContainerSet where
  resgroup : Option (Dict Key Node)
  wss : Option (Dict Key Node)
  subcontainers : List Addr

/-- `get_measurements` of a `ContainerSet`. The subcontainers have been measured. -/
def ContainerSet.getMeasurements (perfAggregateCpus : Bool) (sets : SetOrder Key)
    (pod : ContainerSet) : MergeM (Dict Key Node) := do
  let measurements := pod.resgroup.elim ∅ (Dict.update ∅)
  let measurements := pod.wss.elim measurements measurements.update
  let merged ← mergeMeasurements (metricsMetadata perfAggregateCpus) sets pod.subcontainers
  let mergedMeasurements ← getDict merged
  pure (measurements.update mergedMeasurements)

/-- What is shown at a path of a metric. -/
def shownAt (h : Store) (measurements : Dict Key Node) (metricName : Key) (path : List Key) :
    Option ℚ :=
  (measurements.get? metricName).bind fun node => numAt h node path

/-! ## All metrics are added up -/

theorem mergeOperation_METRICS_METADATA :
    METRICS_METADATA.items.map (fun p => p.2.mergeOperation) =
      METRICS_METADATA.items.map fun _ => List.sum := rfl

theorem operationOf_metricsMetadata (perfAggregateCpus : Bool) (metricName : Key) :
    operationOf (metricsMetadata perfAggregateCpus) metricName = List.sum := by
  have hsum : ∀ p ∈ METRICS_METADATA.items, p.2.mergeOperation = List.sum :=
    List.map_inj_left.mp mergeOperation_METRICS_METADATA
  cases metricName with
  | int n => rfl
  | str s =>
    rw [operationOf, metadataOf]
    cases perfAggregateCpus with
    | true =>
      cases hs : METRICS_METADATA.get? s with
      | none => simp [metricsMetadata, hs]
      | some m =>
        simpa [metricsMetadata, hs] using hsum _ (Dict.get?_eq_some_iff.mp hs)
    | false =>
      cases hs : METRICS_METADATA.get? s with
      | none => simp [metricsMetadata, Dict.get?_map, hs]
      | some m =>
        have hm : m.withCpus.mergeOperation = m.mergeOperation := by
          rw [MetricMetadata.withCpus]
          split <;> rfl
        simpa [metricsMetadata, Dict.get?_map, hs, hm] using hsum _ (Dict.get?_eq_some_iff.mp hs)

/-! ## Sums as means -/

/-- Between the smallest and the largest of some values. -/
def Between (values : List ℚ) (v : ℚ) : Prop :=
  ∃ lo hi, IsLeast {w | w ∈ values} lo ∧ IsGreatest {w | w ∈ values} hi ∧ lo ≤ v ∧ v ≤ hi

/-- Without a largest value the others add up to at most nothing, and to at least nothing without a
smallest one. -/
def OthersCancel (values : List ℚ) : Prop :=
  (∀ v, IsGreatest {w | w ∈ values} v → (values.erase v).sum ≤ 0) ∧
    ∀ v, IsLeast {w | w ∈ values} v → 0 ≤ (values.erase v).sum

/-- Without a largest value the others add up to nothing. -/
def SmallerCancel (values : List ℚ) : Prop :=
  ∀ v, IsGreatest {w | w ∈ values} v → (values.erase v).sum = 0

section Values

variable {values : List ℚ} {v : ℚ}

theorem exists_isGreatest (hne : values ≠ []) : ∃ v, IsGreatest {w | w ∈ values} v := by
  have hgreatest := values.toFinset.isGreatest_max' (List.toFinset_nonempty_iff values |>.mpr hne)
  rw [List.coe_toFinset] at hgreatest
  exact ⟨_, hgreatest⟩

theorem exists_isLeast (hne : values ≠ []) : ∃ v, IsLeast {w | w ∈ values} v := by
  have hleast := values.toFinset.isLeast_min' (List.toFinset_nonempty_iff values |>.mpr hne)
  rw [List.coe_toFinset] at hleast
  exact ⟨_, hleast⟩

theorem sum_eq_add_erase (hv : v ∈ values) : values.sum = v + (values.erase v).sum :=
  (List.sum_erase hv).symm

theorem between_sum_iff (hne : values ≠ []) : Between values values.sum ↔ OthersCancel values := by
  constructor
  · intro hbetween
    obtain ⟨lo, hi, hlo, hhi, hle, hge⟩ := hbetween
    constructor
    · intro v hv
      rw [hv.unique hhi]
      rw [sum_eq_add_erase hhi.1] at hge
      linarith
    · intro v hv
      rw [hv.unique hlo]
      rw [sum_eq_add_erase hlo.1] at hle
      linarith
  · intro hcancel
    obtain ⟨lo, hlo⟩ := exists_isLeast hne
    obtain ⟨hi, hhi⟩ := exists_isGreatest hne
    refine ⟨lo, hi, hlo, hhi, ?_, ?_⟩
    · rw [sum_eq_add_erase hlo.1]
      linarith [hcancel.2 lo hlo]
    · rw [sum_eq_add_erase hhi.1]
      linarith [hcancel.1 hi hhi]

theorem isGreatest_sum_iff (hne : values ≠ []) :
    IsGreatest {w | w ∈ values} values.sum ↔ SmallerCancel values := by
  constructor
  · intro hgreatest v hv
    have hsum := sum_eq_add_erase hv.1
    rw [hgreatest.unique hv] at hsum
    linarith
  · intro hcancel
    obtain ⟨v, hv⟩ := exists_isGreatest hne
    rw [sum_eq_add_erase hv.1, hcancel v hv, add_zero]
    exact hv

/-- Among values that are not negative, all but a largest one are zero. -/
theorem othersCancel_iff_of_nonneg (hnonneg : ∀ w ∈ values, 0 ≤ w) :
    OthersCancel values ↔ ∀ v, IsGreatest {w | w ∈ values} v → ∀ w ∈ values.erase v, w = 0 := by
  have herase : ∀ v, ∀ w ∈ values.erase v, 0 ≤ w := fun v w hw =>
    hnonneg w (List.mem_of_mem_erase hw)
  constructor
  · intro hcancel v hv w hw
    have hle := List.single_le_sum (herase v) w hw
    linarith [hcancel.1 v hv, herase v w hw]
  · intro hzero
    exact ⟨fun v hv => (List.sum_eq_zero (hzero v hv)).le, fun v _ => List.sum_nonneg (herase v)⟩

/-- A largest one of positive values is their sum where there is no other. -/
theorem smallerCancel_iff_of_pos (hpos : ∀ w ∈ values, 0 < w) (hne : values ≠ []) :
    SmallerCancel values ↔ values.length = 1 := by
  have hlength : ∀ v, IsGreatest {w | w ∈ values} v →
      ((values.erase v).sum = 0 ↔ values.length = 1) := by
    intro v hv
    have herase : ∀ w ∈ values.erase v, 0 < w := fun w hw => hpos w (List.mem_of_mem_erase hw)
    have hl : (values.erase v).length + 1 = values.length := List.length_erase_add_one hv.1
    rw [← hl, Nat.add_eq_right, List.length_eq_zero_iff]
    refine ⟨fun hzero => ?_, fun hnil => by rw [hnil]; rfl⟩
    by_contra hcons
    exact (List.sum_pos _ herase hcons).ne' hzero
  obtain ⟨v, hv⟩ := exists_isGreatest hne
  exact ⟨fun hcancel => (hlength v hv).mp (hcancel v hv),
    fun hone w hw => (hlength w hw).mpr hone⟩

end Values

section Pods

variable {perfAggregateCpus : Bool} {h h' : Store} {E : Exc → Store → Prop}

/-- At every path that a subcontainer has a value at, a pod shows their sum. -/
theorem wp_getMeasurements (sets : SetOrder Key) (pod : ContainerSet)
    (hpod : ∀ a ∈ pod.subcontainers, Measured (metricsMetadata perfAggregateCpus) h a) :
    wp (pod.getMeasurements perfAggregateCpus sets) (fun measurements h' => ∀ metricName path,
      valuesAt h pod.subcontainers (metricName :: path) ≠ [] →
        shownAt h' measurements metricName path =
          some (valuesAt h pod.subcontainers (metricName :: path)).sum) E h := by
  rw [ContainerSet.getMeasurements, wp_bind]
  refine (wp_mergeMeasurements sets hpod).mono (fun summed h' hmerges => ?_) fun _ _ he => he
  rw [wp_bind, wp_getDict, wp_pure]
  intro metricName path hvalues
  have hnum := hmerges.2.nums metricName path
  rw [operationOf_metricsMetadata, merged, if_neg hvalues] at hnum
  cases hk : (deref h' summed).get? metricName with
  | none => simp [numAt, hk] at hnum
  | some node =>
    rw [numAt, lookup_cons hk] at hnum
    rw [shownAt, Dict.get?_update, hk]
    exact hnum

/-- The ratios of a task that are means. -/
def RATIOS : List MetricName :=
  ["task_cache_hit_ratio", "task_ipc", "task_cache_misses_per_kilo_instructions",
    "task_scaling_factor_avg"]

def TASK_SCALING_FACTOR_MAX : MetricName := "task_scaling_factor_max"

/-- A ratio of a pod is among those of its subcontainers, and the maximum is theirs. -/
structure Meaningful (h h' : Store) (subcontainers : List Addr) (measurements : Dict Key Node) :
    Prop where
  ratios : ∀ metricName ∈ RATIOS, ∀ path, valuesAt h subcontainers (.str metricName :: path) ≠ [] →
    ∃ v, shownAt h' measurements (.str metricName) path = some v ∧
      Between (valuesAt h subcontainers (.str metricName :: path)) v
  maximum : ∀ path, valuesAt h subcontainers (.str TASK_SCALING_FACTOR_MAX :: path) ≠ [] →
    ∃ v, shownAt h' measurements (.str TASK_SCALING_FACTOR_MAX) path = some v ∧
      IsGreatest {w | w ∈ valuesAt h subcontainers (.str TASK_SCALING_FACTOR_MAX :: path)} v

/-- The measurements of a pod that merges without harm: values of the other subcontainers cancel out
at every path. -/
structure Harmless (h : Store) (subcontainers : List Addr) : Prop where
  ratios : ∀ metricName ∈ RATIOS, ∀ path, valuesAt h subcontainers (.str metricName :: path) ≠ [] →
    OthersCancel (valuesAt h subcontainers (.str metricName :: path))
  maximum : ∀ path, valuesAt h subcontainers (.str TASK_SCALING_FACTOR_MAX :: path) ≠ [] →
    SmallerCancel (valuesAt h subcontainers (.str TASK_SCALING_FACTOR_MAX :: path))

/-- Two subcontainers, each of which runs one instruction in a cycle. -/
def twoContainers : Store :=
  [.ofItems [(.str "task_ipc", .leaf (.num 1))], .ofItems [(.str "task_ipc", .leaf (.num 1))]]

theorem measured_twoContainers : ∀ a ∈ ([0, 1] : List Addr),
    Measured (metricsMetadata true) twoContainers a := by
  have hlevels : levelsOf (metricsMetadata true) (.str "task_ipc") = 0 := by decide +kernel
  have hlt : ∀ a ∈ ([0, 1] : List Addr), a < twoContainers.length := by decide
  have hitems : ∀ a ∈ ([0, 1] : List Addr),
      (deref twoContainers a).items = [(.str "task_ipc", .leaf (.num 1))] := by decide +kernel
  refine fun a ha => ⟨hlt a ha, fun metricName node hk => ?_⟩
  have hmem := Dict.get?_eq_some_iff.mp hk
  rw [hitems a ha, List.mem_singleton] at hmem
  cases hmem
  rw [hlevels]
  exact ⟨_, rfl, _, rfl⟩

end Pods

end Wca.Metrics
