import Mathlib.Tactic.FieldSimp
import Mathlib.Tactic.Ring
import Wca.Derived.Base

/-!
# Derived metrics of a cgroup

`PerfCgroupDerivedMetricsGenerator` makes instructions per cycle and per second, cache misses per
thousand instructions and the cache hit ratio. Each has a branch for metrics that are aggregated and
one for levelled metrics, and the branches are guarded in different ways.
-/

namespace Wca.Derived

open Py

def taskInstructions : MetricName := "task_instructions"

def taskCycles : MetricName := "task_cycles"

def taskCacheMisses : MetricName := "task_cache_misses"

def taskCacheReferences : MetricName := "task_cache_references"

def taskIpc : MetricName := "task_ipc"

def taskIps : MetricName := "task_ips"

def taskCacheHitRatio : MetricName := "task_cache_hit_ratio"

def taskCacheMissesPerKiloInstructions : MetricName := "task_cache_misses_per_kilo_instructions"

namespace PerfCgroup

/-! ## `PerfCgroupDerivedMetricsGenerator._derive` -/

/-- The block of `_derive` for instructions and cycles. -/
def deriveInstructions : (levels : Nat) → Measurements levels → ℚ → Measurements levels →
    Except Exc (Measurements levels)
  | 0, prev, timeDelta, measurements =>
    if Available prev measurements [taskInstructions, taskCycles] then do
      let instDelta : ℚ ← delta 0 prev measurements taskInstructions
      let cyclesDelta : ℚ ← delta 0 prev measurements taskCycles
      let measurements :=
        if 0 < cyclesDelta then measurements.set taskIpc (instDelta / cyclesDelta)
        else measurements
      pure (if 0 < timeDelta then measurements.set taskIps (instDelta / timeDelta)
        else measurements)
    else pure measurements
  | levels + 1, prev, timeDelta, measurements =>
    if Available prev measurements [taskInstructions, taskCycles] then do
      let instDelta ← delta (levels + 1) prev measurements taskInstructions
      let cyclesDelta ← delta (levels + 1) prev measurements taskCycles
      let ipc ← operationOnLeveledDicts truediv levels instDelta cyclesDelta
      let measurements := measurements.set taskIpc ipc
      if 0 < timeDelta then do
        let ips ← operationOnLeveledMetric (fun value => truediv value timeDelta) levels instDelta
        pure (measurements.set taskIps ips)
      else pure measurements
    else pure measurements

def times1000 (x : ℚ) : Except Exc ℚ := .ok (x * 1000)

/-- The block of `_derive` for instructions and cache misses. -/
def deriveMisses : (levels : Nat) → Measurements levels → Measurements levels →
    Except Exc (Measurements levels)
  | 0, prev, measurements =>
    if Available prev measurements [taskInstructions, taskCacheMisses] then do
      let instDelta : ℚ ← delta 0 prev measurements taskInstructions
      let cacheMissesDelta : ℚ ← delta 0 prev measurements taskCacheMisses
      let divided ← truediv cacheMissesDelta instDelta
      let mpki ← times1000 divided
      pure (measurements.set taskCacheMissesPerKiloInstructions mpki)
    else pure measurements
  | levels + 1, prev, measurements =>
    if Available prev measurements [taskInstructions, taskCacheMisses] then do
      let instDelta ← delta (levels + 1) prev measurements taskInstructions
      let cacheMissesDelta ← delta (levels + 1) prev measurements taskCacheMisses
      let divided ← operationOnLeveledDicts truediv levels cacheMissesDelta instDelta
      let mpki ← operationOnLeveledMetric times1000 levels divided
      pure (measurements.set taskCacheMissesPerKiloInstructions mpki)
    else pure measurements

/-- The block of `_derive` for cache references and cache misses. -/
def deriveReferences : (levels : Nat) → Measurements levels → Measurements levels →
    Except Exc (Measurements levels)
  | 0, prev, measurements =>
    if Available prev measurements [taskCacheReferences, taskCacheMisses] then do
      let cacheRefDelta : ℚ ← delta 0 prev measurements taskCacheReferences
      let cacheMissesDelta : ℚ ← delta 0 prev measurements taskCacheMisses
      let cacheHitRatio ← truediv (cacheRefDelta - cacheMissesDelta) cacheRefDelta
      pure (measurements.set taskCacheHitRatio cacheHitRatio)
    else pure measurements
  | levels + 1, prev, measurements =>
    if Available prev measurements [taskCacheReferences, taskCacheMisses] then do
      let cacheRefDelta ← delta (levels + 1) prev measurements taskCacheReferences
      let cacheMissesDelta ← delta (levels + 1) prev measurements taskCacheMisses
      let cacheHitsCount ← operationOnLeveledDicts sub levels cacheRefDelta cacheMissesDelta
      let cacheHitRatio ← operationOnLeveledDicts truediv levels cacheHitsCount cacheRefDelta
      pure (measurements.set taskCacheHitRatio cacheHitRatio)
    else pure measurements

/-- `PerfCgroupDerivedMetricsGenerator._derive` -/
def derive (levels : Nat) (prev : Measurements levels) (timeDelta : ℚ)
    (measurements : Measurements levels) : Except Exc (Measurements levels) := do
  let measurements ← deriveInstructions levels prev timeDelta measurements
  let measurements ← deriveMisses levels prev measurements
  deriveReferences levels prev measurements

/-! ## What should be shown -/

variable {levels : Nat}

/-- Instructions per cycle. -/
def ipcAt (inst cycles : Counter levels) (path : List Key) : Option ℚ :=
  ratioOf (inst.change path) (cycles.change path)

/-- Instructions per second. -/
def ipsAt (inst : Counter levels) (timeDelta : ℚ) (path : List Key) : Option ℚ :=
  ratioOf (inst.change path) (some timeDelta)

/-- Cache misses per thousand instructions. -/
def mpkiAt (misses inst : Counter levels) (path : List Key) : Option ℚ :=
  ratioOf (misses.change path) ((inst.change path).map (· / 1000))

/-- The references that were no misses, of all references. -/
def hitRatioAt (references misses : Counter levels) (path : List Key) : Option ℚ :=
  ratioOf ((references.change path).bind fun r => (misses.change path).map fun m => r - m)
    (references.change path)

/-! ## When it is -/

/-- Instructions come with cycles, unless nothing would be shown of them; the keys were there before
and instructions have no other keys; aggregated, the cycles do not go back. -/
def InstructionsMeet (inst cycles : Counter levels) (timeDelta : ℚ) : Prop :=
  (inst.Exists → cycles.Exists → inst.Tracked ∧ cycles.Tracked ∧ inst.Within cycles ∧
    (levels = 0 → ∀ d, cycles.change [] = some d → 0 ≤ d)) ∧
  (inst.Exists → ¬cycles.Exists → inst.Idle timeDelta)

/-- The keys were there before, and the upper metric has no other keys; aggregated, the lower one
changes. -/
def RatioMeets (upper lower : Counter levels) (denominator : Counter levels) : Prop :=
  upper.Exists → lower.Exists → upper.Tracked ∧ lower.Tracked ∧ upper.Within lower ∧
    (levels = 0 → denominator.change [] ≠ some 0)

section Instructions

variable {prev measurements : Measurements levels} {timeDelta : ℚ}

/-- The block for instructions shows both metrics where it should. -/
def InstructionsShown (prev : Measurements levels) (timeDelta : ℚ)
    (measurements r : Measurements levels) : Prop :=
  (∀ path, shown r taskIpc path = ipcAt (counter prev measurements taskInstructions)
    (counter prev measurements taskCycles) path) ∧
  ∀ path, shown r taskIps path = ipsAt (counter prev measurements taskInstructions) timeDelta path

theorem instructions_frame {r : Measurements levels}
    (h : deriveInstructions levels prev timeDelta measurements = .ok r) {name : MetricName}
    (hipc : name ≠ taskIpc) (hips : name ≠ taskIps) : r.get? name = measurements.get? name := by
  cases levels with
  | zero =>
    rw [deriveInstructions] at h
    split at h
    · obtain ⟨i, -, h⟩ := except_bind_ok_iff.mp h
      obtain ⟨c, -, h⟩ := except_bind_ok_iff.mp h
      cases h
      split <;> split <;> simp only [Dict.get?_set_of_ne hips, Dict.get?_set_of_ne hipc]
    · cases h
      rfl
  | succ levels =>
    rw [deriveInstructions] at h
    split at h
    · obtain ⟨i, -, h⟩ := except_bind_ok_iff.mp h
      obtain ⟨c, -, h⟩ := except_bind_ok_iff.mp h
      obtain ⟨ipc, -, h⟩ := except_bind_ok_iff.mp h
      dsimp only at h
      split at h
      · obtain ⟨ips, -, h⟩ := except_bind_ok_iff.mp h
        cases h
        rw [Dict.get?_set_of_ne hips, Dict.get?_set_of_ne hipc]
      · cases h
        exact Dict.get?_set_of_ne hipc
    · cases h
      rfl

theorem ipc_ne_ips : taskIpc ≠ taskIps := by decide

/-- Nothing is shown of instructions and cycles that are not both available. -/
theorem instructionsShown_self_iff (hipc : measurements.get? taskIpc = none)
    (hips : measurements.get? taskIps = none)
    (h : ¬Available prev measurements [taskInstructions, taskCycles]) :
    InstructionsShown prev timeDelta measurements measurements ↔
      InstructionsMeet (counter prev measurements taskInstructions)
        (counter prev measurements taskCycles) timeDelta := by
  rw [available_pair_iff, not_and] at h
  constructor
  · intro hshown
    refine ⟨fun hi hc => absurd hc (h hi), fun _ _ => Counter.idle_iff.mpr fun path => ?_⟩
    exact (hshown.2 path).symm.trans (shown_of_none hips path)
  · intro hmeet
    refine ⟨fun path => ?_, fun path => ?_⟩
    · rw [shown_of_none hipc, ipcAt]
      by_cases hi : (counter prev measurements taskInstructions).Exists
      · rw [Counter.change_eq_none (h hi), ratioOf_none_right]
      · rw [Counter.change_eq_none hi, ratioOf_none_left]
    · rw [shown_of_none hips, ipsAt]
      by_cases hi : (counter prev measurements taskInstructions).Exists
      · exact (Counter.idle_iff.mp (hmeet.2 hi (h hi)) path).symm
      · rw [Counter.change_eq_none hi, ratioOf_none_left]

/-- A number is shown where the path ends at once. -/
theorem leaf?_zero {q : ℚ} {path : List Key} :
    leaf? 0 q path = if path = [] then some q else none := rfl

end Instructions

section Aggregated

variable {prev measurements : Measurements 0} {timeDelta : ℚ} {name name' : MetricName}

theorem tracked_zero {c : Counter 0} : c.Tracked := fun _ _ _ _ => trivial

theorem within_zero {c c' : Counter 0} : c.Within c' := fun _ _ _ _ => trivial

theorem deltas_zero (h : Available prev measurements [name, name']) : ∃ a b : ℚ,
    delta 0 prev measurements name = .ok a ∧ delta 0 prev measurements name' = .ok b ∧
      (∀ path, (counter prev measurements name).change path = leaf? 0 a path) ∧
      ∀ path, (counter prev measurements name').change path = leaf? 0 b path := by
  obtain ⟨a, b, ha, hb⟩ := deltas_returns h tracked_zero tracked_zero
  exact ⟨a, b, ha, hb, fun path => (leaf?_delta ha path).symm,
    fun path => (leaf?_delta hb path).symm⟩

/-- What the block for aggregated instructions leaves. -/
theorem instructions_zero {i c : ℚ} (hi : delta 0 prev measurements taskInstructions = .ok i)
    (hc : delta 0 prev measurements taskCycles = .ok c) (h0 : 0 ≤ timeDelta)
    (hipc : measurements.get? taskIpc = none) (hips : measurements.get? taskIps = none)
    (h : Available prev measurements [taskInstructions, taskCycles]) : ∃ r,
    deriveInstructions 0 prev timeDelta measurements = .ok r ∧
      (∀ path, shown r taskIpc path = if 0 < c then leaf? 0 (i / c) path else none) ∧
      ∀ path, shown r taskIps path = ratioOf (leaf? 0 i path) (some timeDelta) := by
  have hcycles : ∃ m : Measurements 0, m.get? taskIps = none ∧
      (∀ path, shown m taskIpc path = if 0 < c then leaf? 0 (i / c) path else none) ∧
      deriveInstructions 0 prev timeDelta measurements =
        .ok (if 0 < timeDelta then m.set taskIps (i / timeDelta) else m) := by
    rw [deriveInstructions, if_pos h, hi, hc, except_ok_bind, except_ok_bind]
    by_cases hpos : 0 < c
    · refine ⟨measurements.set taskIpc (i / c), ?_, fun path => ?_, by simp only [if_pos hpos]; rfl⟩
      · rw [Dict.get?_set_of_ne ipc_ne_ips.symm, hips]
      · rw [if_pos hpos, shown_set_self]
    · refine ⟨measurements, hips, fun path => ?_, by simp only [if_neg hpos]; rfl⟩
      rw [if_neg hpos, shown_of_none hipc]
  obtain ⟨m, hnone, hshown, hrun⟩ := hcycles
  refine ⟨_, hrun, fun path => ?_, fun path => ?_⟩
  · rw [← hshown path]
    split
    · exact shown_congr (Dict.get?_set_of_ne ipc_ne_ips) path
    · rfl
  · by_cases hpos : 0 < timeDelta
    · rw [if_pos hpos, shown_set_self, leaf?_zero, leaf?_zero]
      by_cases hpath : path = [] <;> simp [hpath, ratioOf, hpos.ne']
    · rw [if_neg hpos, shown_of_none hnone, le_antisymm (not_lt.mp hpos) h0, leaf?_zero]
      by_cases hpath : path = [] <;> simp [hpath, ratioOf]

theorem instructions_zero_iff (h0 : 0 ≤ timeDelta) (hipc : measurements.get? taskIpc = none)
    (hips : measurements.get? taskIps = none)
    (h : Available prev measurements [taskInstructions, taskCycles]) :
    (∃ r, deriveInstructions 0 prev timeDelta measurements = .ok r ∧
        InstructionsShown prev timeDelta measurements r) ↔
      InstructionsMeet (counter prev measurements taskInstructions)
        (counter prev measurements taskCycles) timeDelta := by
  obtain ⟨hinst, hcycles⟩ := available_pair_iff.mp h
  obtain ⟨i, c, hi, hc, hichange, hcchange⟩ := deltas_zero h
  obtain ⟨r, hrun, hripc, hrips⟩ := instructions_zero hi hc h0 hipc hips h
  constructor
  · intro hshown
    obtain ⟨r', hrun', hshown⟩ := hshown
    rw [hrun] at hrun'
    cases hrun'
    refine ⟨fun _ _ => ⟨tracked_zero, tracked_zero, within_zero, fun _ d hd => ?_⟩,
      fun _ hnot => absurd hcycles hnot⟩
    rw [hcchange, leaf?_zero, if_pos rfl] at hd
    cases hd
    -- cycles that went back make a ratio that is not shown
    by_contra hneg
    have hipc' := hshown.1 []
    rw [hripc, if_neg fun hpos => hneg hpos.le, ipcAt, hichange, hcchange, leaf?_zero, leaf?_zero,
      if_pos rfl, if_pos rfl, ratioOf, Option.bind_some, Option.bind_some,
      if_neg fun hzero => hneg hzero.ge] at hipc'
    cases hipc'
  · intro hmeet
    have hle : 0 ≤ c := (hmeet.1 hinst hcycles).2.2.2 rfl c ((hcchange []).trans rfl)
    refine ⟨r, hrun, fun path => ?_, fun path => ?_⟩
    · rw [hripc, ipcAt, hichange, hcchange, leaf?_zero, leaf?_zero, leaf?_zero]
      by_cases hpath : path = []
      · obtain hpos | hzero := hle.lt_or_eq
        · simp [hpath, ratioOf, hpos, hpos.ne']
        · simp [hpath, ratioOf, ← hzero]
      · simp [hpath, ratioOf]
    · rw [hrips, ipsAt, hichange]

end Aggregated

section Levelled

variable {prev measurements : Measurements (levels + 1)} {timeDelta : ℚ} {name name' : MetricName}

theorem rate_returns (hpos : 0 < timeDelta) (d : Leveled (levels + 1)) :
    ∃ r, operationOnLeveledMetric (fun value => truediv value timeDelta) levels d = .ok r :=
  metric_returns_iff.mpr fun _ q _ => ⟨q / timeDelta, by rw [truediv, if_neg hpos.ne']⟩

/-- The block for levelled instructions returns just when their keys allow it. -/
theorem instructions_succ_returns_iff
    (h : Available prev measurements [taskInstructions, taskCycles]) :
    (∃ r, deriveInstructions (levels + 1) prev timeDelta measurements = .ok r) ↔
      (counter prev measurements taskInstructions).Tracked ∧
        (counter prev measurements taskCycles).Tracked ∧
          (counter prev measurements taskInstructions).Within
            (counter prev measurements taskCycles) := by
  obtain ⟨hinst, hcycles⟩ := available_pair_iff.mp h
  rw [deriveInstructions, if_pos h]
  constructor
  · intro hrun
    obtain ⟨r, hrun⟩ := hrun
    obtain ⟨i, hi, hrun⟩ := except_bind_ok_iff.mp hrun
    obtain ⟨c, hc, hrun⟩ := except_bind_ok_iff.mp hrun
    obtain ⟨ipc, hipc, -⟩ := except_bind_ok_iff.mp hrun
    refine ⟨(delta_returns_iff hinst).mp ⟨i, hi⟩, (delta_returns_iff hcycles).mp ⟨c, hc⟩, ?_⟩
    exact (covered_deltas_iff hi hc hinst hcycles).mp
      ((operation_returns_iff divides_truediv).mp ⟨ipc, hipc⟩)
  · intro hkeys
    obtain ⟨htracked, htracked', hwithin⟩ := hkeys
    obtain ⟨i, c, hi, hc⟩ := deltas_returns h htracked htracked'
    obtain ⟨ipc, hipc⟩ := (operation_returns_iff divides_truediv).mpr
      ((covered_deltas_iff hi hc hinst hcycles).mpr hwithin)
    rw [hi, hc, except_ok_bind, except_ok_bind, hipc, except_ok_bind]
    by_cases hpos : 0 < timeDelta
    · obtain ⟨ips, hips⟩ := rate_returns hpos i
      exact ⟨_, by simp only [if_pos hpos, hips]; rfl⟩
    · exact ⟨_, by simp only [if_neg hpos]; rfl⟩

/-- Where it returns it shows what it should. -/
theorem instructionsShown_of_succ (h0 : 0 ≤ timeDelta) (hnone : measurements.get? taskIps = none)
    (h : Available prev measurements [taskInstructions, taskCycles])
    {r : Measurements (levels + 1)}
    (hrun : deriveInstructions (levels + 1) prev timeDelta measurements = .ok r) :
    InstructionsShown prev timeDelta measurements r := by
  rw [deriveInstructions, if_pos h] at hrun
  obtain ⟨i, hi, hrun⟩ := except_bind_ok_iff.mp hrun
  obtain ⟨c, hc, hrun⟩ := except_bind_ok_iff.mp hrun
  obtain ⟨ipc, hipc, hrun⟩ := except_bind_ok_iff.mp hrun
  have hratio : ∀ path, leaf? (levels + 1) ipc path =
      ipcAt (counter prev measurements taskInstructions)
        (counter prev measurements taskCycles) path := fun path => by
    rw [leaf?_operation divides_truediv hipc, leaf?_delta hi, leaf?_delta hc, ipcAt,
      ratioOf_eq_truediv]
  dsimp only at hrun
  split at hrun
  · obtain ⟨ips, hips, hrun⟩ := except_bind_ok_iff.mp hrun
    cases hrun
    refine ⟨fun path => ?_, fun path => ?_⟩
    · rw [shown_congr (Dict.get?_set_of_ne ipc_ne_ips), shown_set_self, hratio]
    · rw [shown_set_self, leaf?_metric hips, leaf?_delta hi, ipsAt, ratioOf_eq_truediv]
      rfl
  · next hpos =>
    cases hrun
    refine ⟨fun path => ?_, fun path => ?_⟩
    · rw [shown_set_self, hratio]
    · rw [shown_congr (Dict.get?_set_of_ne ipc_ne_ips.symm), shown_of_none hnone, ipsAt,
        le_antisymm (not_lt.mp hpos) h0]
      cases (counter prev measurements taskInstructions).change path <;> rfl

end Levelled

/-- The block for instructions shows what it should just when the counters meet its condition. -/
theorem instructions_iff {prev measurements : Measurements levels} {timeDelta : ℚ}
    (h0 : 0 ≤ timeDelta) (hipc : measurements.get? taskIpc = none)
    (hips : measurements.get? taskIps = none) :
    (∃ r, deriveInstructions levels prev timeDelta measurements = .ok r ∧
        InstructionsShown prev timeDelta measurements r) ↔
      InstructionsMeet (counter prev measurements taskInstructions)
        (counter prev measurements taskCycles) timeDelta := by
  by_cases h : Available prev measurements [taskInstructions, taskCycles]
  · cases levels with
    | zero => exact instructions_zero_iff h0 hipc hips h
    | succ levels =>
      obtain ⟨hinst, hcycles⟩ := available_pair_iff.mp h
      have hreturns := @instructions_succ_returns_iff levels prev measurements timeDelta h
      constructor
      · intro hshown
        obtain ⟨r, hrun, -⟩ := hshown
        obtain ⟨htracked, htracked', hwithin⟩ := hreturns.mp ⟨r, hrun⟩
        exact ⟨fun _ _ => ⟨htracked, htracked', hwithin, fun hzero => (nomatch hzero)⟩,
          fun _ hnot => absurd hcycles hnot⟩
      · intro hmeet
        obtain ⟨htracked, htracked', hwithin, -⟩ := hmeet.1 hinst hcycles
        obtain ⟨r, hrun⟩ := hreturns.mpr ⟨htracked, htracked', hwithin⟩
        exact ⟨r, hrun, instructionsShown_of_succ h0 hips h hrun⟩
  · have hrun : deriveInstructions levels prev timeDelta measurements = .ok measurements := by
      cases levels <;> rw [deriveInstructions, if_neg h] <;> rfl
    rw [← instructionsShown_self_iff hipc hips h, hrun]
    exact ⟨fun ⟨_, hr, hshown⟩ => by cases hr; exact hshown, fun hshown => ⟨_, rfl, hshown⟩⟩

/-! ## Cache misses per thousand instructions -/

section Misses

theorem change_zero_ne_zero_iff {q : ℚ} {c : Counter 0}
    (h : ∀ path, c.change path = leaf? 0 q path) : c.change [] ≠ some 0 ↔ q ≠ 0 := by
  rw [h, leaf?_zero, if_pos rfl, Ne, Option.some.injEq]

theorem mpki_frame {prev measurements r : Measurements levels}
    (h : deriveMisses levels prev measurements = .ok r) {name : MetricName}
    (hne : name ≠ taskCacheMissesPerKiloInstructions) : r.get? name = measurements.get? name := by
  cases levels <;>
  · rw [deriveMisses] at h
    split at h
    · obtain ⟨_, -, h⟩ := except_bind_ok_iff.mp h
      obtain ⟨_, -, h⟩ := except_bind_ok_iff.mp h
      obtain ⟨_, -, h⟩ := except_bind_ok_iff.mp h
      obtain ⟨_, -, h⟩ := except_bind_ok_iff.mp h
      cases h
      exact Dict.get?_set_of_ne hne
    · cases h
      rfl

theorem misses_zero_iff {prev measurements : Measurements 0}
    (h : Available prev measurements [taskInstructions, taskCacheMisses]) :
    (∃ r, deriveMisses 0 prev measurements = .ok r ∧
        ∀ path, shown r taskCacheMissesPerKiloInstructions path =
          mpkiAt (counter prev measurements taskCacheMisses)
            (counter prev measurements taskInstructions) path) ↔
      RatioMeets (counter prev measurements taskCacheMisses)
        (counter prev measurements taskInstructions)
        (counter prev measurements taskInstructions) := by
  obtain ⟨hinst, hmisses⟩ := available_pair_iff.mp h
  obtain ⟨i, m, hi, hm, hichange, hmchange⟩ := deltas_zero h
  have hmeet : RatioMeets (counter prev measurements taskCacheMisses)
      (counter prev measurements taskInstructions) (counter prev measurements taskInstructions) ↔
        i ≠ 0 := by
    rw [← change_zero_ne_zero_iff hichange]
    exact ⟨fun hmeet => (hmeet hmisses hinst).2.2.2 rfl,
      fun hne _ _ => ⟨tracked_zero, tracked_zero, within_zero, fun _ => hne⟩⟩
  rw [hmeet, deriveMisses, if_pos h, hi, hm, except_ok_bind, except_ok_bind]
  by_cases hzero : i = 0
  · rw [hzero, truediv_zero]
    exact ⟨fun ⟨_, hr, _⟩ => (nomatch hr), fun hne => absurd rfl hne⟩
  · rw [truediv_ok hzero]
    refine ⟨fun _ => hzero, fun _ => ⟨_, rfl, fun path => ?_⟩⟩
    rw [shown_set_self, mpkiAt, hichange, hmchange, leaf?_zero, leaf?_zero, leaf?_zero]
    have hthousand : i / 1000 ≠ 0 := div_ne_zero hzero (by norm_num)
    by_cases hpath : path = []
    · simp only [hpath, if_true, Option.map_some, ratioOf, Option.bind_some, if_neg hthousand]
      congr 1
      field_simp
    · simp [hpath, ratioOf]

theorem misses_succ_iff {prev measurements : Measurements (levels + 1)}
    (h : Available prev measurements [taskInstructions, taskCacheMisses]) :
    (∃ r, deriveMisses (levels + 1) prev measurements = .ok r ∧
        ∀ path, shown r taskCacheMissesPerKiloInstructions path =
          mpkiAt (counter prev measurements taskCacheMisses)
            (counter prev measurements taskInstructions) path) ↔
      RatioMeets (counter prev measurements taskCacheMisses)
        (counter prev measurements taskInstructions)
        (counter prev measurements taskInstructions) := by
  obtain ⟨hinst, hmisses⟩ := available_pair_iff.mp h
  rw [deriveMisses, if_pos h]
  constructor
  · intro hshown _ _
    obtain ⟨r, hrun, -⟩ := hshown
    obtain ⟨i, hi, hrun⟩ := except_bind_ok_iff.mp hrun
    obtain ⟨m, hm, hrun⟩ := except_bind_ok_iff.mp hrun
    obtain ⟨divided, hdivided, -⟩ := except_bind_ok_iff.mp hrun
    refine ⟨(delta_returns_iff hmisses).mp ⟨m, hm⟩, (delta_returns_iff hinst).mp ⟨i, hi⟩, ?_,
      fun hzero => (nomatch hzero)⟩
    exact (covered_deltas_iff hm hi hmisses hinst).mp
      ((operation_returns_iff divides_truediv).mp ⟨divided, hdivided⟩)
  · intro hmeet
    obtain ⟨htracked, htracked', hwithin, -⟩ := hmeet hmisses hinst
    obtain ⟨i, m, hi, hm⟩ := deltas_returns h htracked' htracked
    obtain ⟨divided, hdivided⟩ := (operation_returns_iff divides_truediv).mpr
      ((covered_deltas_iff hm hi hmisses hinst).mpr hwithin)
    obtain ⟨mpki, hmpki⟩ := (metric_returns_iff (d := divided)).mpr fun _ q _ => ⟨q * 1000, rfl⟩
    have hmpki' : operationOnLeveledMetric times1000 levels divided = .ok mpki := hmpki
    rw [hi, hm, except_ok_bind, except_ok_bind, hdivided, except_ok_bind, hmpki', except_ok_bind]
    refine ⟨_, rfl, fun path => ?_⟩
    rw [shown_set_self, leaf?_metric hmpki', leaf?_operation divides_truediv hdivided,
      leaf?_delta hm, leaf?_delta hi, mpkiAt]
    cases (counter prev measurements taskCacheMisses).change path with
    | none => rfl
    | some x =>
      cases (counter prev measurements taskInstructions).change path with
      | none => rfl
      | some y =>
        simp only [Option.bind_some, Option.map_some, ratioOf]
        by_cases hzero : y = 0
        · simp [hzero, truediv_zero, Except.toOption]
        · have hthousand : y / 1000 ≠ 0 := div_ne_zero hzero (by norm_num)
          rw [truediv_ok hzero, if_neg hthousand]
          simp only [Except.toOption, Option.bind_some, times1000]
          congr 1
          field_simp

/-- The block for misses shows what it should just when the counters meet its condition. -/
theorem misses_iff {prev measurements : Measurements levels}
    (hnone : measurements.get? taskCacheMissesPerKiloInstructions = none) :
    (∃ r, deriveMisses levels prev measurements = .ok r ∧
        ∀ path, shown r taskCacheMissesPerKiloInstructions path =
          mpkiAt (counter prev measurements taskCacheMisses)
            (counter prev measurements taskInstructions) path) ↔
      RatioMeets (counter prev measurements taskCacheMisses)
        (counter prev measurements taskInstructions)
        (counter prev measurements taskInstructions) := by
  by_cases h : Available prev measurements [taskInstructions, taskCacheMisses]
  · cases levels with
    | zero => exact misses_zero_iff h
    | succ levels => exact misses_succ_iff h
  · have hrun : deriveMisses levels prev measurements = .ok measurements := by
      cases levels <;> rw [deriveMisses, if_neg h] <;> rfl
    rw [hrun]
    refine ⟨fun _ hmisses hinst => absurd (available_pair_iff.mpr ⟨hinst, hmisses⟩) h,
      fun _ => ⟨_, rfl, fun path => ?_⟩⟩
    rw [shown_of_none hnone, mpkiAt]
    obtain hinst | hmisses := over_change_none h path
    · rw [hinst, Option.map_none, ratioOf_none_right]
    · rw [hmisses, ratioOf_none_left]

end Misses

/-! ## The cache hit ratio -/

section References

theorem hitRatio_frame {prev measurements r : Measurements levels}
    (h : deriveReferences levels prev measurements = .ok r) {name : MetricName}
    (hne : name ≠ taskCacheHitRatio) : r.get? name = measurements.get? name := by
  cases levels with
  | zero =>
    rw [deriveReferences] at h
    split at h
    · obtain ⟨_, -, h⟩ := except_bind_ok_iff.mp h
      obtain ⟨_, -, h⟩ := except_bind_ok_iff.mp h
      obtain ⟨_, -, h⟩ := except_bind_ok_iff.mp h
      cases h
      exact Dict.get?_set_of_ne hne
    · cases h
      rfl
  | succ levels =>
    rw [deriveReferences] at h
    split at h
    · obtain ⟨_, -, h⟩ := except_bind_ok_iff.mp h
      obtain ⟨_, -, h⟩ := except_bind_ok_iff.mp h
      obtain ⟨_, -, h⟩ := except_bind_ok_iff.mp h
      obtain ⟨_, -, h⟩ := except_bind_ok_iff.mp h
      cases h
      exact Dict.get?_set_of_ne hne
    · cases h
      rfl

theorem references_zero_iff {prev measurements : Measurements 0}
    (h : Available prev measurements [taskCacheReferences, taskCacheMisses]) :
    (∃ r, deriveReferences 0 prev measurements = .ok r ∧
        ∀ path, shown r taskCacheHitRatio path =
          hitRatioAt (counter prev measurements taskCacheReferences)
            (counter prev measurements taskCacheMisses) path) ↔
      RatioMeets (counter prev measurements taskCacheReferences)
        (counter prev measurements taskCacheMisses)
        (counter prev measurements taskCacheReferences) := by
  obtain ⟨hrefs, hmisses⟩ := available_pair_iff.mp h
  obtain ⟨n, m, hn, hm, hnchange, hmchange⟩ := deltas_zero h
  have hmeet : RatioMeets (counter prev measurements taskCacheReferences)
      (counter prev measurements taskCacheMisses)
      (counter prev measurements taskCacheReferences) ↔ n ≠ 0 := by
    rw [← change_zero_ne_zero_iff hnchange]
    exact ⟨fun hmeet => (hmeet hrefs hmisses).2.2.2 rfl,
      fun hne _ _ => ⟨tracked_zero, tracked_zero, within_zero, fun _ => hne⟩⟩
  rw [hmeet, deriveReferences, if_pos h, hn, hm, except_ok_bind, except_ok_bind]
  by_cases hzero : n = 0
  · rw [hzero, truediv_zero]
    exact ⟨fun ⟨_, hr, _⟩ => (nomatch hr), fun hne => absurd rfl hne⟩
  · rw [truediv_ok hzero]
    refine ⟨fun _ => hzero, fun _ => ⟨_, rfl, fun path => ?_⟩⟩
    rw [shown_set_self, hitRatioAt, hnchange, hmchange, leaf?_zero, leaf?_zero, leaf?_zero]
    by_cases hpath : path = []
    · simp [hpath, ratioOf, hzero]
    · simp [hpath, ratioOf]

theorem references_succ_iff {prev measurements : Measurements (levels + 1)}
    (h : Available prev measurements [taskCacheReferences, taskCacheMisses]) :
    (∃ r, deriveReferences (levels + 1) prev measurements = .ok r ∧
        ∀ path, shown r taskCacheHitRatio path =
          hitRatioAt (counter prev measurements taskCacheReferences)
            (counter prev measurements taskCacheMisses) path) ↔
      RatioMeets (counter prev measurements taskCacheReferences)
        (counter prev measurements taskCacheMisses)
        (counter prev measurements taskCacheReferences) := by
  obtain ⟨hrefs, hmisses⟩ := available_pair_iff.mp h
  rw [deriveReferences, if_pos h]
  constructor
  · intro hshown _ _
    obtain ⟨r, hrun, -⟩ := hshown
    obtain ⟨n, hn, hrun⟩ := except_bind_ok_iff.mp hrun
    obtain ⟨m, hm, hrun⟩ := except_bind_ok_iff.mp hrun
    obtain ⟨hits, hhits, -⟩ := except_bind_ok_iff.mp hrun
    refine ⟨(delta_returns_iff hrefs).mp ⟨n, hn⟩, (delta_returns_iff hmisses).mp ⟨m, hm⟩, ?_,
      fun hzero => (nomatch hzero)⟩
    exact (covered_deltas_iff hn hm hrefs hmisses).mp
      ((operation_returns_iff divides_sub).mp ⟨hits, hhits⟩)
  · intro hmeet
    obtain ⟨htracked, htracked', hwithin, -⟩ := hmeet hrefs hmisses
    obtain ⟨n, m, hn, hm⟩ := deltas_returns h htracked htracked'
    obtain ⟨hits, hhits⟩ := (operation_returns_iff divides_sub).mpr
      ((covered_deltas_iff hn hm hrefs hmisses).mpr hwithin)
    -- the hits have no other keys than the references
    obtain ⟨ratio, hratio⟩ := (operation_returns_iff divides_truediv).mpr (covered_operation hhits)
    rw [hn, hm, except_ok_bind, except_ok_bind, hhits, except_ok_bind, hratio, except_ok_bind]
    refine ⟨_, rfl, fun path => ?_⟩
    rw [shown_set_self, leaf?_operation divides_truediv hratio, leaf?_operation divides_sub hhits,
      leaf?_delta hn, leaf?_delta hm, hitRatioAt, ratioOf_eq_truediv]
    cases (counter prev measurements taskCacheReferences).change path with
    | none => rfl
    | some x => cases (counter prev measurements taskCacheMisses).change path <;> rfl

/-- The block for references shows what it should just when the counters meet its condition. -/
theorem references_iff {prev measurements : Measurements levels}
    (hnone : measurements.get? taskCacheHitRatio = none) :
    (∃ r, deriveReferences levels prev measurements = .ok r ∧
        ∀ path, shown r taskCacheHitRatio path =
          hitRatioAt (counter prev measurements taskCacheReferences)
            (counter prev measurements taskCacheMisses) path) ↔
      RatioMeets (counter prev measurements taskCacheReferences)
        (counter prev measurements taskCacheMisses)
        (counter prev measurements taskCacheReferences) := by
  by_cases h : Available prev measurements [taskCacheReferences, taskCacheMisses]
  · cases levels with
    | zero => exact references_zero_iff h
    | succ levels => exact references_succ_iff h
  · have hrun : deriveReferences levels prev measurements = .ok measurements := by
      cases levels <;> rw [deriveReferences, if_neg h] <;> rfl
    rw [hrun]
    refine ⟨fun _ hrefs hmisses => absurd (available_pair_iff.mpr ⟨hrefs, hmisses⟩) h,
      fun _ => ⟨_, rfl, fun path => ?_⟩⟩
    rw [shown_of_none hnone, hitRatioAt]
    obtain hrefs | hmisses := over_change_none h path
    · rw [hrefs]
      rfl
    · rw [hmisses]
      cases (counter prev measurements taskCacheReferences).change path <;> rfl

end References

/-! ## The generator -/

def derivedNames : List MetricName :=
  [taskIpc, taskIps, taskCacheMissesPerKiloInstructions, taskCacheHitRatio]

/-- The result has the counters as they were, and each derived metric where its counters have it in
both snapshots and what is below is not zero. -/
structure Shows (prev : Measurements levels) (timeDelta : ℚ)
    (measurements r : Measurements levels) : Prop where
  agrees : Agrees derivedNames measurements r
  ipc : ∀ path, shown r taskIpc path = ipcAt (counter prev measurements taskInstructions)
    (counter prev measurements taskCycles) path
  ips : ∀ path, shown r taskIps path =
    ipsAt (counter prev measurements taskInstructions) timeDelta path
  mpki : ∀ path, shown r taskCacheMissesPerKiloInstructions path =
    mpkiAt (counter prev measurements taskCacheMisses)
      (counter prev measurements taskInstructions) path
  hitRatio : ∀ path, shown r taskCacheHitRatio path =
    hitRatioAt (counter prev measurements taskCacheReferences)
      (counter prev measurements taskCacheMisses) path

/-- Two snapshots that the generator does its work on. -/
structure Meets (prev : Measurements levels) (timeDelta : ℚ) (measurements : Measurements levels) :
    Prop where
  instructions : InstructionsMeet (counter prev measurements taskInstructions)
    (counter prev measurements taskCycles) timeDelta
  misses : RatioMeets (counter prev measurements taskCacheMisses)
    (counter prev measurements taskInstructions) (counter prev measurements taskInstructions)
  references : RatioMeets (counter prev measurements taskCacheReferences)
    (counter prev measurements taskCacheMisses) (counter prev measurements taskCacheReferences)

section Generator

variable {prev prev' measurements measurements' : Measurements levels} {timeDelta : ℚ}

/-- The names of a block are not names of the next ones, and none is the name of a counter. -/
theorem agrees_instructions {r : Measurements levels}
    (h : deriveInstructions levels prev timeDelta measurements = .ok r) :
    Agrees derivedNames measurements r :=
  fun name hname => instructions_frame h (fun heq => hname (heq ▸ by decide))
    fun heq => hname (heq ▸ by decide)

theorem agrees_misses {r : Measurements levels}
    (h : deriveMisses levels prev measurements = .ok r) : Agrees derivedNames measurements r :=
  fun name hname => mpki_frame h fun heq => hname (heq ▸ by decide)

theorem agrees_references {r : Measurements levels}
    (h : deriveReferences levels prev measurements = .ok r) : Agrees derivedNames measurements r :=
  fun name hname => hitRatio_frame h fun heq => hname (heq ▸ by decide)

theorem misses_iff_of_agrees (h : Agrees derivedNames measurements measurements')
    (hnone : measurements'.get? taskCacheMissesPerKiloInstructions = none) :
    (∃ r, deriveMisses levels prev measurements' = .ok r ∧
        ∀ path, shown r taskCacheMissesPerKiloInstructions path =
          mpkiAt (counter prev measurements taskCacheMisses)
            (counter prev measurements taskInstructions) path) ↔
      RatioMeets (counter prev measurements taskCacheMisses)
        (counter prev measurements taskInstructions)
        (counter prev measurements taskInstructions) := by
  have hiff := @misses_iff levels prev measurements' hnone
  rwa [h.counter (by decide), h.counter (by decide)] at hiff

theorem references_iff_of_agrees (h : Agrees derivedNames measurements measurements')
    (hnone : measurements'.get? taskCacheHitRatio = none) :
    (∃ r, deriveReferences levels prev measurements' = .ok r ∧
        ∀ path, shown r taskCacheHitRatio path =
          hitRatioAt (counter prev measurements taskCacheReferences)
            (counter prev measurements taskCacheMisses) path) ↔
      RatioMeets (counter prev measurements taskCacheReferences)
        (counter prev measurements taskCacheMisses)
        (counter prev measurements taskCacheReferences) := by
  have hiff := @references_iff levels prev measurements' hnone
  rwa [h.counter (by decide), h.counter (by decide)] at hiff

/-- The generator shows what it should just when the snapshots meet its condition. -/
theorem derive_iff (h0 : 0 ≤ timeDelta) (hraw : Raw derivedNames measurements) :
    (∃ r, derive levels prev timeDelta measurements = .ok r ∧ Shows prev timeDelta measurements r) ↔
      Meets prev timeDelta measurements := by
  have hinstructions := @instructions_iff levels prev measurements timeDelta h0
    (hraw taskIpc (by decide)) (hraw taskIps (by decide))
  constructor
  · intro h
    obtain ⟨r, hrun, hshows⟩ := h
    obtain ⟨r₁, hr₁, hrun⟩ := except_bind_ok_iff.mp hrun
    obtain ⟨r₂, hr₂, hr⟩ := except_bind_ok_iff.mp hrun
    have hafter₁ := agrees_instructions hr₁
    have hafter₂ := hafter₁.trans (agrees_misses hr₂)
    have hmpki : r₁.get? taskCacheMissesPerKiloInstructions = none :=
      (instructions_frame hr₁ (by decide) (by decide)).trans (hraw _ (by decide))
    have hratio : r₂.get? taskCacheHitRatio = none :=
      (mpki_frame hr₂ (by decide)).trans
        ((instructions_frame hr₁ (by decide) (by decide)).trans (hraw _ (by decide)))
    refine ⟨hinstructions.mp ⟨r₁, hr₁, fun path => ?_, fun path => ?_⟩,
      (misses_iff_of_agrees hafter₁ hmpki).mp ⟨r₂, hr₂, fun path => ?_⟩,
      (references_iff_of_agrees hafter₂ hratio).mp ⟨r, hr, hshows.hitRatio⟩⟩
    · rw [← hshows.ipc path, shown_congr (hitRatio_frame hr (by decide)),
        shown_congr (mpki_frame hr₂ (by decide))]
    · rw [← hshows.ips path, shown_congr (hitRatio_frame hr (by decide)),
        shown_congr (mpki_frame hr₂ (by decide))]
    · rw [← hshows.mpki path, shown_congr (hitRatio_frame hr (by decide))]
  · intro h
    obtain ⟨r₁, hr₁, hipc, hips⟩ := hinstructions.mpr h.instructions
    have hafter₁ := agrees_instructions hr₁
    have hmpki : r₁.get? taskCacheMissesPerKiloInstructions = none :=
      (instructions_frame hr₁ (by decide) (by decide)).trans (hraw _ (by decide))
    obtain ⟨r₂, hr₂, hmisses⟩ := (misses_iff_of_agrees hafter₁ hmpki).mpr h.misses
    have hafter₂ := hafter₁.trans (agrees_misses hr₂)
    have hratio : r₂.get? taskCacheHitRatio = none :=
      (mpki_frame hr₂ (by decide)).trans
        ((instructions_frame hr₁ (by decide) (by decide)).trans (hraw _ (by decide)))
    obtain ⟨r, hr, hreferences⟩ := (references_iff_of_agrees hafter₂ hratio).mpr h.references
    refine ⟨r, except_bind_ok_iff.mpr ⟨r₁, hr₁, except_bind_ok_iff.mpr ⟨r₂, hr₂, hr⟩⟩,
      hafter₂.trans (agrees_references hr), fun path => ?_, fun path => ?_, fun path => ?_,
      hreferences⟩
    · rw [shown_congr (hitRatio_frame hr (by decide)), shown_congr (mpki_frame hr₂ (by decide)),
        hipc path]
    · rw [shown_congr (hitRatio_frame hr (by decide)), shown_congr (mpki_frame hr₂ (by decide)),
        hips path]
    · rw [shown_congr (hitRatio_frame hr (by decide)), hmisses path]

theorem Shows.of_agrees {r : Measurements levels} (h : Agrees derivedNames prev prev')
    (hshows : Shows prev timeDelta measurements r) : Shows prev' timeDelta measurements r := by
  have hcounter : ∀ name ∉ derivedNames,
      counter prev' measurements name = counter prev measurements name :=
    fun name hname => h.counter_before hname
  constructor
  · exact hshows.agrees
  · rw [hcounter _ (by decide), hcounter _ (by decide)]
    exact hshows.ipc
  · rw [hcounter _ (by decide)]
    exact hshows.ips
  · rw [hcounter _ (by decide), hcounter _ (by decide)]
    exact hshows.mpki
  · rw [hcounter _ (by decide), hcounter _ (by decide)]
    exact hshows.hitRatio

theorem Meets.of_agrees (h : Agrees derivedNames prev prev')
    (hmeets : Meets prev timeDelta measurements) : Meets prev' timeDelta measurements := by
  have hcounter : ∀ name ∉ derivedNames,
      counter prev' measurements name = counter prev measurements name :=
    fun name hname => h.counter_before hname
  constructor
  · rw [hcounter _ (by decide), hcounter _ (by decide)]
    exact hmeets.instructions
  · rw [hcounter _ (by decide), hcounter _ (by decide)]
    exact hmeets.misses
  · rw [hcounter _ (by decide), hcounter _ (by decide)]
    exact hmeets.references

theorem derives : Derives (derive levels) (Raw derivedNames) (Agrees derivedNames) Shows Meets where
  iff := fun _ _ _ h0 hraw => derive_iff h0 hraw
  agrees := fun _ _ _ _ hshows => hshows.agrees
  refl := Agrees.refl
  shows_congr := fun _ _ _ _ _ h => ⟨Shows.of_agrees h, Shows.of_agrees h.symm⟩
  meets_congr := fun _ _ _ _ h => ⟨Meets.of_agrees h, Meets.of_agrees h.symm⟩

end Generator

end PerfCgroup

end Wca.Derived
