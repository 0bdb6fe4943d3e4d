import Wca.Scheduler.Fractions

/-!
# The priorities of nodes

`LeastUsed` prefers nodes that have much left, `BAR` nodes that are used evenly over the dimensions,
and `LeastUsedBAR` adds the two up. All three go by the fraction of each dimension that would be
taken with the app on the node.
-/

namespace Wca.Scheduler

open Py ResourceType Resources

/-- What would be taken of each dimension of a node, with the app on it. -/
def getRequestedFraction (appName : AppName) (appsSpec : Dict AppName Resources)
    (assignedApps : Dict NodeName Apps) (nodeName : NodeName)
    (nodesCapacities : Dict NodeName Resources) (dimensions : List ResourceType) :
    Except Exc Resources := do
  let usage ← usedFreeRequested nodeName appName dimensions nodesCapacities assignedApps appsSpec
  let requestedAndUsed ←
    (sumResources usage.requested usage.used).mapError fun _ => .DataMissingException
  divideResources requestedAndUsed usage.capacity usage.membwReadWriteRatio

/-- How far the fractions are apart; for two of them, their distance. -/
def calculateVariance (requestedFraction : Resources) (barWeights : Dict ResourceType ℚ) :
    Except Exc ℚ := do
  let mean ← truediv requestedFraction.values.sum requestedFraction.len
  if 2 < requestedFraction.len then
    let squares := requestedFraction.items.map fun p =>
      (p.2 - mean) * (p.2 - mean) * (barWeights.get? p.1).getD 1
    pure (squares.sum / requestedFraction.len)
  else
    match requestedFraction.values with
    | [fraction, fraction'] => pure |fraction - fraction'|
    | _ => pure 0

/-- What is left of each dimension, and the weighted mean of that. -/
def calculateLeastUsedScore (requestedFraction : Resources) (weights : Dict ResourceType ℚ) :
    Except Exc (Resources × ℚ) := do
  let freeFraction := requestedFraction.map fun _ fraction => 1 - fraction
  let weighted ← freeFraction.items.mapM fun p => do
    let weight ← weights.item p.1
    pure (p.2 * weight)
  let leastUsedScore ← truediv weighted.sum weights.values.sum
  pure (freeFraction, leastUsedScore)

/-- The fields of a `BAR` object. -/
structure BAR where
  fit : Fit
  maxNodeScore : ℚ := 10
  barWeights : Dict ResourceType ℚ

/-- The fields of a `LeastUsed` object. -/
structure LeastUsed where
  fit : Fit
  maxNodeScore : ℚ := 10
  leastUsedWeights : Dict ResourceType ℚ

/-- The fields of a `LeastUsedBAR` object. -/
structure LeastUsedBAR where
  fit : Fit
  maxNodeScore : ℚ := 10
  leastUsedWeights : Dict ResourceType ℚ
  barWeights : Dict ResourceType ℚ
  leastUsedWeight : ℚ := 1

namespace BAR

/-- `bar_weights or {}`: a dimension without a weight has one of 1. -/
def initWeights (barWeights : Option (Dict ResourceType ℚ)) : Dict ResourceType ℚ := barWeights.getD ∅

def priorityForNode (self : BAR) (nodeName : NodeName) (appName : AppName)
    (queried : QueryDataProviderInfo) : Except Exc ℚ := do
  let requestedFraction ← getRequestedFraction appName queried.appsSpec queried.assignedApps nodeName
    queried.nodesCapacities self.fit.dimensions
  let variance ← calculateVariance requestedFraction self.barWeights
  pure (1 - variance)

def algorithm (self : BAR) : BaseAlgorithm := self.fit.algorithm self.maxNodeScore self.priorityForNode

end BAR

namespace LeastUsed

/-- By default every dimension has a weight of 1, and so has the flat bandwidth. -/
def initWeights (dimensions : List ResourceType) (leastUsedWeights : Option (Dict ResourceType ℚ)) :
    Dict ResourceType ℚ :=
  match leastUsedWeights with
  | none => (Dict.ofItems (dimensions.map fun dim => (dim, 1))).set MEMBW_FLAT 1
  | some weights => weights

def priorityForNode (self : LeastUsed) (nodeName : NodeName) (appName : AppName)
    (queried : QueryDataProviderInfo) : Except Exc ℚ := do
  let requestedFraction ← getRequestedFraction appName queried.appsSpec queried.assignedApps nodeName
    queried.nodesCapacities self.fit.dimensions
  let score ← calculateLeastUsedScore requestedFraction self.leastUsedWeights
  pure score.2

def algorithm (self : LeastUsed) : BaseAlgorithm :=
  self.fit.algorithm self.maxNodeScore self.priorityForNode

end LeastUsed

namespace LeastUsedBAR

def toLeastUsed (self : LeastUsedBAR) : LeastUsed where
  fit := self.fit
  maxNodeScore := self.maxNodeScore
  leastUsedWeights := self.leastUsedWeights

def toBAR (self : LeastUsedBAR) : BAR where
  fit := self.fit
  maxNodeScore := self.maxNodeScore
  barWeights := self.barWeights

def priorityForNode (self : LeastUsedBAR) (nodeName : NodeName) (appName : AppName)
    (queried : QueryDataProviderInfo) : Except Exc ℚ := do
  let leastUsedScore ← self.toLeastUsed.priorityForNode nodeName appName queried
  let barScore ← self.toBAR.priorityForNode nodeName appName queried
  pure (leastUsedScore * self.leastUsedWeight + barScore)

def algorithm (self : LeastUsedBAR) : BaseAlgorithm :=
  self.fit.algorithm self.maxNodeScore self.priorityForNode

end LeastUsedBAR

/-! ## The variance of fractions -/

section Variance

variable {l : List ℚ} {m : ℚ}

/-- The mean of the squares of the distances. -/
def meanSquare (l : List ℚ) (m : ℚ) : ℚ := (l.map fun f => (f - m) * (f - m)).sum / l.length

/-- All the numbers are the same. -/
def AllEqual (l : List ℚ) : Prop := ∀ f ∈ l, ∀ f' ∈ l, f = f'

theorem length_pos_of_ne (hne : l ≠ []) : (0 : ℚ) < l.length := by
  exact_mod_cast List.length_pos_iff.mpr hne

theorem sum_le_length (h : ∀ f ∈ l, f ≤ 1) : l.sum ≤ l.length := by
  have hle := List.sum_le_card_nsmul l 1 h
  simpa using hle

theorem mean_mem_unit (hne : l ≠ []) (h : ∀ f ∈ l, 0 ≤ f ∧ f ≤ 1) :
    0 ≤ l.sum / l.length ∧ l.sum / l.length ≤ 1 := by
  have hlen := length_pos_of_ne hne
  refine ⟨div_nonneg (List.sum_nonneg fun f hf => (h f hf).1) hlen.le, ?_⟩
  rw [div_le_one hlen]
  exact sum_le_length fun f hf => (h f hf).2

theorem meanSquare_nonneg : 0 ≤ meanSquare l m := by
  apply div_nonneg _ (Nat.cast_nonneg _)
  apply List.sum_nonneg
  intro x hx
  obtain ⟨f, _, rfl⟩ := List.mem_map.mp hx
  exact mul_self_nonneg _

theorem meanSquare_le_one (hne : l ≠ []) (h : ∀ f ∈ l, 0 ≤ f ∧ f ≤ 1) (hm : 0 ≤ m ∧ m ≤ 1) :
    meanSquare l m ≤ 1 := by
  rw [meanSquare, div_le_one (length_pos_of_ne hne), ← List.length_map]
  apply sum_le_length
  intro x hx
  obtain ⟨f, hf, rfl⟩ := List.mem_map.mp hx
  obtain ⟨h0, h1⟩ := h f hf
  have habs : |f - m| ≤ 1 := by
    rw [abs_le]
    constructor <;> linarith
  exact abs_le_one_iff_mul_self_le_one.mp habs

theorem meanSquare_eq_zero_iff (hne : l ≠ []) : meanSquare l m = 0 ↔ ∀ f ∈ l, f = m := by
  rw [meanSquare, div_eq_zero_iff, or_iff_left (length_pos_of_ne hne).ne']
  constructor
  · intro h f hf
    have hzero := List.all_zero_of_le_zero_le_of_sum_eq_zero (fun x hx => by
      obtain ⟨f, _, rfl⟩ := List.mem_map.mp hx
      exact mul_self_nonneg _) h (List.mem_map_of_mem hf)
    exact sub_eq_zero.mp (mul_self_eq_zero.mp hzero)
  · intro h
    apply List.sum_eq_zero
    intro x hx
    obtain ⟨f, hf, rfl⟩ := List.mem_map.mp hx
    rw [h f hf, sub_self, mul_zero]

/-- Numbers that are all the same are their mean. -/
theorem forall_eq_mean_iff (hne : l ≠ []) : (∀ f ∈ l, f = l.sum / l.length) ↔ AllEqual l := by
  constructor
  · intro h f hf f' hf'
    rw [h f hf, h f' hf']
  · intro h f hf
    have hconst : l = List.replicate l.length f := List.eq_replicate_iff.mpr
      ⟨rfl, fun f' hf' => h f' hf' f hf⟩
    have hsum : l.sum = l.length * f := by
      rw [hconst, List.sum_replicate, List.length_replicate, nsmul_eq_mul]
    rw [hsum, mul_div_cancel_left₀ _ (length_pos_of_ne hne).ne']

/-- The variance without weights, of fractions between nothing and everything. -/
theorem calculateVariance_ok {fraction : Resources} (hne : fraction.values ≠ [])
    (h : ∀ f ∈ fraction.values, 0 ≤ f ∧ f ≤ 1) : ∃ variance,
      calculateVariance fraction ∅ = .ok variance ∧ 0 ≤ variance ∧ variance ≤ 1 ∧
        (variance = 0 ↔ AllEqual fraction.values) := by
  have hlen : fraction.len = fraction.values.length := (List.length_map _).symm
  have hmean : truediv fraction.values.sum fraction.len =
      .ok (fraction.values.sum / fraction.values.length) := by
    rw [hlen]
    exact truediv_ok_iff.mpr ⟨(length_pos_of_ne hne).ne', rfl⟩
  rw [calculateVariance, hmean, except_ok_bind]
  by_cases htwo : 2 < fraction.len
  · have hsquares : (fraction.items.map fun p => (p.2 - fraction.values.sum / fraction.values.length) *
        (p.2 - fraction.values.sum / fraction.values.length) *
          ((∅ : Dict ResourceType ℚ).get? p.1).getD 1) = fraction.values.map fun f =>
        (f - fraction.values.sum / fraction.values.length) *
          (f - fraction.values.sum / fraction.values.length) := by
      rw [Dict.values, List.map_map]
      refine List.map_congr_left fun p _ => ?_
      rw [Dict.get?_empty, Option.getD_none, mul_one]
      rfl
    rw [if_pos htwo, hsquares, hlen]
    refine ⟨_, rfl, meanSquare_nonneg, meanSquare_le_one hne h (mean_mem_unit hne h), ?_⟩
    exact (meanSquare_eq_zero_iff hne).trans (forall_eq_mean_iff hne)
  · rw [if_neg htwo]
    rw [hlen] at htwo
    rcases hv : fraction.values with _ | ⟨f, _ | ⟨f', _ | ⟨f'', rest⟩⟩⟩
    · exact absurd hv hne
    · exact ⟨0, rfl, le_refl _, zero_le_one, by simp [AllEqual]⟩
    · obtain ⟨h0, h1⟩ := h f (by rw [hv]; simp)
      obtain ⟨h0', h1'⟩ := h f' (by rw [hv]; simp)
      refine ⟨|f - f'|, rfl, abs_nonneg _, abs_le.mpr ⟨by linarith, by linarith⟩, ?_⟩
      rw [abs_eq_zero, sub_eq_zero]
      exact ⟨fun he => by simp [AllEqual, he], fun he => he f (by simp) f' (by simp)⟩
    · rw [hv] at htwo
      simp at htwo

end Variance

/-! ## The least used score -/

section LeastUsedScore

variable {fraction : Resources} {dimensions : List ResourceType}

theorem get?_initWeights {d : ResourceType} :
    (LeastUsed.initWeights dimensions none).get? d =
      if d = MEMBW_FLAT ∨ d ∈ dimensions then some 1 else none := by
  have hvalue : ∀ v, (Dict.ofItems (dimensions.map fun dim => (dim, (1 : ℚ)))).get? d = some v →
      v = 1 := by
    intro v hv
    obtain ⟨d', -, he⟩ := List.mem_map.mp (Dict.mem_of_get?_ofItems hv)
    cases he
    rfl
  have hkeys : d ∈ (Dict.ofItems (dimensions.map fun dim => (dim, (1 : ℚ)))).keys ↔ d ∈ dimensions := by
    rw [Dict.mem_keys_ofItems]
    simp
  rw [LeastUsed.initWeights, Dict.get?_set]
  by_cases hflat : d = MEMBW_FLAT
  · simp [hflat]
  · rw [if_neg hflat]
    by_cases hd : d ∈ dimensions
    · obtain ⟨v, hv⟩ := Dict.mem_keys_iff_get?.mp (hkeys.mpr hd)
      rw [if_pos (.inr hd), hv, hvalue v hv]
    · rw [if_neg (not_or.mpr ⟨hflat, hd⟩), Dict.get?_eq_none_iff]
      exact mt hkeys.mp hd

/-- How many dimensions have a weight. -/
def weighted (dimensions : List ResourceType) : Nat :=
  (LeastUsed.initWeights dimensions none).keys.length

theorem weighted_pos : 0 < weighted dimensions := by
  apply List.length_pos_of_mem (a := MEMBW_FLAT)
  rw [Dict.mem_keys_iff_get?]
  exact ⟨1, by rw [get?_initWeights, if_pos (.inl rfl)]⟩

theorem sum_initWeights : (LeastUsed.initWeights dimensions none).values.sum = weighted dimensions := by
  have hone : ∀ v ∈ (LeastUsed.initWeights dimensions none).values, v = 1 := by
    intro v hv
    obtain ⟨d, hd⟩ := Dict.mem_values.mp hv
    have hget := Dict.get?_eq_some_iff.mpr hd
    rw [get?_initWeights] at hget
    split at hget
    · exact (Option.some.inj hget).symm
    · cases hget
  rw [List.eq_replicate_iff.mpr ⟨rfl, hone⟩, List.sum_replicate, nsmul_one, weighted, Dict.values,
    Dict.keys, List.length_map, List.length_map]

/-- What is left over all the dimensions. -/
def leftOver (fraction : Resources) : ℚ := (fraction.values.map fun f => 1 - f).sum

theorem leftOver_eq : leftOver fraction = fraction.keys.length - fraction.values.sum := by
  have hsum : ∀ l : List ℚ, (l.map fun f => 1 - f).sum = l.length - l.sum := by
    intro l
    induction l with
    | nil => simp
    | cons f l ih =>
      rw [List.map_cons, List.sum_cons, List.sum_cons, ih, List.length_cons]
      push_cast
      ring
  rw [leftOver, hsum, Dict.values, Dict.keys, List.length_map, List.length_map]

/-- The score is the mean of what is left, over the dimensions that have a weight. -/
theorem calculateLeastUsedScore_ok (hkeys : ∀ d ∈ fraction, d = MEMBW_FLAT ∨ d ∈ dimensions) :
    ∃ free, calculateLeastUsedScore fraction (LeastUsed.initWeights dimensions none) =
      .ok (free, leftOver fraction / weighted dimensions) := by
  have hweighted : ((fraction.map fun _ f => 1 - f).items.mapM fun p => do
      let weight ← ((LeastUsed.initWeights dimensions none).item p.1 : Except Exc ℚ)
      pure (p.2 * weight)) = .ok (fraction.values.map fun f => 1 - f) := by
    rw [except_mapM_ok_iff, Dict.items_map, Dict.values, List.map_map, List.forall₂_map_left_iff,
      List.forall₂_map_right_iff]
    refine List.forall₂_same.mpr fun p hp => ?_
    have hweight : (LeastUsed.initWeights dimensions none).item p.1 = .ok 1 := by
      rw [Dict.item_ok_iff, get?_initWeights, if_pos (hkeys p.1 (Dict.mem_keys.mpr ⟨p.2, hp⟩))]
    simp only [hweight, liftM_ok, except_ok_bind, mul_one]
    rfl
  have hne : (weighted dimensions : ℚ) ≠ 0 := by exact_mod_cast weighted_pos.ne'
  refine ⟨fraction.map fun _ f => 1 - f, ?_⟩
  rw [calculateLeastUsedScore, hweighted, except_ok_bind, sum_initWeights]
  rw [show truediv (fraction.values.map fun f => 1 - f).sum (weighted dimensions : ℚ) =
    .ok (leftOver fraction / weighted dimensions) from truediv_ok_iff.mpr ⟨hne, rfl⟩]
  rfl

/-- Dimensions with a weight: at most as many as there are weights, and if as many, then all. -/
theorem length_le_weighted (hkeys : ∀ d ∈ fraction, d = MEMBW_FLAT ∨ d ∈ dimensions) :
    fraction.keys.length ≤ weighted dimensions ∧ (fraction.keys.length = weighted dimensions →
      MEMBW_FLAT ∈ fraction ∧ ∀ d ∈ dimensions, d ∈ fraction) := by
  have hweight : ∀ d, d ∈ (LeastUsed.initWeights dimensions none).keys ↔
      d = MEMBW_FLAT ∨ d ∈ dimensions := by
    intro d
    rw [Dict.mem_keys_iff_get?, get?_initWeights]
    split <;> simp_all
  have hsub : fraction.keys.Subperm (LeastUsed.initWeights dimensions none).keys :=
    fraction.nodup.subperm fun d hd => (hweight d).mpr (hkeys d hd)
  refine ⟨hsub.length_le, fun hlen => ?_⟩
  have hperm := hsub.perm_of_length_le hlen.ge
  exact ⟨hperm.mem_iff.mpr ((hweight _).mpr (.inl rfl)),
    fun d hd => hperm.mem_iff.mpr ((hweight d).mpr (.inr hd))⟩

/-- The score is at least 0, and less than 1 but where nothing is taken of all that has a weight. -/
theorem leftOver_div_weighted (hkeys : ∀ d ∈ fraction, d = MEMBW_FLAT ∨ d ∈ dimensions)
    (h : ∀ f ∈ fraction.values, 0 ≤ f ∧ f ≤ 1) :
    0 ≤ leftOver fraction / weighted dimensions ∧ (leftOver fraction / weighted dimensions < 1 ∨
      (leftOver fraction / weighted dimensions = 1 ∧ (∀ f ∈ fraction.values, f = 0) ∧
        MEMBW_FLAT ∈ fraction ∧ ∀ d ∈ dimensions, d ∈ fraction)) := by
  have hpos : (0 : ℚ) < weighted dimensions := by exact_mod_cast weighted_pos
  obtain ⟨hle, hall⟩ := length_le_weighted hkeys
  have hle' : (fraction.keys.length : ℚ) ≤ weighted dimensions := by exact_mod_cast hle
  have hused : 0 ≤ fraction.values.sum := List.sum_nonneg fun f hf => (h f hf).1
  have hfree : 0 ≤ leftOver fraction := by
    apply List.sum_nonneg
    intro x hx
    obtain ⟨f, hf, rfl⟩ := List.mem_map.mp hx
    linarith [(h f hf).2]
  refine ⟨div_nonneg hfree hpos.le, ?_⟩
  rw [div_lt_one hpos, div_eq_one_iff_eq hpos.ne', leftOver_eq]
  by_cases hlt : (fraction.keys.length : ℚ) - fraction.values.sum < weighted dimensions
  · exact .inl hlt
  · have hlen : (fraction.keys.length : ℚ) = weighted dimensions := by linarith
    have hzero : fraction.values.sum = 0 := by linarith
    refine .inr ⟨by linarith, fun f hf => ?_, hall (by exact_mod_cast hlen)⟩
    exact List.all_zero_of_le_zero_le_of_sum_eq_zero (fun f hf => (h f hf).1) hzero hf

end LeastUsedScore
end Wca.Scheduler
