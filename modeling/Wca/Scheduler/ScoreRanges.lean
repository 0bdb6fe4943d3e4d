import Wca.Scheduler.Priorities

/-!
# The ranges of the scores

On a node that `Fit` accepts, no fraction is more than 1, and the flat bandwidth is at most half
taken. The scores of the node and the priorities that are made of them stay in range.
-/

namespace Wca.Scheduler

open Py ResourceType Resources

/-- A state of the cluster with something of everything on its nodes, and no negative request. -/
structure Plausible (dimensions : List ResourceType) (queried : QueryDataProviderInfo) : Prop where
  distinct : dimensions.Nodup
  /-- the bandwidth dimensions are there both or neither -/
  paired : MEMBW_READ ∈ dimensions ↔ MEMBW_WRITE ∈ dimensions
  capacities : ∀ node capacity, queried.nodesCapacities.get? node = some capacity →
    ∀ d ∈ capacity, 0 < capacity.amount d
  requests : ∀ app requested, queried.appsSpec.get? app = some requested → requested.NonNeg

/-- What is used and requested of a node that has so much. -/
structure Fitting (dimensions : List ResourceType) (load capacity : Resources) : Prop where
  capacityKeys : ∀ d, d ∈ capacity ↔ d ∈ dimensions
  keys : load.SameKeys capacity
  paired : MembwPaired capacity
  positive : ∀ d ∈ capacity, 0 < capacity.amount d
  nonneg : ∀ d ∈ capacity, 0 ≤ load.amount d
  fits : ∀ d ∈ capacity, 0 ≤ capacity.amount d - demand ((ratioOf capacity).getD 1) load d

namespace Fitting

variable {dimensions : List ResourceType} {load capacity : Resources} {d : ResourceType}

/-- What is left of the reads is left of the flat bandwidth. -/
theorem flat_le (h : Fitting dimensions load capacity) (hread : MEMBW_READ ∈ capacity) :
    load.flat (capacity.amount MEMBW_READ / capacity.amount MEMBW_WRITE) ≤
      capacity.amount MEMBW_READ := by
  have hload : load.HasMembw := h.keys.hasMembw.mpr ⟨hread, h.paired.mp hread⟩
  have hfits := h.fits MEMBW_READ hread
  rw [ratioOf, if_pos hread, Option.getD_some, free_read hload] at hfits
  linarith

theorem mem_flattened_load (h : Fitting dimensions load capacity) :
    d ∈ load.flattened (ratioOf capacity) ↔ d ∈ capacity.flattened (ratioOf capacity) :=
  (h.keys.flattened (ratioOf capacity)).iff d

/-- No fraction is negative, and none is more than 1. -/
theorem fraction_mem_unit (h : Fitting dimensions load capacity)
    (hd : d ∈ load.flattened (ratioOf capacity)) :
    0 ≤ (fractions (ratioOf capacity) load capacity).amount d ∧
      (fractions (ratioOf capacity) load capacity).amount d ≤ 1 := by
  have hpos := flattened_pos h.positive h.paired (h.mem_flattened_load.mp hd)
  rw [amount_fractions hd, div_le_one hpos]
  suffices hload : 0 ≤ (load.flattened (ratioOf capacity)).amount d ∧
      (load.flattened (ratioOf capacity)).amount d ≤ (capacity.flattened (ratioOf capacity)).amount d
    from ⟨div_nonneg hload.1 hpos.le, hload.2⟩
  by_cases hread : MEMBW_READ ∈ capacity
  · have hwrite := h.paired.mp hread
    have hreadLoad := (h.keys.iff _).mpr hread
    rw [ratioOf, if_pos hread] at hd ⊢
    by_cases hflat : d = MEMBW_FLAT
    · rw [hflat, amount_flattened_flat hreadLoad, amount_flattened_flat hread,
        flat_capacity (h.positive _ hwrite)]
      have hle := h.flat_le hread
      have hratio := div_pos (h.positive _ hread) (h.positive _ hwrite)
      have hnonneg := mul_nonneg hratio.le (h.nonneg _ hwrite)
      constructor
      · rw [flat]
        linarith [h.nonneg _ hread]
      · linarith [h.positive _ hread]
    · obtain ⟨hdRead, hdWrite, hd⟩ := ((mem_flattened hreadLoad).mp hd).resolve_left hflat
      rw [amount_flattened_of_ne hdRead hdWrite hflat, amount_flattened_of_ne hdRead hdWrite hflat]
      have hd := (h.keys.iff d).mp hd
      have hfits := h.fits d hd
      rw [demand_of_ne hdRead hdWrite] at hfits
      exact ⟨h.nonneg d hd, by linarith⟩
  · rw [ratioOf, if_neg hread, flattened_none] at hd ⊢
    have hd := (h.keys.iff d).mp hd
    have hdRead : d ≠ MEMBW_READ := fun he => hread (he ▸ hd)
    have hdWrite : d ≠ MEMBW_WRITE := fun he => hread (h.paired.mpr (he ▸ hd))
    have hfits := h.fits d hd
    rw [demand_of_ne hdRead hdWrite] at hfits
    exact ⟨h.nonneg d hd, by rw [flattened_none]; linarith⟩

theorem values_mem_unit (h : Fitting dimensions load capacity) :
    ∀ f ∈ (fractions (ratioOf capacity) load capacity).values, 0 ≤ f ∧ f ≤ 1 := by
  intro f hf
  obtain ⟨d, hd⟩ := Dict.mem_values.mp hf
  have hmem : d ∈ load.flattened (ratioOf capacity) := mem_map.mp (Dict.mem_keys.mpr ⟨f, hd⟩)
  rw [← amount_of_mem hd]
  exact h.fraction_mem_unit hmem

/-- A dimension of the fractions is one of those that are considered, or the flat bandwidth. -/
theorem mem_fractions (h : Fitting dimensions load capacity)
    (hd : d ∈ fractions (ratioOf capacity) load capacity) : d = MEMBW_FLAT ∨ d ∈ dimensions := by
  have hd := h.mem_flattened_load.mp (mem_map.mp hd)
  by_cases hread : MEMBW_READ ∈ capacity
  · rw [ratioOf, if_pos hread] at hd
    exact ((mem_flattened hread).mp hd).imp_right fun hd => (h.capacityKeys d).mp hd.2.2
  · rw [ratioOf, if_neg hread, flattened_none] at hd
    exact .inr ((h.capacityKeys d).mp hd)

/-- Reads are no dimension of the fractions. -/
theorem read_not_mem (h : Fitting dimensions load capacity) :
    MEMBW_READ ∉ fractions (ratioOf capacity) load capacity := by
  intro hd
  have hd := h.mem_flattened_load.mp (mem_map.mp hd)
  by_cases hread : MEMBW_READ ∈ capacity
  · rw [ratioOf, if_pos hread] at hd
    rcases (mem_flattened hread).mp hd with he | ⟨hne, -⟩
    · cases he
    · exact hne rfl
  · rw [ratioOf, if_neg hread, flattened_none] at hd
    exact hread hd

/-- There is a fraction, if any dimension is considered. -/
theorem values_ne_nil (h : Fitting dimensions load capacity) (hne : dimensions ≠ []) :
    (fractions (ratioOf capacity) load capacity).values ≠ [] := by
  obtain ⟨d, hd⟩ := List.exists_mem_of_ne_nil _ hne
  have hcap := (h.capacityKeys d).mpr hd
  suffices hmem : ∃ d, d ∈ capacity.flattened (ratioOf capacity) by
    obtain ⟨d, hd⟩ := hmem
    obtain ⟨f, hf⟩ := Dict.mem_keys.mp
      (mem_map.mpr (h.mem_flattened_load.mpr hd) : d ∈ fractions (ratioOf capacity) load capacity)
    exact List.ne_nil_of_mem (Dict.mem_values.mpr ⟨d, hf⟩)
  by_cases hread : MEMBW_READ ∈ capacity
  · refine ⟨MEMBW_FLAT, ?_⟩
    rw [ratioOf, if_pos hread]
    exact (mem_flattened hread).mpr (.inl rfl)
  · rw [ratioOf, if_neg hread]
    exact ⟨d, hcap⟩

end Fitting

/-! ## An accepted node -/

section Accepted

variable {fit : Fit} {queried : QueryDataProviderInfo} {node : NodeName} {app : AppName}
  {message : FailureMessage} {dimensions : List ResourceType} {usage : NodeUsage} {load : Resources}
  {nodesCapacities : Dict NodeName Resources} {assignedApps : Dict NodeName Apps}
  {appsSpec : Dict AppName Resources}

theorem usedFreeRequested_ok_iff :
    usedFreeRequested node app dimensions nodesCapacities assignedApps appsSpec = .ok usage ↔
      nodesCapacities.get? node = some usage.capacity ∧
      calculateReadWriteRatio usage.capacity = .ok usage.membwReadWriteRatio ∧
      (∃ apps, assignedApps.get? node = some apps ∧
        usedResourcesOnNode dimensions (apps.map fun _ tasks => tasks.length) appsSpec =
          .ok usage.used) ∧
      appsSpec.get? app = some usage.requested ∧
      subtractResources usage.capacity usage.used usage.membwReadWriteRatio = .ok usage.free := by
  unfold usedFreeRequested
  simp only [except_bind_ok_iff, liftM_ok_iff, Dict.item_ok_iff, except_pure, Except.ok.injEq]
  constructor
  · rintro ⟨capacity, hcapacity, ratio, hratio, apps, happs, used, hused, requested, hrequested,
      free, hfree, rfl⟩
    exact ⟨hcapacity, hratio, ⟨apps, happs, hused⟩, hrequested, hfree⟩
  · rintro ⟨hcapacity, hratio, ⟨apps, happs, hused⟩, hrequested, hfree⟩
    exact ⟨_, hcapacity, _, hratio, apps, happs, _, hused, _, hrequested, _, hfree, rfl⟩

theorem sumResources_mapError_ok_iff {a b : Resources} :
    (sumResources a b).mapError (fun _ => Exc.DataMissingException) = .ok load ↔
      a.SameKeys b ∧ load = a.map fun d v => v + b.amount d := by
  unfold sumResources checkKeys
  split
  · next h => exact ⟨fun he => ⟨h, (Except.ok.inj he).symm⟩, fun he => congrArg _ he.2.symm⟩
  · next h => exact ⟨fun he => (nomatch he), fun he => absurd he.1 h⟩

/-- A node is accepted by what is read of it, and by what it has. -/
theorem Fit.appFitNode_accepts (hscale : fit.cpuScaleFactor = 1)
    (h : fit.appFitNode node app queried = .ok (true, message)) : ∃ usage load answer,
      usedFreeRequested node app fit.dimensions queried.nodesCapacities queried.assignedApps
        queried.appsSpec = .ok usage ∧
      (sumResources usage.requested usage.used).mapError (fun _ => Exc.DataMissingException) =
        .ok load ∧
      enoughResourcesOnNode usage.capacity load usage.membwReadWriteRatio = .ok answer ∧
      answer.enough = true := by
  obtain ⟨scaled, hscaled, h⟩ := except_bind_ok_iff.mp h
  obtain ⟨usage, husage, h⟩ := except_bind_ok_iff.mp h
  obtain ⟨load, hload, h⟩ := except_bind_ok_iff.mp h
  obtain ⟨answer, hanswer, he⟩ := except_bind_ok_iff.mp h
  obtain ⟨hcapacity, hrest⟩ := usedFreeRequested_ok_iff.mp husage
  refine ⟨usage, load, answer, ?_, hload, hanswer, congrArg Prod.fst (Except.ok.inj he)⟩
  exact usedFreeRequested_ok_iff.mpr ⟨Fit.get?_scaledCapacities hscale hscaled hcapacity, hrest⟩

/-- What is used and requested of an accepted node fits it, and its fractions can be told. -/
theorem Fit.fitting_of_accepts (hstate : Plausible fit.dimensions queried)
    (hscale : fit.cpuScaleFactor = 1)
    (h : fit.appFitNode node app queried = .ok (true, message)) : ∃ load capacity,
      Fitting fit.dimensions load capacity ∧
      getRequestedFraction app queried.appsSpec queried.assignedApps node queried.nodesCapacities
        fit.dimensions = .ok (fractions (ratioOf capacity) load capacity) := by
  obtain ⟨usage, load, answer, husage, hload, hanswer, henough⟩ := appFitNode_accepts hscale h
  obtain ⟨hcapacity, hratio, ⟨apps, happs, hused⟩, hrequested, hfree⟩ :=
    usedFreeRequested_ok_iff.mp husage
  obtain ⟨hkeys, hsum⟩ := sumResources_mapError_ok_iff.mp hload
  obtain ⟨husedKeys, husedAmount⟩ := usedResourcesOnNode_ok hstate.distinct hused
  have hsame : usage.capacity.SameKeys usage.used :=
    checkKeys_ok_iff.mp (except_seq_ok_iff.mp hfree).1
  have hcapKeys : ∀ d, d ∈ usage.capacity ↔ d ∈ fit.dimensions :=
    fun d => (hsame.iff d).trans (husedKeys d)
  have hpaired : MembwPaired usage.capacity := by
    rw [MembwPaired, hcapKeys, hcapKeys]
    exact hstate.paired
  have hpositive := hstate.capacities node usage.capacity hcapacity
  have hratioOf : usage.membwReadWriteRatio = ratioOf usage.capacity := by
    rw [ratio_ok_of_positive hpositive hpaired] at hratio
    exact (Except.ok.inj hratio).symm
  rw [hratioOf] at hratio hanswer
  obtain ⟨hloadKeys, hleft, -, henough'⟩ := enoughResourcesOnNode_ok hpaired hratio hanswer
  have hspec : ∀ d app', 0 ≤ specAmount queried.appsSpec d app' := by
    intro d app'
    rw [specAmount]
    cases hget : queried.appsSpec.get? app' with
    | none => exact le_refl _
    | some requested => exact (hstate.requests app' requested hget).amount d
  have hload_amount : ∀ d ∈ usage.capacity, load.amount d = usage.requested.amount d + usage.used.amount d := by
    intro d hd
    rw [hsum, amount_map ((hkeys.iff d).mpr ((hsame.iff d).mp hd))]
  have hfitting : Fitting fit.dimensions load usage.capacity := by
    refine ⟨hcapKeys, hloadKeys.symm, hpaired, hpositive, fun d hd => ?_, fun d hd => ?_⟩
    · rw [hload_amount d hd, husedAmount d ((hcapKeys d).mp hd)]
      apply add_nonneg ((hstate.requests app usage.requested hrequested).amount d)
      apply List.sum_nonneg
      intro x hx
      obtain ⟨p, -, rfl⟩ := List.mem_map.mp hx
      exact mul_nonneg (hspec d p.1) (Nat.cast_nonneg _)
    · have hd' := henough'.mp henough d (hleft ▸ mem_map.mpr hd)
      rw [hleft, amount_map hd] at hd'
      exact hd'
  refine ⟨load, usage.capacity, hfitting, ?_⟩
  rw [getRequestedFraction, husage, except_ok_bind, hload, except_ok_bind, hratioOf]
  have hloadPaired : MembwPaired load := (hloadKeys.symm.iff _).trans (hpaired.trans (hloadKeys.iff _))
  refine (divideResources_ok_iff hloadPaired).mpr ⟨hloadKeys.symm, fun d hd => ?_, rfl⟩
  exact ne_of_gt (flattened_pos hpositive hpaired (hfitting.mem_flattened_load.mp hd))

end Accepted

/-! ## The scores -/

/-- The score comes back, and it is in the range. -/
def ScoreIn (score : Except Exc ℚ) (range : ℚ → Prop) : Prop := ∃ v, score = .ok v ∧ range v

/-- The nodes that are offered get integers from 0 to so many times the maximal score. -/
def EmitsUpTo (bound : ℚ) (algorithm : BaseAlgorithm) (args : ExtenderArgs) : Prop :=
  ∃ priorities, algorithm.prioritize args = .ok priorities ∧
    ∀ p ∈ priorities, 0 ≤ p.score ∧ (p.score : ℚ) ≤ algorithm.maxNodeScore * bound

/-- `LeastUsed` with the default weights. -/
def Fit.leastUsed (fit : Fit) (maxNodeScore : ℚ) : LeastUsed where
  fit := fit
  maxNodeScore := maxNodeScore
  leastUsedWeights := LeastUsed.initWeights fit.dimensions none

/-- `BAR` with the default weights. -/
def Fit.bar (fit : Fit) (maxNodeScore : ℚ) : BAR where
  fit := fit
  maxNodeScore := maxNodeScore
  barWeights := BAR.initWeights none

/-- `LeastUsedBAR` with the default weights of the two. -/
def Fit.leastUsedBAR (fit : Fit) (maxNodeScore leastUsedWeight : ℚ) : LeastUsedBAR where
  fit := fit
  maxNodeScore := maxNodeScore
  leastUsedWeights := LeastUsed.initWeights fit.dimensions none
  barWeights := BAR.initWeights none
  leastUsedWeight := leastUsedWeight

section Scores

variable {fit : Fit} {queried : QueryDataProviderInfo} {node : NodeName} {app : AppName}
  {load capacity : Resources}

theorem ScoreIn.mono {score : Except Exc ℚ} {range range' : ℚ → Prop} (h : ScoreIn score range)
    (himp : ∀ v, range v → range' v) : ScoreIn score range' := by
  obtain ⟨v, hv, hr⟩ := h
  exact ⟨v, hv, himp v hr⟩

theorem leastUsed_in (maxNodeScore : ℚ) (h : Fitting fit.dimensions load capacity)
    (hfraction : getRequestedFraction app queried.appsSpec queried.assignedApps node
      queried.nodesCapacities fit.dimensions = .ok (fractions (ratioOf capacity) load capacity)) :
    ScoreIn ((fit.leastUsed maxNodeScore).priorityForNode node app queried) fun score =>
      0 ≤ score ∧ (score < 1 ∨ (score = 1 ∧ MEMBW_FLAT ∈ fit.dimensions ∧
        MEMBW_READ ∉ fit.dimensions ∧
        ∀ f ∈ (fractions (ratioOf capacity) load capacity).values, f = 0)) := by
  have hkeys : ∀ d ∈ fractions (ratioOf capacity) load capacity,
      d = MEMBW_FLAT ∨ d ∈ fit.dimensions := fun d hd => h.mem_fractions hd
  obtain ⟨free, hscore⟩ := calculateLeastUsedScore_ok hkeys
  refine ⟨leftOver (fractions (ratioOf capacity) load capacity) / weighted fit.dimensions, ?_, ?_⟩
  · simp only [LeastUsed.priorityForNode, Fit.leastUsed, hfraction, hscore, except_ok_bind,
      except_pure]
  obtain ⟨h0, hlt | ⟨hone, hzero, hflat, hall⟩⟩ := leftOver_div_weighted hkeys h.values_mem_unit
  · exact ⟨h0, .inl hlt⟩
  · have hread : MEMBW_READ ∉ fit.dimensions := fun hread => h.read_not_mem (hall _ hread)
    have hread' : MEMBW_READ ∉ capacity := mt (h.capacityKeys _).mp hread
    have hflat := h.mem_flattened_load.mp (mem_map.mp hflat)
    rw [flattened_of_not_mem hread', h.capacityKeys] at hflat
    exact ⟨h0, .inr ⟨hone, hflat, hread, hzero⟩⟩

theorem bar_in (maxNodeScore : ℚ) (h : Fitting fit.dimensions load capacity) (hne : fit.dimensions ≠ [])
    (hfraction : getRequestedFraction app queried.appsSpec queried.assignedApps node
      queried.nodesCapacities fit.dimensions = .ok (fractions (ratioOf capacity) load capacity)) :
    ScoreIn ((fit.bar maxNodeScore).priorityForNode node app queried) fun score =>
      0 ≤ score ∧ score ≤ 1 ∧
        (score = 1 ↔ AllEqual (fractions (ratioOf capacity) load capacity).values) := by
  obtain ⟨variance, hvariance, h0, h1, hzero⟩ :=
    calculateVariance_ok (h.values_ne_nil hne) h.values_mem_unit
  refine ⟨1 - variance, ?_, by linarith, by linarith, ?_⟩
  · simp only [BAR.priorityForNode, Fit.bar, BAR.initWeights, Option.getD_none, hfraction, hvariance,
      except_ok_bind, except_pure]
  · rw [sub_eq_self, hzero]

theorem leastUsedBAR_in {maxNodeScore leastUsedWeight score score' : ℚ} (hweight : 0 ≤ leastUsedWeight)
    (h : (fit.leastUsed maxNodeScore).priorityForNode node app queried = .ok score)
    (hs : 0 ≤ score ∧ score ≤ 1)
    (h' : (fit.bar maxNodeScore).priorityForNode node app queried = .ok score')
    (hs' : 0 ≤ score' ∧ score' ≤ 1) :
    ScoreIn ((fit.leastUsedBAR maxNodeScore leastUsedWeight).priorityForNode node app queried)
      fun score => 0 ≤ score ∧ score ≤ 1 + leastUsedWeight := by
  refine ⟨score * leastUsedWeight + score', ?_, ?_, ?_⟩
  · rw [LeastUsedBAR.priorityForNode]
    change ((fit.leastUsed maxNodeScore).priorityForNode node app queried >>= _) = _
    rw [h, except_ok_bind]
    change ((fit.bar maxNodeScore).priorityForNode node app queried >>= _) = _
    rw [h', except_ok_bind]
    rfl
  · exact add_nonneg (mul_nonneg hs.1 hweight) hs'.1
  · have hle := mul_le_mul_of_nonneg_right hs.2 hweight
    linarith [hs'.2]

/-! ## The priorities -/

/-- The integer part of a number that is not negative. -/
theorem tdiv_mem {x : ℚ} (h : 0 ≤ x) : 0 ≤ x.num.tdiv x.den ∧ ((x.num.tdiv x.den : ℤ) : ℚ) ≤ x := by
  have hfloor : x.num.tdiv x.den = ⌊x⌋ := by
    rw [Int.tdiv_eq_ediv_of_nonneg (Rat.num_nonneg.mpr h), Rat.floor_def']
  rw [hfloor]
  exact ⟨Int.floor_nonneg.mpr h, Int.floor_le x⟩

theorem emitsUpTo_of_scores {algorithm : BaseAlgorithm} {args : ExtenderArgs} {bound : ℚ}
    (hq : queryDataProvider algorithm.dataProvider algorithm.dimensions = .ok queried)
    (hmax : 0 ≤ algorithm.maxNodeScore)
    (h : ∀ node ∈ args.nodeNames,
      ScoreIn (algorithm.priorityForNode node args.pod.app queried) fun s => 0 ≤ s ∧ s ≤ bound) :
    EmitsUpTo bound algorithm args := by
  have hstep : ∀ node ∈ args.nodeNames.mergeSort (· ≤ ·), ∃ p : HostPriority, (do
      let priority ← algorithm.priorityForNode node args.pod.app queried
      let scaled := priority * algorithm.maxNodeScore
      pure { host := node, score := scaled.num.tdiv scaled.den } : Except Exc HostPriority) = .ok p := by
    intro node hnode
    obtain ⟨v, hv, -⟩ := h node (List.mem_mergeSort.mp hnode)
    rw [hv]
    exact ⟨_, rfl⟩
  obtain ⟨priorities, hp⟩ := except_mapM_returns hstep
  refine ⟨priorities, by rw [BaseAlgorithm.prioritize, hq, except_ok_bind, hp], fun p hin => ?_⟩
  obtain ⟨node, hnode, hv⟩ := forall₂_exists_left (except_mapM_ok_iff.mp hp) hin
  obtain ⟨v, hscore, h0, hle⟩ := h node (List.mem_mergeSort.mp hnode)
  rw [hscore, except_ok_bind] at hv
  cases hv
  obtain ⟨hnonneg, hfloor⟩ := tdiv_mem (mul_nonneg h0 hmax)
  refine ⟨hnonneg, hfloor.trans ?_⟩
  rw [mul_comm]
  exact mul_le_mul_of_nonneg_left hle hmax

/-- The scores of an accepted node. -/
theorem scores_of_accepts (maxNodeScore leastUsedWeight : ℚ)
    (hstate : Plausible fit.dimensions queried) (hscale : fit.cpuScaleFactor = 1) {message : FailureMessage} (h : fit.appFitNode node app queried = .ok (true, message)) :
    ∃ fraction, getRequestedFraction app queried.appsSpec queried.assignedApps node
        queried.nodesCapacities fit.dimensions = .ok fraction ∧
      ScoreIn ((fit.leastUsed maxNodeScore).priorityForNode node app queried) (fun score =>
        0 ≤ score ∧ (score < 1 ∨ (score = 1 ∧ MEMBW_FLAT ∈ fit.dimensions ∧
          MEMBW_READ ∉ fit.dimensions ∧ ∀ f ∈ fraction.values, f = 0))) ∧
      (fit.dimensions ≠ [] →
        ScoreIn ((fit.bar maxNodeScore).priorityForNode node app queried) (fun score =>
          0 ≤ score ∧ score ≤ 1 ∧ (score = 1 ↔ AllEqual fraction.values)) ∧
        (0 ≤ leastUsedWeight →
          ScoreIn ((fit.leastUsedBAR maxNodeScore leastUsedWeight).priorityForNode node app queried)
            fun score => 0 ≤ score ∧ score ≤ 1 + leastUsedWeight)) := by
  obtain ⟨load, capacity, hfitting, hfraction⟩ := fit.fitting_of_accepts hstate hscale h
  have hleast := leastUsed_in maxNodeScore hfitting hfraction
  refine ⟨_, hfraction, hleast, fun hne => ?_⟩
  have hbar := bar_in maxNodeScore hfitting hne hfraction
  refine ⟨hbar, fun hweight => ?_⟩
  obtain ⟨score, hscore, h0, h1⟩ := hleast
  obtain ⟨score', hscore', h0', h1', -⟩ := hbar
  exact leastUsedBAR_in hweight hscore ⟨h0, h1.elim le_of_lt fun h1 => h1.1.le⟩ hscore' ⟨h0', h1'⟩

end Scores

/-- On the nodes that `Fit` accepts the scores are in range, and so are the priorities. -/
theorem scores_inRange {fit : Fit} {queried : QueryDataProviderInfo}
    (hstate : Plausible fit.dimensions queried) (hscale : fit.cpuScaleFactor = 1)
    {maxNodeScore leastUsedWeight : ℚ} (hweight : 0 ≤ leastUsedWeight) :
    (∀ node app message, fit.appFitNode node app queried = .ok (true, message) →
      ∃ fraction, getRequestedFraction app queried.appsSpec queried.assignedApps node
          queried.nodesCapacities fit.dimensions = .ok fraction ∧
        ScoreIn ((fit.leastUsed maxNodeScore).priorityForNode node app queried) (fun score =>
          0 ≤ score ∧ (score < 1 ∨ (score = 1 ∧ MEMBW_FLAT ∈ fit.dimensions ∧
            MEMBW_READ ∉ fit.dimensions ∧ ∀ f ∈ fraction.values, f = 0))) ∧
        (fit.dimensions ≠ [] →
          ScoreIn ((fit.bar maxNodeScore).priorityForNode node app queried) (fun score =>
            0 ≤ score ∧ score ≤ 1 ∧ (score = 1 ↔ AllEqual fraction.values)) ∧
          ScoreIn ((fit.leastUsedBAR maxNodeScore leastUsedWeight).priorityForNode node app queried)
            fun score => 0 ≤ score ∧ score ≤ 1 + leastUsedWeight)) ∧
    ∀ args : ExtenderArgs, queryDataProvider fit.dataProvider fit.dimensions = .ok queried →
      (∀ node ∈ args.nodeNames, ∃ message,
        fit.appFitNode node args.pod.app queried = .ok (true, message)) → 0 ≤ maxNodeScore →
      EmitsUpTo 1 (fit.leastUsed maxNodeScore).algorithm args ∧
        (fit.dimensions ≠ [] → EmitsUpTo 1 (fit.bar maxNodeScore).algorithm args ∧
          EmitsUpTo (1 + leastUsedWeight) (fit.leastUsedBAR maxNodeScore leastUsedWeight).algorithm
            args) := by
  constructor
  · intro node app message h
    obtain ⟨fraction, hfraction, hleast, hrest⟩ := scores_of_accepts maxNodeScore leastUsedWeight hstate hscale h
    exact ⟨fraction, hfraction, hleast, fun hne => ⟨(hrest hne).1, (hrest hne).2 hweight⟩⟩
  · intro args hq haccepted hmax
    refine ⟨emitsUpTo_of_scores hq hmax fun node hnode => ?_, fun hne =>
      ⟨emitsUpTo_of_scores hq hmax fun node hnode => ?_,
        emitsUpTo_of_scores hq hmax fun node hnode => ?_⟩⟩
    · obtain ⟨message, h⟩ := haccepted node hnode
      obtain ⟨fraction, -, hleast, -⟩ := scores_of_accepts maxNodeScore 0 hstate hscale h
      exact hleast.mono fun score hs => ⟨hs.1, hs.2.elim le_of_lt fun h1 => h1.1.le⟩
    · obtain ⟨message, h⟩ := haccepted node hnode
      obtain ⟨fraction, -, -, hrest⟩ := scores_of_accepts maxNodeScore 0 hstate hscale h
      exact (hrest hne).1.mono fun score hs => ⟨hs.1, hs.2.1⟩
    · obtain ⟨message, h⟩ := haccepted node hnode
      obtain ⟨fraction, -, -, hrest⟩ := scores_of_accepts maxNodeScore leastUsedWeight hstate hscale h
      exact (hrest hne).2 hweight

/-! A cluster with one node and one app. -/

/-- What is known of a node without any task, and of an app. -/
def oneNode (capacity requested : Resources) : QueryDataProviderInfo where
  nodesCapacities := .ofItems [("node", capacity)]
  assignedApps := .ofItems [("node", ∅)]
  appsSpec := .ofItems [("app", requested)]
  appsUnassigned := ∅

/-- `Fit` on a provider that reports the node. -/
def oneNodeFit (dimensions : List ResourceType) (capacity requested : Resources) : Fit where
  dataProvider :=
    { getAppsCounts := pure ((oneNode capacity requested).assignedApps, ∅)
      getNodesCapacities := fun _ => pure (oneNode capacity requested).nodesCapacities
      getAppsRequestedResources := fun _ => pure (oneNode capacity requested).appsSpec
      getDramHitRatio := fun _ => pure 1
      getNodesType := pure ∅
      getAppsProfile := pure ∅ }
  dimensions := dimensions
  pmemNodes := []

theorem plausible_oneNode {dimensions : List ResourceType} {capacity requested : Resources}
    (hnd : dimensions.Nodup) (hpaired : MEMBW_READ ∈ dimensions ↔ MEMBW_WRITE ∈ dimensions)
    (hpos : ∀ d ∈ capacity, 0 < capacity.amount d) (hnonneg : requested.NonNeg) :
    Plausible dimensions (oneNode capacity requested) := by
  refine ⟨hnd, hpaired, fun node capacity' hget => ?_, fun app requested' hget => ?_⟩
  · have hmem := Dict.mem_of_get?_ofItems hget
    cases List.mem_singleton.mp hmem
    exact hpos
  · have hmem := Dict.mem_of_get?_ofItems hget
    cases List.mem_singleton.mp hmem
    exact hnonneg

/-- A node with the four dimensions, half used with the app on it. -/
def halfUsed : QueryDataProviderInfo := oneNode (buildResources 2 2 8 2) (buildResources 1 1 2 0)

def halfUsedFit : Fit :=
  oneNodeFit [CPU, MEM, MEMBW_READ, MEMBW_WRITE] (buildResources 2 2 8 2) (buildResources 1 1 2 0)

theorem scores_inRange_halfUsed :
    ScoreIn ((halfUsedFit.leastUsed 10).priorityForNode "node" "app" halfUsed)
      (fun score => 0 ≤ score) ∧
    EmitsUpTo (1 + 1) (halfUsedFit.leastUsedBAR 10 1).algorithm ⟨⟨"app", "app-1"⟩, ["node"]⟩ := by
  have hstate : Plausible halfUsedFit.dimensions halfUsed :=
    plausible_oneNode (by decide) (by decide) (by decide +kernel) (by decide +kernel)
  have haccepts : halfUsedFit.appFitNode "node" "app" halfUsed = .ok (true, .text "") := by
    decide +kernel
  have hranges := @scores_inRange halfUsedFit halfUsed hstate rfl 10 1 zero_le_one
  obtain ⟨fraction, -, hleast, -⟩ := hranges.1 "node" "app" _ haccepts
  refine ⟨hleast.mono fun score hs => hs.1, ?_⟩
  refine ((hranges.2 _ rfl (fun node hnode => ?_) (by norm_num)).2 (by decide)).2
  cases List.mem_singleton.mp hnode
  exact ⟨_, haccepts⟩

/-- A node with its flat bandwidth alone, and an app that requests none. -/
def unused : QueryDataProviderInfo :=
  oneNode (.ofItems [(MEMBW_FLAT, 10)]) (.ofItems [(MEMBW_FLAT, 0)])

def unusedFit : Fit :=
  oneNodeFit [MEMBW_FLAT] (.ofItems [(MEMBW_FLAT, 10)]) (.ofItems [(MEMBW_FLAT, 0)])

/-- Without dimensions there is no mean for `BAR`; a node with all of its flat bandwidth left has a
score of 1; and the sign of the maximal score is not checked. -/
theorem scores_outOfRange :
    (Plausible [] (oneNode ∅ ∅) ∧
      (oneNodeFit [] ∅ ∅).appFitNode "node" "app" (oneNode ∅ ∅) = .ok (true, .text "") ∧
      ((oneNodeFit [] ∅ ∅).bar 10).priorityForNode "node" "app" (oneNode ∅ ∅) =
        .error (.builtin (.ZeroDivisionError "division by zero"))) ∧
    Plausible unusedFit.dimensions unused ∧
      unusedFit.appFitNode "node" "app" unused = .ok (true, .text "") ∧
      (unusedFit.leastUsed 10).priorityForNode "node" "app" unused = .ok 1 ∧
      (unusedFit.leastUsed (-10)).algorithm.prioritize ⟨⟨"app", "app-1"⟩, ["node"]⟩ =
        .ok [⟨"node", -10⟩] := by
  refine ⟨⟨plausible_oneNode (by decide) (by decide) (by decide +kernel) (by decide +kernel), ?_, ?_⟩,
    plausible_oneNode (by decide) (by decide) (by decide +kernel) (by decide +kernel), ?_, ?_, ?_⟩
  · decide +kernel
  · decide +kernel
  · decide +kernel
  · decide +kernel
  · rw [BaseAlgorithm.prioritize]
    decide +kernel

end Wca.Scheduler
