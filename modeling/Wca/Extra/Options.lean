import Wca.Extra.Pinning
import Wca.Reading

/-!
# The options of `NUMAAllocator`

With complete measurements no option makes a call raise but the two for cgroups together, which read
an attribute that the enumeration of allocation types does not have, and what is returned is accepted
where the cpus of the node that is taken are those of the platform (`allocate_accepted_iff`).
-/

namespace Wca

open Py

/-! ## What is measured -/

/-- The nodes of a platform that are numbered from zero, and the free memory of each. -/
structure NodesMeasured (platform : MeasuredPlatform) : Prop extends Numbered platform where
  free : ∀ node, node ∈ platform.memNumaFreeBytes.keys ↔ node ∈ platform.nodeCpus.keys
  cpus_nonneg : ∀ node cpus, platform.nodeCpus.get? node = some cpus → ∀ cpu ∈ cpus, 0 ≤ cpu

/-- The measurements of a task, with the pages on every node. -/
structure TaskData.Measured (platform : MeasuredPlatform) (data : TaskData) : Prop
    extends data.Complete where
  nodes : ∀ pages, data.measurements.memNumaPages = some pages →
    (∀ node, node ∈ pages.keys ↔ node ∈ platform.nodeCpus.keys) ∧ ∀ v ∈ pages.values, 0 ≤ v

/-- The registry has the type, and on the platform the value that is made of the raw one passes its
validation. -/
def AcceptedOn (platform : Platform) (t : AllocationType) (raw : RawValue) : Prop :=
  ∀ (runner : AllocationRunner) (container : Container), container.platform = platform →
    runner.Passes container t raw

def AllAcceptedOn (platform : Platform) (allocations : TasksAllocations) : Prop :=
  ∀ task t raw, returnedValue allocations task t = some raw → AcceptedOn platform t raw

variable {platform : MeasuredPlatform} {tasksData : TasksData}

section Accepted

theorem acceptedOn_cpus_iff {cpus : List ℤ} (hcpus : ∀ cpu ∈ cpus, 0 ≤ cpu) :
    AcceptedOn platform.toPlatform .CPUSET_CPUS (.str (encodeListformat cpus.toFinset)) ↔
      ∀ cpu ∈ cpus, cpu < platform.cpus := by
  have hpasses : ∀ (runner : AllocationRunner) (container : Container),
      container.platform = platform.toPlatform →
        (runner.Passes container .CPUSET_CPUS (.str (encodeListformat cpus.toFinset)) ↔
          ∀ cpu ∈ cpus, cpu < platform.cpus) := by
    intro runner container hplatform
    have hiff : runner.Passes container .CPUSET_CPUS (.str (encodeListformat cpus.toFinset)) ↔
        ∀ cpu ∈ cpus.toFinset, cpu < (platform.cpus : ℤ) :=
      passes_listformat_iff (fun cpu hcpu => hcpus cpu (List.mem_toFinset.mp hcpu)) rfl rfl rfl
        (by rw [hplatform])
    simpa only [List.mem_toFinset] using hiff
  constructor
  · intro haccepted
    exact (hpasses ⟨false, ∅, platform.toPlatform⟩ ⟨0, "", ⟨"", {}, platform.toPlatform⟩, [], none⟩
      rfl).mp (haccepted _ _ rfl)
  · intro hlt runner container hplatform
    exact (hpasses runner container hplatform).mpr hlt

theorem len_nodeCpus (ht : Numbered platform) : platform.nodeCpus.len = platform.numaNodes := by
  have hkeys : platform.nodeCpus.keys.Perm
      ((List.range platform.numaNodes).map fun (node : ℕ) => (node : NumaNodeId)) := by
    refine (List.perm_ext_iff_of_nodup platform.nodeCpus.nodup
      (List.nodup_range.map fun i j he => Int.ofNat.inj he)).mpr fun node => ?_
    refine (ht.mem_keys_iff node).trans ?_
    rw [List.mem_map]
    constructor
    · intro hnode
      exact ⟨node.toNat, List.mem_range.mpr (by omega), Int.toNat_of_nonneg hnode.1⟩
    · rintro ⟨i, hi, rfl⟩
      exact ⟨Int.natCast_nonneg i, Int.ofNat_lt.mpr (List.mem_range.mp hi)⟩
  have hlength := hkeys.length_eq
  rw [List.length_map, List.length_range, Dict.keys, List.length_map] at hlength
  exact hlength

theorem acceptedOn_mems (ht : Numbered platform) {node : NumaNodeId}
    (hnode : node ∈ platform.nodeCpus.keys) :
    AcceptedOn platform.toPlatform .CPUSET_MEMS (.str (encodeListformat {node})) := by
  have hrange := (ht.mem_keys_iff node).mp hnode
  intro runner container hplatform
  have hiff : runner.Passes container .CPUSET_MEMS (.str (encodeListformat {node})) ↔
      ∀ id ∈ ({node} : Finset ℤ), id < (platform.nodeCpus.len : ℤ) :=
    passes_listformat_iff (fun id hid => Finset.mem_singleton.mp hid ▸ hrange.1) rfl rfl rfl
      (by rw [hplatform])
  rw [hiff, len_nodeCpus ht]
  exact fun id hid => Finset.mem_singleton.mp hid ▸ hrange.2

theorem acceptedOn_migratePages (ht : Numbered platform) (hswap : platform.swapEnabled = false)
    {node : NumaNodeId} (hnode : node ∈ platform.nodeCpus.keys) :
    AcceptedOn platform.toPlatform .MIGRATE_PAGES (.num (.int node)) := by
  have hrange := (ht.mem_keys_iff node).mp hnode
  intro runner container hplatform
  refine ⟨_, rfl, ?_⟩
  change MigratePagesAllocationValue.validate _ = .ok ()
  have hle : (node : ℚ) ≤ platform.numaNodes - 1 := by
    rw [le_sub_iff_add_le]
    exact_mod_cast Int.add_one_le_iff.mpr hrange.2
  rw [MigratePagesAllocationValue.validate, BoxedNumeric.validate_ok_iff.mpr ?_, except_ok_bind,
    hplatform, hswap]
  · rfl
  · simp [Number.val, Flt.lt, hplatform, hle, hrange.1]

end Accepted

/-! ## The choice -/

section Choice

variable (runtime : Runtime)

theorem firstNodes_ok {l : List (NumaNodeId × ℚ)} (hl : l ≠ []) :
    ∃ nodes, firstNodes l = .ok nodes ∧ ∀ node ∈ nodes, node ∈ l.map Prod.fst := by
  obtain ⟨p, rest, rfl⟩ := List.exists_cons_of_ne_nil hl
  refine ⟨_, rfl, fun node hnode => ?_⟩
  obtain ⟨q, hq, rfl⟩ := List.mem_map.mp (List.mem_toFinset.mp hnode)
  exact List.mem_map_of_mem (List.mem_of_mem_filter hq)

/-- The sorted items of a dictionary that is not empty have first keys. -/
theorem firstNodes_perm {l : List (NumaNodeId × ℚ)} {d : Dict NumaNodeId ℚ} (hl : l.Perm d.items)
    {node : NumaNodeId} (hnode : node ∈ d.keys) :
    ∃ nodes, firstNodes l = .ok nodes ∧ ∀ node ∈ nodes, node ∈ d.keys := by
  obtain ⟨v, hv⟩ := Dict.mem_keys.mp hnode
  obtain ⟨nodes, hnodes, hmem⟩ := firstNodes_ok (List.ne_nil_of_mem (hl.mem_iff.mpr hv))
  exact ⟨nodes, hnodes, fun node hnode => (hl.map Prod.fst).mem_iff.mp (hmem node hnode)⟩

theorem getMostUsedNodes_ok {preferences : Preferences} {node : NumaNodeId}
    (hnode : node ∈ preferences.keys) (hnonneg : ∀ v ∈ preferences.values, 0 ≤ v) :
    ∃ nodes, getMostUsedNodes runtime preferences = .ok nodes ∧
      ∀ node ∈ nodes, node ∈ preferences.keys := by
  obtain ⟨d, hd⟩ := Dict.comprehendM_returns (d := preferences) (f := fun _ preference => do
      let x ← mathLog1p runtime (preference * 1000)
      pure (roundHalfEven x : ℚ)) fun node v hv => by
    have hv0 := hnonneg v (Dict.mem_values.mpr ⟨node, hv⟩)
    rw [mathLog1p, if_neg (by linarith)]
    exact ⟨_, rfl⟩
  have hkeys := (Dict.comprehendM_ok hd).1
  obtain ⟨nodes, hnodes, hmem⟩ := firstNodes_perm (sortedByDesc_perm Prod.snd d.items)
    (hkeys ▸ hnode)
  refine ⟨nodes, ?_, fun node hnode => hkeys ▸ hmem node hnode⟩
  rw [getMostUsedNodes, hd, except_ok_bind, hnodes]

theorem getBestMemoryNodes_ok {limit : ℚ} (hlimit : 0 < limit) {balancedMemory : BalancedMemory}
    (hbalanced : Balanced platform balancedMemory) {node : NumaNodeId}
    (hnode : node ∈ platform.nodeCpus.keys) :
    ∃ nodes, getBestMemoryNodes runtime limit balancedMemory = .ok nodes ∧
      ∀ node ∈ nodes, node ∈ platform.nodeCpus.keys := by
  obtain ⟨d, hd⟩ := Dict.comprehendM_returns (d := balancedMemory) (f := fun _ tasks => do
      let x ← mathLog10 runtime (pinnedMemory tasks + limit)
      pure (roundTo 1 x)) fun node tasks hmem => by
    have hsum := hbalanced.nonneg node tasks (Dict.get?_eq_some_iff.mpr hmem)
    rw [mathLog10, if_neg (by linarith)]
    exact ⟨_, rfl⟩
  have hkeys := (Dict.comprehendM_ok hd).1
  obtain ⟨nodes, hnodes, hmem⟩ := firstNodes_perm (sortedBy_perm Prod.snd d.items)
    (hkeys ▸ (hbalanced.mem_keys_iff node).mpr hnode)
  refine ⟨nodes, ?_, fun node hnode => (hbalanced.mem_keys_iff node).mp (hkeys ▸ hmem node hnode)⟩
  rw [getBestMemoryNodes, hd, except_ok_bind, hnodes]

theorem getMostFreeMemoryNodes_ok (limit : ℚ) (free : Dict NumaNodeId ℚ) :
    ∃ nodes, getMostFreeMemoryNodes runtime limit free = .ok nodes ∧
      ∀ node ∈ nodes, node ∈ free.keys := by
  have hmap : (free.items.filter fun p => ¬ p.2 ≤ limit).mapM (fun p => do
      let x ← mathLog10 runtime (p.2 - limit)
      pure (p.1, roundTo 1 x) : NumaNodeId × ℚ → Except Exn (NumaNodeId × ℚ)) =
        .ok ((free.items.filter fun p => ¬ p.2 ≤ limit).map fun p =>
          (p.1, roundTo 1 (runtime.log10 (p.2 - limit)))) := by
    refine except_mapM_eq_ok fun p hp => ?_
    have hlt : ¬ p.2 ≤ limit := by simpa using (List.mem_filter.mp hp).2
    rw [mathLog10, if_neg (by linarith)]
    rfl
  rw [getMostFreeMemoryNodes, hmap, except_ok_bind]
  split
  · exact ⟨∅, rfl, fun node hnode => absurd hnode (Finset.notMem_empty node)⟩
  · next hne =>
    obtain ⟨nodes, hnodes, hmem⟩ := firstNodes_ok (l := sortedByDesc Prod.snd _) fun hnil =>
      hne (hnil ▸ sortedByDesc_perm Prod.snd _).symm.eq_nil
    refine ⟨nodes, hnodes, fun node hnode => ?_⟩
    obtain ⟨q, hq, rfl⟩ := List.mem_map.mp (hmem node hnode)
    rw [(sortedByDesc_perm Prod.snd _).mem_iff] at hq
    obtain ⟨p, hp, rfl⟩ := List.mem_map.mp hq
    have hkey : p.1 ∈ free.items.map Prod.fst := List.mem_map_of_mem (List.mem_of_mem_filter hp)
    exact hkey

theorem migrationMinimizerCore_mem {task : TaskId} {mostUsed best mostFree : Finset NumaNodeId}
    {P : NumaNodeId → Prop} (hmostUsed : ∀ node ∈ mostUsed, P node) (hbest : ∀ node ∈ best, P node) :
    ∀ p ∈ migrationMinimizerCore runtime task mostUsed best mostFree, p.1 = task ∧ P p.2 := by
  intro p hp
  rw [migrationMinimizerCore] at hp
  split at hp
  · next hne =>
    cases hp
    exact ⟨rfl, hmostUsed _ (Finset.mem_inter.mp (runtime.first_mem _ hne)).1⟩
  · split at hp
    · next hne =>
      cases hp
      exact ⟨rfl, hmostUsed _ (Finset.mem_inter.mp (runtime.first_mem _ hne)).1⟩
    · split at hp
      · next hne =>
        cases hp
        exact ⟨rfl, hbest _ (Finset.mem_inter.mp (runtime.first_mem _ hne)).1⟩
      · cases hp

/-- The preferences are shares of the nodes. -/
theorem preferences_measured (ht : Numbered platform) {data : TaskData}
    (hdata : data.Measured platform) :
    (∀ node, node ∈ (getNumaNodePreferences data.measurements platform.numaNodes).keys ↔
      node ∈ platform.nodeCpus.keys) ∧
      ∀ v ∈ (getNumaNodePreferences data.measurements platform.numaNodes).values, 0 ≤ v := by
  obtain ⟨pages, hpages⟩ := hdata.pages
  obtain ⟨hkeys, hvalues⟩ := hdata.nodes pages hpages
  have hfold : ∀ (l : List (NumaNodeId × ℚ)) (d : Preferences),
      (∀ p ∈ l, p.1 ∈ platform.nodeCpus.keys ∧ 0 ≤ p.2) →
      (∀ node, node ∈ d.keys ↔ node ∈ platform.nodeCpus.keys) ∧ (∀ v ∈ d.values, 0 ≤ v) →
      (∀ node, node ∈ (l.foldl (fun ret p =>
        ret.set p.1 (roundTo 4 (p.2 / max 1 pages.values.sum))) d).keys ↔
          node ∈ platform.nodeCpus.keys) ∧
      ∀ v ∈ (l.foldl (fun ret p =>
        ret.set p.1 (roundTo 4 (p.2 / max 1 pages.values.sum))) d).values, 0 ≤ v := by
    intro l
    induction l with
    | nil => exact fun d _ hd => hd
    | cons p l ih =>
      intro d hl hd
      rw [List.forall_mem_cons] at hl
      refine ih _ hl.2 ⟨fun node => ?_, fun v hv => ?_⟩
      · rw [Dict.mem_keys_set, hd.1]
        exact or_iff_right_of_imp fun heq => heq ▸ hl.1.1
      · obtain ⟨node, hv⟩ := Dict.mem_values.mp hv
        obtain ⟨-, rfl⟩ | ⟨-, hv⟩ := Dict.mem_items_set.mp hv
        · have hmax : (0 : ℚ) ≤ max 1 pages.values.sum := zero_le_one.trans (le_max_left ..)
          exact roundTo_nonneg (div_nonneg hl.1.2 hmax)
        · exact hd.2 v (Dict.mem_values.mpr ⟨node, hv⟩)
  rw [getNumaNodePreferences, hpages]
  refine hfold pages.items _ (fun p hp => ⟨?_, ?_⟩) ⟨fun node => mem_keys_range_iff ht, ?_⟩
  · exact (hkeys p.1).mp (Dict.mem_keys.mpr ⟨p.2, hp⟩)
  · exact hvalues p.2 (Dict.mem_values.mpr ⟨p.1, hp⟩)
  · intro v hv
    obtain ⟨node, hv⟩ := Dict.mem_values.mp hv
    obtain ⟨i, -, he⟩ := List.mem_map.mp
      (Dict.mem_of_get?_ofItems (Dict.get?_eq_some_iff.mpr hv))
    cases he
    exact le_rfl

variable (self : NUMAAllocator)

/-- Both algorithms return, with a node of the platform if any. -/
theorem choose_ok (hp : NodesMeasured platform) {data : TaskData} (hdata : data.Measured platform)
    {t : TaskMemory} (hlimit : 0 < t.memoryLimit)
    (hpreferences : t.preferences = getNumaNodePreferences data.measurements platform.numaNodes)
    {balancedMemory : BalancedMemory} (hbalanced : Balanced platform balancedMemory) :
    ∃ chosen, self.choose runtime t balancedMemory platform = .ok chosen ∧
      ∀ p ∈ chosen, p.1 = t.task ∧ p.2 ∈ platform.nodeCpus.keys := by
  have hzero : (0 : NumaNodeId) ∈ platform.nodeCpus.keys :=
    (hp.mem_keys_iff 0).mpr ⟨le_rfl, Int.natCast_pos.mpr hp.pos⟩
  rw [NUMAAllocator.choose]
  split
  · obtain ⟨hkeys, hnonneg⟩ := preferences_measured hp.toNumbered hdata
    rw [← hpreferences] at hkeys hnonneg
    obtain ⟨mostUsed, hmostUsed, husedMem⟩ :=
      getMostUsedNodes_ok runtime ((hkeys 0).mpr hzero) hnonneg
    obtain ⟨best, hbest, hbestMem⟩ := getBestMemoryNodes_ok runtime hlimit hbalanced hzero
    obtain ⟨mostFree, hmostFree, -⟩ :=
      getMostFreeMemoryNodes_ok runtime t.memoryLimit platform.memNumaFreeBytes
    obtain ⟨node, hnode, hnodeMem⟩ : ∃ node, getMostUsedNode t.preferences = .ok node ∧
        node ∈ t.preferences.keys := by
      obtain ⟨v, hv⟩ := Dict.mem_keys.mp ((hkeys 0).mpr hzero)
      rw [← (sortedByDesc_perm Prod.snd t.preferences.items).mem_iff] at hv
      obtain ⟨p, rest, hl⟩ := List.exists_cons_of_ne_nil (List.ne_nil_of_mem hv)
      refine ⟨p.1, by rw [getMostUsedNode, hl]; rfl, Dict.mem_keys.mpr ⟨p.2, ?_⟩⟩
      rw [← (sortedByDesc_perm Prod.snd t.preferences.items).mem_iff, hl]
      exact List.mem_cons_self
    obtain ⟨preference, hpreference⟩ := Dict.mem_keys_iff_get?.mp hnodeMem
    rw [NUMAAllocator.migrationMinimizer, hmostUsed, except_ok_bind, hbest, except_ok_bind,
      hmostFree, except_ok_bind, hnode, except_ok_bind, Dict.item_ok_iff.mpr hpreference,
      except_ok_bind]
    split
    · exact ⟨none, rfl, fun p hp => by cases hp⟩
    · exact ⟨_, rfl, migrationMinimizerCore_mem runtime
        (fun node hnode => (hkeys node).mp (husedMem node hnode)) hbestMem⟩
  · obtain ⟨node, hnode, hbest⟩ := getBestMemoryNode_ok hp.toNumbered hlimit hbalanced
    rw [NUMAAllocator.fillBiggestFirst, hbest, except_ok_bind]
    refine ⟨_, rfl, fun p hp => ?_⟩
    cases hp
    exact ⟨rfl, hnode⟩

theorem candidate_ok (hp : NodesMeasured platform) {data : TaskData}
    (hdata : data.Measured platform) {t : TaskMemory} (hlimit : 0 < t.memoryLimit)
    (hpreferences : t.preferences = getNumaNodePreferences data.measurements platform.numaNodes)
    {balancedMemory : BalancedMemory} (hbalanced : Balanced platform balancedMemory) :
    ∃ chosen, candidate self runtime balancedMemory platform t data = .ok chosen ∧
      ∀ p ∈ chosen, p.1 = t.task ∧ p.2 ∈ platform.nodeCpus.keys := by
  obtain ⟨chosen, hchosen, hmem⟩ := choose_ok runtime self hp hdata hlimit hpreferences hbalanced
  rw [candidate, hchosen, except_ok_bind]
  cases chosen with
  | none => exact ⟨none, rfl, hmem⟩
  | some p =>
    rw [NUMAAllocator.checkFreeSpace]
    split
    · obtain ⟨pages, hpages⟩ := hdata.pages
      have hnode := (hmem p rfl).2
      obtain ⟨v, hv⟩ := Dict.mem_keys_iff_get?.mp (((hdata.nodes pages hpages).1 p.2).mpr hnode)
      obtain ⟨free, hfree⟩ := Dict.mem_keys_iff_get?.mp ((hp.free p.2).mpr hnode)
      rw [isEnoughMemoryOnTarget, numaPages, hpages]
      dsimp only
      rw [except_pure, except_ok_bind, Dict.item_ok_iff.mpr hv, except_ok_bind,
        Dict.item_ok_iff.mpr hfree, except_ok_bind, except_pure, except_ok_bind]
      refine ⟨_, rfl, fun q hq => ?_⟩
      split at hq
      · exact hmem q hq
      · cases hq
    · exact ⟨some p, rfl, hmem⟩

/-- The first task, by its limit, that waits and gets a node from the algorithm, with enough space if
that is checked. -/
def firstChoice (platform : MeasuredPlatform) (tasksData : TasksData)
    (balancedMemory : BalancedMemory) (l : List TaskMemory) : Option (TaskId × NumaNodeId) :=
  l.findSome? fun t => (tasksData.get? t.task).bind fun data =>
    if Waits platform data then
      (candidate self runtime balancedMemory platform t data).toOption.join
    else none

/-- The loop over the tasks keeps the first choice. -/
theorem foldlM_analyse_firstChoice (hp : NodesMeasured platform)
    (hc : ∀ task data, tasksData.get? task = some data → data.Measured platform)
    {balancedMemory : BalancedMemory} (hbalanced : Balanced platform balancedMemory)
    {l : List TaskMemory} (hl : ∀ t ∈ l, t ∈ buildTasksMemory tasksData platform) :
    l.foldlM (self.analyse runtime tasksData balancedMemory platform) none =
      .ok (firstChoice runtime self platform tasksData balancedMemory l) ∧
      ∀ p ∈ firstChoice runtime self platform tasksData balancedMemory l,
        p.1 ∈ tasksData.keys ∧ p.2 ∈ platform.nodeCpus.keys := by
  have hcomplete : Complete tasksData := fun task data hdata => (hc task data hdata).toComplete
  induction l with
  | nil => exact ⟨rfl, fun p hp => by cases hp⟩
  | cons t l ih =>
    obtain ⟨data, hof⟩ := of_mem_buildTasksMemory hp.toNumbered (hl t List.mem_cons_self)
    have hdata := hc _ _ hof.get?
    have hl' : ∀ t' ∈ l, t' ∈ buildTasksMemory tasksData platform := fun t' ht' =>
      hl t' (List.mem_cons_of_mem t ht')
    rw [List.foldlM_cons, analyse_candidate hcomplete hof, firstChoice, List.findSome?_cons, hof.get?,
      Option.bind_some]
    by_cases hw : Waits platform data
    · have hlimit : 0 < t.memoryLimit := by
        rw [hof.limit]
        exact lt_of_le_of_ne (memoryLimit_nonneg hdata.toComplete) (Ne.symm hw.2)
      have hpreferences := hof.preferences
      obtain ⟨chosen, hchosen, hmem⟩ :=
        candidate_ok runtime self hp hdata hlimit hpreferences hbalanced
      rw [if_pos ⟨hw, rfl⟩, if_pos hw, hchosen, except_ok_bind]
      cases chosen with
      | none => exact ih hl'
      | some p =>
        refine ⟨foldlM_analyse_some hcomplete
          (fun t' ht' => of_mem_buildTasksMemory hp.toNumbered (hl' t' ht')) p, fun q hq => ?_⟩
        cases hq
        obtain ⟨htask, hnode⟩ := hmem p rfl
        exact ⟨htask ▸ Dict.mem_keys_iff_get?.mpr ⟨data, hof.get?⟩, hnode⟩
    · rw [if_neg fun h => hw h.1, if_neg hw, except_pure, except_ok_bind]
      exact ih hl'

end Choice

/-! ## A call -/

/-- The task that a call takes, with its node. -/
def taken (self : NUMAAllocator) (runtime : Runtime) (platform : MeasuredPlatform)
    (tasksData : TasksData) : Option (TaskId × NumaNodeId) :=
  (buildBalancedMemory (buildTasksMemory tasksData platform) tasksData platform).toOption.bind
    fun balancedMemory => firstChoice runtime self platform tasksData balancedMemory
      (buildTasksMemory tasksData platform)

section Calls

variable {self : NUMAAllocator} {runtime : Runtime}

theorem BoundTo.accepted (hp : NodesMeasured platform) {node : NumaNodeId} {cpus : List ℤ}
    (hcpus : platform.nodeCpus.get? node = some cpus) {a : TaskAllocations}
    (hbound : BoundTo node cpus a) (hlt : ∀ cpu ∈ cpus, cpu < platform.cpus) {t : AllocationType}
    {raw : RawValue} (hraw : a.get? t = some raw) : AcceptedOn platform.toPlatform t raw := by
  obtain ⟨rfl, rfl⟩ | ⟨rfl, rfl⟩ := hbound.values t raw hraw
  · exact (acceptedOn_cpus_iff (hp.cpus_nonneg node cpus hcpus)).mpr hlt
  · exact acceptedOn_mems hp.toNumbered (Dict.mem_keys_iff_get?.mpr ⟨cpus, hcpus⟩)

theorem OnlyMoves.accepted (ht : Numbered platform) (hswap : platform.swapEnabled = false)
    {allocations allocations' : TasksAllocations}
    (hmoves : OnlyMoves platform allocations allocations')
    (haccepted : AllAcceptedOn platform.toPlatform allocations) :
    AllAcceptedOn platform.toPlatform allocations' := by
  intro task t raw hraw
  obtain hsame | ⟨rfl, node, hnode, hmoved⟩ := hmoves task t
  · rw [hsame] at hraw
    exact haccepted task t raw hraw
  · rw [hmoved] at hraw
    cases hraw
    exact acceptedOn_migratePages ht hswap hnode

/-- The rest of a call that takes a task. -/
theorem allocateChosen_accepted (hp : NodesMeasured platform) (hswap : platform.swapEnabled = false)
    (hc : Complete tasksData) (hfree : platform.memNumaFreeBytes.items ≠ [])
    (hoptions : ¬ (self.cgroupsMemoryBinding = true ∧ self.cgroupsMemoryMigrate = true))
    {task : TaskId} (htask : task ∈ tasksData.keys) {node : NumaNodeId} {cpus : List ℤ}
    (hcpus : platform.nodeCpus.get? node = some cpus) {pagesToMove : PagesToMove}
    (hcounts : Counts tasksData pagesToMove) :
    ∃ s s', self.allocateChosen (some (task, node)) tasksData platform pagesToMove = .ok s ∧
      self.remigratePages tasksData (buildTasksMemory tasksData platform) platform s = .ok s' ∧
        (AllAcceptedOn platform.toPlatform s'.1 ↔ ∀ cpu ∈ cpus, cpu < platform.cpus) := by
  obtain ⟨s, a, hs, hbound, hcounts', hothers, hvalues⟩ :=
    allocateTask_ok hoptions hc htask hcpus hcounts
  obtain ⟨s', hs', hmoves⟩ := remigratePages_ok self hp.toNumbered hfree hc hcounts'
  refine ⟨s, s', hs, hs', fun haccepted => ?_, fun hlt => ?_⟩
  · have hreturned : returnedValue s'.1 task .CPUSET_CPUS =
        some (.str (encodeListformat cpus.toFinset)) := by
      rw [← hbound.returned, ← (hvalues .CPUSET_CPUS).resolve_right fun h => (nomatch h.1)]
      exact hmoves.returnedCpus task
    exact (acceptedOn_cpus_iff (hp.cpus_nonneg node cpus hcpus)).mp (haccepted _ _ _ hreturned)
  · refine hmoves.accepted hp.toNumbered hswap fun task' t raw hraw => ?_
    by_cases htask' : task' = task
    · rw [htask'] at hraw
      obtain hsame | ⟨rfl, hmoved⟩ := hvalues t
      · rw [hsame] at hraw
        exact hbound.accepted hp hcpus hlt hraw
      · rw [hmoved] at hraw
        cases hraw
        exact acceptedOn_migratePages hp.toNumbered hswap
          (Dict.mem_keys_iff_get?.mpr ⟨cpus, hcpus⟩)
    · rw [hothers task' htask'] at hraw
      cases hraw

theorem exists_free (hp : NodesMeasured platform) : platform.memNumaFreeBytes.items ≠ [] := by
  obtain ⟨v, hv⟩ := Dict.mem_keys.mp ((hp.free 0).mpr
    ((hp.mem_keys_iff 0).mpr ⟨le_rfl, Int.natCast_pos.mpr hp.pos⟩))
  exact List.ne_nil_of_mem hv

/-- Whatever the options and the algorithm, a call returns what is accepted just when it is a dry run
or, should it take a task, not both options for cgroups are set and the cpus of the node are among
those of the platform. -/
theorem allocate_accepted_iff (self : NUMAAllocator) (runtime : Runtime)
    (hp : NodesMeasured platform) (hswap : platform.swapEnabled = false)
    (hc : ∀ task data, tasksData.get? task = some data → data.Measured platform)
    (pagesToMove : PagesToMove) :
    (∃ s, self.allocate runtime platform tasksData pagesToMove = .ok s ∧
      AllAcceptedOn platform.toPlatform s.1) ↔
      (self.dryrun = true ∨ ∀ task node, taken self runtime platform tasksData = some (task, node) →
        ¬ (self.cgroupsMemoryBinding = true ∧ self.cgroupsMemoryMigrate = true) ∧
          ∀ cpus, platform.nodeCpus.get? node = some cpus → ∀ cpu ∈ cpus, cpu < platform.cpus) := by
  have hcomplete : Complete tasksData := fun task data hdata => (hc task data hdata).toComplete
  have hempty : AllAcceptedOn platform.toPlatform ∅ := fun _ _ _ hraw => by cases hraw
  obtain ⟨balancedMemory, hbuild, hbalanced⟩ := buildBalancedMemory_ok hp.toNumbered hcomplete
  obtain ⟨hfold, hmem⟩ := foldlM_analyse_firstChoice runtime self hp hc hbalanced fun _ ht => ht
  have htaken : taken self runtime platform tasksData =
      firstChoice runtime self platform tasksData balancedMemory
        (buildTasksMemory tasksData platform) := by
    rw [taken, hbuild]
    rfl
  have hcounts : Counts tasksData (NUMAAllocator.updatePagesToMove tasksData
      (buildTasksMemory tasksData platform) pagesToMove) :=
    counts_updatePagesToMove platform pagesToMove
  rw [← htaken] at hfold hmem
  rw [NUMAAllocator.allocate, hbuild, except_ok_bind, hfold]
  by_cases hdry : self.dryrun = true
  · rw [if_pos hdry]
    exact iff_of_true ⟨_, rfl, hempty⟩ (.inl hdry)
  rw [if_neg hdry, except_ok_bind, or_iff_right hdry]
  dsimp only
  cases hchoice : taken self runtime platform tasksData with
  | none =>
    obtain ⟨s, hs, hmoves⟩ := remigratePages_ok self hp.toNumbered (exists_free hp) hcomplete
      (s := (∅, _)) hcounts
    exact iff_of_true ⟨s, hs, hmoves.accepted hp.toNumbered hswap hempty⟩
      fun _ _ hnone => by cases hnone
  | some p =>
    obtain ⟨task, node⟩ := p
    obtain ⟨htask, hnode⟩ := hmem _ hchoice
    obtain ⟨cpus, hcpus⟩ := Dict.mem_keys_iff_get?.mp hnode
    by_cases hoptions : self.cgroupsMemoryBinding = true ∧ self.cgroupsMemoryMigrate = true
    · refine iff_of_false (fun h => ?_) fun h => (h task node rfl).1 hoptions
      obtain ⟨s, hs, -⟩ := h
      have herror : self.allocateChosen (some (task, node)) tasksData platform
          (NUMAAllocator.updatePagesToMove tasksData (buildTasksMemory tasksData platform)
            pagesToMove) = .error (.AttributeError "CPUSET_MEM_MIGRATE") := by
        change self.allocateTask task node tasksData platform _ = _
        rw [NUMAAllocator.allocateTask, Dict.item_ok_iff.mpr hcpus, except_ok_bind,
          bindTask_error hoptions.1 hoptions.2]
        rfl
      rw [herror] at hs
      cases hs
    · obtain ⟨s, s', hs, hs', haccepted⟩ := allocateChosen_accepted hp hswap hcomplete
        (exists_free hp) hoptions htask hcpus hcounts
      rw [hs, except_ok_bind, hs']
      constructor
      · intro h task' node' heq
        obtain ⟨s'', heq', haccepted'⟩ := h
        cases heq
        cases heq'
        refine ⟨hoptions, fun cpus' hcpus' => ?_⟩
        cases hcpus.symm.trans hcpus'
        exact haccepted.mp haccepted'
      · intro h
        exact ⟨s', rfl, haccepted.mpr ((h task node rfl).2 cpus hcpus)⟩

theorem nodesMeasured_twoNodes : NodesMeasured twoNodes where
  toNumbered := topology_twoNodes.numbered
  free := fun node => by
    change node ∈ [(0 : ℤ), 1] ↔ node ∈ [(0 : ℤ), 1]
    rfl
  cpus_nonneg := topology_twoNodes.cpus_nonneg

theorem measured_twoTasks : ∀ task data, twoTasks.get? task = some data → data.Measured twoNodes := by
  have hmeasured : ∀ mem : ℚ, 0 ≤ mem → (taskOnAllCpus mem).Measured twoNodes := by
    intro mem hmem
    refine ⟨⟨⟨"0-3", {0, 1, 2, 3}, rfl, by decide⟩, ⟨_, rfl⟩, fun mem' hmem' => ?_,
      fun limit hlimit => absurd hlimit List.not_mem_nil⟩, fun pages hpages => ?_⟩
    · cases hmem'
      exact hmem
    · cases hpages
      exact ⟨fun node => Iff.rfl, by decide⟩
  intro task data h
  have hmem : (task, data) ∈ [_, _] := Dict.get?_eq_some_iff.mp h
  obtain ⟨-, rfl⟩ | ⟨-, rfl⟩ := by simpa using hmem
  · exact hmeasured 5 (by norm_num)
  · exact hmeasured 9 (by norm_num)

/-- With memory binding alone what is returned is accepted. -/
theorem allocate_accepted_iff_twoTasks : ∃ s,
    ({ cgroupsMemoryBinding := true } : NUMAAllocator).allocate firstOrder twoNodes twoTasks ∅ =
      .ok s ∧ AllAcceptedOn twoNodes.toPlatform s.1 := by
  refine (allocate_accepted_iff { cgroupsMemoryBinding := true } firstOrder nodesMeasured_twoNodes
    rfl measured_twoTasks ∅).mpr (.inr fun task node _ => ⟨by decide, fun cpus hcpus => ?_⟩)
  have hmem : (node, cpus) ∈ [((0 : ℤ), [(0 : ℤ), 1]), (1, [2, 3])] :=
    Dict.get?_eq_some_iff.mp hcpus
  obtain ⟨-, rfl⟩ | ⟨-, rfl⟩ := by simpa using hmem
  · decide
  · decide

/-- With both options for cgroups the bigger task is taken, and the call raises. -/
theorem allocate_raises : ({ cgroupsMemoryBinding := true, cgroupsMemoryMigrate := true } :
    NUMAAllocator).allocate firstOrder twoNodes twoTasks ∅ =
      .error (.AttributeError "CPUSET_MEM_MIGRATE") := by
  decide +kernel

end Calls

end Wca
