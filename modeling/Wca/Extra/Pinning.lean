import Mathlib.Algebra.Order.BigOperators.Group.List
import Wca.Extra.NumaAllocator
import Wca.ListFormat

/-!
# The progress of `NUMAAllocator`

With the biggest tasks first and without the checks and options that may stand in the way, a call
pins the first task that waits in the order of the limits. Pinning is read back from the list
format of the cpus, so the run lemma rests on its round trip.
-/

namespace Wca

open Py

/-- The nodes of a platform: there is one, they are numbered from zero, and each has cpus of its
own. -/
structure Topology (platform : MeasuredPlatform) : Prop where
  pos : 0 < platform.numaNodes
  mem_keys_iff : ∀ node, node ∈ platform.nodeCpus.keys ↔ 0 ≤ node ∧ node < platform.numaNodes
  ne_nil : ∀ node cpus, platform.nodeCpus.get? node = some cpus → cpus ≠ []
  disjoint : ∀ node node' cpus cpus', platform.nodeCpus.get? node = some cpus →
    platform.nodeCpus.get? node' = some cpus' → node ≠ node' → cpus.Disjoint cpus'
  cpus_nonneg : ∀ node cpus, platform.nodeCpus.get? node = some cpus → ∀ cpu ∈ cpus, 0 ≤ cpu
  measured : platform.memNumaFreeBytes.items ≠ []

/-- The ids of the nodes, of which there is one at least. -/
structure Numbered (platform : MeasuredPlatform) : Prop where
  pos : 0 < platform.numaNodes
  mem_keys_iff : ∀ node, node ∈ platform.nodeCpus.keys ↔ 0 ≤ node ∧ node < platform.numaNodes

theorem Topology.numbered {platform : MeasuredPlatform} (ht : Topology platform) :
    Numbered platform := ⟨ht.pos, ht.mem_keys_iff⟩

/-- The cpus of a task can be read. -/
def TaskData.HasCpus (data : TaskData) : Prop :=
  ∃ text cpus, data.allocations.get? .CPUSET_CPUS = some (.str text) ∧
    decodeListformat text = .ok cpus

/-- The data of a task with what the allocator reads: the cpus as a text in the list format, the
pages on the nodes, and amounts of memory. -/
structure TaskData.Complete (data : TaskData) : Prop where
  cpus : ∃ text cpus, data.allocations.get? .CPUSET_CPUS = some (.str text) ∧
    decodeListformat text = .ok cpus
  pages : ∃ pages, data.measurements.memNumaPages = some pages
  mem_nonneg : ∀ mem ∈ data.mem, 0 ≤ mem
  limits_nonneg : ∀ limit ∈ limitsOrder data.measurements, 0 ≤ limit

def Complete (tasksData : TasksData) : Prop :=
  ∀ task data, tasksData.get? task = some data → data.Complete

/-- The limit that a call takes a task to have. -/
def memoryLimit (platform : MeasuredPlatform) (data : TaskData) : ℚ :=
  getTaskMemoryLimit data (getPlatformTotalMemory platform)

/-- The node a task is pinned to. -/
def pinnedTo (platform : MeasuredPlatform) (data : TaskData) : Option NumaNodeId :=
  match getCurrentNode data.allocations platform with
  | .ok node => if isTaskPinned node then some node else none
  | .error _ => none

/-- A task that is neither pinned nor a ghost. -/
def Waits (platform : MeasuredPlatform) (data : TaskData) : Prop :=
  pinnedTo platform data = none ∧ memoryLimit platform data ≠ 0

instance (platform : MeasuredPlatform) (data : TaskData) : Decidable (Waits platform data) :=
  inferInstanceAs (Decidable (_ ∧ _))

def waiting (platform : MeasuredPlatform) (tasksData : TasksData) : List TaskId :=
  (tasksData.items.filter fun item => Waits platform item.2).map Prod.fst

/-- The value of a type that is returned for a task. -/
def returnedValue (allocations : TasksAllocations) (task : TaskId) (t : AllocationType) :
    Option RawValue :=
  (allocations.get? task).bind fun a => a.get? t

/-- The cpus that are returned for a task. -/
def returnedCpus (allocations : TasksAllocations) (task : TaskId) : Option RawValue :=
  (allocations.get? task).bind fun a => a.get? .CPUSET_CPUS

/-- The tasks after the allocations have been applied, and nothing else has changed. -/
def applied (tasksData : TasksData) (allocations : TasksAllocations) : TasksData :=
  tasksData.map fun task data =>
    { data with allocations := data.allocations.update ((allocations.get? task).getD ∅) }

variable {platform : MeasuredPlatform} {tasksData : TasksData}

theorem memoryLimit_nonneg {data : TaskData} (h : data.Complete) : 0 ≤ memoryLimit platform data := by
  rw [memoryLimit, getTaskMemoryLimit]
  split
  · case h_1 mem hmem => exact h.mem_nonneg mem hmem
  · cases hfind : (limitsOrder data.measurements).find? _ with
    | none => exact le_rfl
    | some limit => exact h.limits_nonneg limit (List.mem_of_find?_eq_some hfind)

/-! ## The node of a task -/

variable (platform) in
theorem getCurrentNode_eq {allocations : TaskAllocations} {text : String} {cpus : Finset ℤ}
    (htext : allocations.get? .CPUSET_CPUS = some (.str text))
    (hcpus : decodeListformat text = .ok cpus) :
    getCurrentNode allocations platform = .ok (((platform.nodeCpus.items.find? fun p =>
      p.2.toFinset = cpus).map Prod.fst).getD (-1)) := by
  rw [getCurrentNode, cpusetCpus, Dict.item_ok_iff.mpr htext, except_ok_bind]
  dsimp only
  rw [except_pure, except_ok_bind, hcpus]
  rfl

variable (platform) in
/-- The node of a task is one of the platform, or there is none. -/
theorem getCurrentNode_ok {data : TaskData} (h : data.HasCpus) :
    ∃ node, getCurrentNode data.allocations platform = .ok node ∧
      pinnedTo platform data = (if 0 ≤ node then some node else none) ∧
      (0 ≤ node → node ∈ platform.nodeCpus.keys) := by
  obtain ⟨text, cpus, htext, hcpus⟩ := h
  have heq := getCurrentNode_eq platform htext hcpus
  refine ⟨_, heq, ?_, ?_⟩
  · rw [pinnedTo, heq]
    simp only [isTaskPinned, decide_eq_true_eq]
  · intro hle
    cases hfind : platform.nodeCpus.items.find? fun p => p.2.toFinset = cpus with
    | none =>
      rw [hfind] at hle
      exact absurd hle (by decide)
    | some p => exact List.mem_map_of_mem (List.mem_of_find?_eq_some hfind)

/-- A task with the cpus of a node is pinned to it. -/
theorem pinnedTo_of_node (ht : Topology platform) {data : TaskData} {node : NumaNodeId}
    {cpus : List ℤ} (hnode : platform.nodeCpus.get? node = some cpus)
    (htext : data.allocations.get? .CPUSET_CPUS = some (.str (encodeListformat cpus.toFinset))) :
    pinnedTo platform data = some node := by
  have hdecode : decodeListformat (encodeListformat cpus.toFinset) = .ok cpus.toFinset :=
    decodeListformat_encodeListformat fun cpu hcpu =>
      ht.cpus_nonneg node cpus hnode cpu (List.mem_toFinset.mp hcpu)
  have heq := getCurrentNode_eq platform htext hdecode
  have hmem := Dict.get?_eq_some_iff.mp hnode
  cases hfind : platform.nodeCpus.items.find? fun p => p.2.toFinset = cpus.toFinset with
  | none => exact absurd (decide_eq_true rfl) (List.find?_eq_none.mp hfind _ hmem)
  | some p =>
    obtain ⟨node', cpus'⟩ := p
    have hcpus' := Dict.get?_eq_some_iff.mpr (List.mem_of_find?_eq_some hfind)
    have hfound := List.find?_some hfind
    have hsame : cpus'.toFinset = cpus.toFinset := of_decide_eq_true hfound
    have hnodes : node' = node := by
      by_contra hne
      obtain ⟨cpu, hcpu⟩ := List.exists_mem_of_ne_nil cpus (ht.ne_nil node cpus hnode)
      have hcpu' : cpu ∈ cpus' := by
        rw [← List.mem_toFinset, hsame, List.mem_toFinset]
        exact hcpu
      exact ht.disjoint node' node cpus' cpus hcpus' hnode hne hcpu' hcpu
    have hkey := (ht.mem_keys_iff node).mp (Dict.mem_keys_iff_get?.mpr ⟨cpus, hnode⟩)
    rw [pinnedTo, heq, hfind, hnodes]
    exact if_pos (decide_eq_true hkey.1)

/-! ## Every node has its entry -/

/-- A dictionary with the nodes of the platform. -/
def HasNodes (platform : MeasuredPlatform) {V : Type} (d : Dict NumaNodeId V) : Prop :=
  ∀ node ∈ platform.nodeCpus.keys, node ∈ d.keys

theorem mem_keys_range_iff (ht : Numbered platform) {V : Type} {v : V} {node : NumaNodeId} :
    node ∈ (Dict.ofItems
      ((List.range platform.numaNodes).map fun (node : ℕ) => ((node : NumaNodeId), v))).keys ↔
      node ∈ platform.nodeCpus.keys := by
  rw [Dict.mem_keys_ofItems, ht.mem_keys_iff]
  constructor
  · rintro ⟨_, hmem⟩
    obtain ⟨i, hi, he⟩ := List.mem_map.mp hmem
    cases he
    exact ⟨Int.natCast_nonneg i, Int.ofNat_lt.mpr (List.mem_range.mp hi)⟩
  · rintro ⟨hle, hlt⟩
    have hlt' : node.toNat < platform.numaNodes := by omega
    refine ⟨v, List.mem_map.mpr ⟨node.toNat, List.mem_range.mpr hlt', ?_⟩⟩
    rw [Int.toNat_of_nonneg hle]

theorem hasNodes_range (ht : Numbered platform) {V : Type} (v : V) :
    HasNodes platform
      (Dict.ofItems ((List.range platform.numaNodes).map fun (node : ℕ) => ((node : NumaNodeId), v))) :=
  fun _ hnode => (mem_keys_range_iff ht).mpr hnode

theorem HasNodes.set {V : Type} {d : Dict NumaNodeId V} (h : HasNodes platform d)
    (node : NumaNodeId) (v : V) : HasNodes platform (d.set node v) :=
  fun node' hnode' => Dict.mem_keys_set.mpr (.inr (h node' hnode'))

theorem hasNodes_preferences (ht : Numbered platform) (m : TaskMeasurements) :
    HasNodes platform (getNumaNodePreferences m platform.numaNodes) := by
  rw [getNumaNodePreferences]
  split
  · exact hasNodes_range ht 0
  · case h_2 pages _ =>
    have hfold : ∀ (l : List (NumaNodeId × ℚ)) (d : Preferences), HasNodes platform d →
        HasNodes platform (l.foldl (fun ret p =>
          ret.set p.1 (roundTo 4 (p.2 / max 1 pages.values.sum))) d) := by
      intro l
      induction l with
      | nil => exact fun d hd => hd
      | cons p l ih => exact fun d hd => ih _ (hd.set p.1 _)
    exact hfold pages.items _ (hasNodes_range ht 0)

theorem HasNodes.item_ok {V : Type} {d : Dict NumaNodeId V} (h : HasNodes platform d)
    {node : NumaNodeId} (hnode : node ∈ platform.nodeCpus.keys) :
    ∃ v, d.item node = .ok v ∧ d.get? node = some v := by
  obtain ⟨v, hv⟩ := Dict.mem_keys_iff_get?.mp (h node hnode)
  exact ⟨v, Dict.item_ok_iff.mpr hv, hv⟩

/-! ## The tasks in the order of their limits -/

/-- What the allocator makes of a task. -/
structure OfTask (platform : MeasuredPlatform) (tasksData : TasksData) (t : TaskMemory)
    (data : TaskData) : Prop where
  get? : tasksData.get? t.task = some data
  limit : t.memoryLimit = memoryLimit platform data
  preferences : t.preferences = getNumaNodePreferences data.measurements platform.numaNodes
  hasNodes : HasNodes platform t.preferences

theorem of_mem_buildTasksMemory (ht : Numbered platform) {t : TaskMemory}
    (h : t ∈ buildTasksMemory tasksData platform) : ∃ data, OfTask platform tasksData t data := by
  rw [buildTasksMemory, (sortedByDesc_perm _ _).mem_iff, List.mem_map] at h
  obtain ⟨⟨task, data⟩, hmem, rfl⟩ := h
  exact ⟨data, Dict.get?_eq_some_iff.mpr hmem, rfl, rfl,
    hasNodes_preferences ht data.measurements⟩

variable (platform) in
theorem exists_mem_buildTasksMemory {task : TaskId} {data : TaskData}
    (h : tasksData.get? task = some data) :
    ∃ t ∈ buildTasksMemory tasksData platform, t.task = task ∧
      t.memoryLimit = memoryLimit platform data := by
  refine ⟨⟨task, memoryLimit platform data,
    getNumaNodePreferences data.measurements platform.numaNodes⟩, ?_, rfl, rfl⟩
  rw [buildTasksMemory, (sortedByDesc_perm _ _).mem_iff, List.mem_map]
  exact ⟨(task, data), Dict.get?_eq_some_iff.mp h, rfl⟩

/-- The nodes of the platform, each with tasks that have amounts of memory. -/
structure Balanced (platform : MeasuredPlatform) (balancedMemory : BalancedMemory) : Prop where
  mem_keys_iff : ∀ node, node ∈ balancedMemory.keys ↔ node ∈ platform.nodeCpus.keys
  nonneg : ∀ node tasks, balancedMemory.get? node = some tasks → 0 ≤ pinnedMemory tasks

/-- The limits of some tasks that are pinned to a node. -/
def loadOf (platform : MeasuredPlatform) (tasksData : TasksData) (l : List TaskMemory)
    (node : NumaNodeId) : ℚ :=
  ((l.filter fun t => (tasksData.get? t.task).bind (pinnedTo platform) = some node).map
    TaskMemory.memoryLimit).sum

/-- The sum of the limits of the tasks that are pinned to a node. -/
def nodeLoad (platform : MeasuredPlatform) (tasksData : TasksData) (node : NumaNodeId) : ℚ :=
  ((tasksData.items.filter fun item => pinnedTo platform item.2 = some node).map fun item =>
    memoryLimit platform item.2).sum

theorem loadOf_append_singleton {pre : List TaskMemory} {t : TaskMemory} {data : TaskData}
    (hdata : tasksData.get? t.task = some data) (node : NumaNodeId) :
    loadOf platform tasksData (pre ++ [t]) node = loadOf platform tasksData pre node +
      if pinnedTo platform data = some node then t.memoryLimit else 0 := by
  rw [loadOf, loadOf, List.filter_append, List.map_append, List.sum_append]
  split
  · next hpinned => simp [hdata, hpinned]
  · next hpinned => simp [hdata, hpinned]

theorem loadOf_buildTasksMemory (node : NumaNodeId) :
    loadOf platform tasksData (buildTasksMemory tasksData platform) node =
      nodeLoad platform tasksData node := by
  rw [loadOf, buildTasksMemory,
    (((sortedByDesc_perm TaskMemory.memoryLimit _).filter _).map TaskMemory.memoryLimit).sum_eq,
    List.filter_map, List.map_map, nodeLoad]
  have hfilter : (tasksData.items.filter ((fun t : TaskMemory =>
      decide ((tasksData.get? t.task).bind (pinnedTo platform) = some node)) ∘ fun item =>
        ⟨item.1, getTaskMemoryLimit item.2 (getPlatformTotalMemory platform),
          getNumaNodePreferences item.2.measurements platform.numaNodes⟩)) =
      tasksData.items.filter fun item => pinnedTo platform item.2 = some node := by
    refine List.filter_congr fun item hitem => ?_
    rw [Function.comp_apply, Dict.get?_eq_some_iff.mpr hitem]
    rfl
  rw [hfilter]
  rfl

/-- The nodes in order, each with the limits that are pinned to it. -/
structure Loaded (platform : MeasuredPlatform) (tasksData : TasksData) (l : List TaskMemory)
    (balancedMemory : BalancedMemory) : Prop where
  keys : balancedMemory.keys = (List.range platform.numaNodes).map fun (node : ℕ) =>
    (node : NumaNodeId)
  loads : ∀ node tasks, balancedMemory.get? node = some tasks →
    pinnedMemory tasks = loadOf platform tasksData l node

theorem loaded_nil : Loaded platform tasksData [] (Dict.ofItems
    ((List.range platform.numaNodes).map fun (node : ℕ) => ((node : NumaNodeId), []))) where
  keys := by
    rw [Dict.keys, Dict.items_ofItems]
    · rw [List.map_map]
      rfl
    · rw [List.map_map]
      exact List.nodup_range.map fun i j he => Int.ofNat.inj he
  loads := fun node tasks hget => by
    obtain ⟨i, -, he⟩ := List.mem_map.mp (Dict.mem_of_get?_ofItems hget)
    cases he
    rfl

theorem Loaded.mem_keys_iff (ht : Numbered platform) {l : List TaskMemory}
    {balancedMemory : BalancedMemory} (hloaded : Loaded platform tasksData l balancedMemory)
    (node : NumaNodeId) : node ∈ balancedMemory.keys ↔ node ∈ platform.nodeCpus.keys := by
  rw [hloaded.keys, ht.mem_keys_iff, List.mem_map]
  constructor
  · rintro ⟨i, hi, rfl⟩
    exact ⟨Int.natCast_nonneg i, Int.ofNat_lt.mpr (List.mem_range.mp hi)⟩
  · rintro ⟨hle, hlt⟩
    exact ⟨node.toNat, List.mem_range.mpr (by omega), Int.toNat_of_nonneg hle⟩

/-- `_build_balanced_memory` returns the loads of the nodes. -/
theorem buildBalancedMemory_loaded (ht : Numbered platform)
    (hc : ∀ task data, tasksData.get? task = some data → data.HasCpus) :
    ∃ balancedMemory, buildBalancedMemory (buildTasksMemory tasksData platform) tasksData platform =
      .ok balancedMemory ∧
        Loaded platform tasksData (buildTasksMemory tasksData platform) balancedMemory := by
  refine except_foldlM_run loaded_nil ?_
  intro pre t post balancedMemory hl hloaded
  have hmem : t ∈ buildTasksMemory tasksData platform := by rw [hl]; simp
  obtain ⟨data, hof⟩ := of_mem_buildTasksMemory ht hmem
  obtain ⟨node, hnode, hpinned, hkey⟩ := getCurrentNode_ok platform (hc _ _ hof.get?)
  rw [Dict.item_ok_iff.mpr hof.get?, except_ok_bind, hnode, except_ok_bind]
  split
  · case isTrue hle =>
    have hkey' := (hloaded.mem_keys_iff ht node).mpr (hkey hle)
    obtain ⟨tasks, hget⟩ := Dict.mem_keys_iff_get?.mp hkey'
    rw [Dict.item_ok_iff.mpr hget, except_ok_bind]
    rw [if_pos hle] at hpinned
    refine ⟨_, rfl, ?_, fun node' tasks' hget' => ?_⟩
    · rw [Dict.keys_set_of_mem hkey', hloaded.keys]
    · rw [loadOf_append_singleton hof.get?, hpinned]
      rw [Dict.get?_set] at hget'
      split at hget'
      · next heq =>
        cases hget'
        rw [if_pos (congrArg some heq.symm), heq, ← hloaded.loads node tasks hget, pinnedMemory, pinnedMemory,
          List.map_append, List.sum_append, List.map_singleton, List.sum_singleton]
      · next hne =>
        rw [if_neg fun he => hne (Option.some.inj he).symm, add_zero]
        exact hloaded.loads node' tasks' hget'
  · case isFalse hle =>
    rw [if_neg hle] at hpinned
    refine ⟨_, rfl, hloaded.keys, fun node' tasks' hget' => ?_⟩
    rw [loadOf_append_singleton hof.get?, hpinned, if_neg (Option.some_ne_none node').symm, add_zero]
    exact hloaded.loads node' tasks' hget'

theorem nodeLoad_nonneg (hc : ∀ task data, tasksData.get? task = some data →
    0 ≤ memoryLimit platform data) (node : NumaNodeId) : 0 ≤ nodeLoad platform tasksData node := by
  refine List.sum_nonneg fun x hx => ?_
  obtain ⟨item, hitem, rfl⟩ := List.mem_map.mp hx
  exact hc _ _ (Dict.get?_eq_some_iff.mpr (List.mem_of_mem_filter hitem))

theorem buildBalancedMemory_ok (ht : Numbered platform) (hc : Complete tasksData) :
    ∃ balancedMemory, buildBalancedMemory (buildTasksMemory tasksData platform) tasksData platform =
      .ok balancedMemory ∧ Balanced platform balancedMemory := by
  obtain ⟨balancedMemory, hbuild, hloaded⟩ :=
    buildBalancedMemory_loaded ht fun task data hdata => (hc task data hdata).cpus
  refine ⟨balancedMemory, hbuild, hloaded.mem_keys_iff ht, fun node tasks hget => ?_⟩
  rw [hloaded.loads node tasks hget, loadOf_buildTasksMemory]
  exact nodeLoad_nonneg (fun task data hdata => memoryLimit_nonneg (hc task data hdata)) node

/-! ## The choice -/

/-- A task with some memory gets a node of the platform. -/
theorem getBestMemoryNode_ok (ht : Numbered platform) {limit : ℚ} (hlimit : 0 < limit)
    {balancedMemory : BalancedMemory} (hbalanced : Balanced platform balancedMemory) :
    ∃ node ∈ platform.nodeCpus.keys, getBestMemoryNode limit balancedMemory = .ok node := by
  have hscore : ∀ node tasks, (node, tasks) ∈ balancedMemory.items → ∃ score, (do
      let score ← ratTruediv limit (pinnedMemory tasks + limit)
      pure (roundTo 4 score) : Except Exn ℚ) = .ok score := by
    intro node tasks hmem
    have hsum := hbalanced.nonneg node tasks (Dict.get?_eq_some_iff.mpr hmem)
    have hne : pinnedMemory tasks + limit ≠ 0 := by linarith
    refine ⟨roundTo 4 (limit / (pinnedMemory tasks + limit)), ?_⟩
    rw [ratTruediv, if_neg hne]
    rfl
  obtain ⟨scores, hscores⟩ := Dict.comprehendM_returns hscore
  have hscored := (Dict.comprehendM_ok hscores).1
  have hzero : (0 : NumaNodeId) ∈ scores.keys := by
    rw [hscored, hbalanced.mem_keys_iff, ht.mem_keys_iff]
    exact ⟨le_rfl, Int.natCast_pos.mpr ht.pos⟩
  obtain ⟨score, hmem⟩ := Dict.mem_keys.mp hzero
  cases hl : sortedByDesc Prod.snd scores.items with
  | nil =>
    have hperm := sortedByDesc_perm Prod.snd scores.items
    rw [hl] at hperm
    exact absurd (hperm.mem_iff.mpr hmem) List.not_mem_nil
  | cons p l =>
    have hp : p ∈ scores.items := by
      rw [← (sortedByDesc_perm Prod.snd scores.items).mem_iff, hl]
      exact List.mem_cons_self
    refine ⟨p.1, (hbalanced.mem_keys_iff p.1).mp ?_, ?_⟩
    · rw [← hscored]
      exact List.mem_map_of_mem hp
    · rw [getBestMemoryNode, hscores, except_ok_bind, hl]
      rfl

/-- The options under which the biggest task is pinned first, whatever the free space. -/
structure FillsBiggestFirst (allocator : NUMAAllocator) : Prop where
  algorithm : allocator.algorithm = .FILL_BIGGEST_FIRST
  freeSpaceCheck : allocator.freeSpaceCheck = false
  cgroupsMemoryMigrate : allocator.cgroupsMemoryMigrate = false
  dryrun : allocator.dryrun = false

section Calls

variable {self : NUMAAllocator} {runtime : Runtime}

/-- What the algorithm makes of a task, with the check of the free space. -/
def candidate (self : NUMAAllocator) (runtime : Runtime) (balancedMemory : BalancedMemory)
    (platform : MeasuredPlatform) (t : TaskMemory) (data : TaskData) :
    Except Exn (Option (TaskId × NumaNodeId)) := do
  let chosen ← self.choose runtime t balancedMemory platform
  self.checkFreeSpace t data platform chosen

/-- What the loop does at a task. -/
theorem analyse_candidate (hc : Complete tasksData) {t : TaskMemory} {data : TaskData}
    (hof : OfTask platform tasksData t data) {balancedMemory : BalancedMemory}
    (balance : Option (TaskId × NumaNodeId)) :
    self.analyse runtime tasksData balancedMemory platform balance t =
      if Waits platform data ∧ balance = none then
        candidate self runtime balancedMemory platform t data
      else pure balance := by
  have hdata := hc _ _ hof.get?
  obtain ⟨node, hnode, hpinned, -⟩ := getCurrentNode_ok platform hdata.cpus
  obtain ⟨pages, hpages⟩ := hdata.pages
  have hwaits : Waits platform data ↔ ¬ (isTaskPinned node = true ∨ isGhostTask t.memoryLimit = true) := by
    rw [Waits, hpinned, isTaskPinned, isGhostTask, hof.limit, not_or, decide_eq_true_eq,
      decide_eq_true_eq]
    refine and_congr_left fun _ => ?_
    split <;> simp_all
  rw [NUMAAllocator.analyse, Dict.item_ok_iff.mpr hof.get?, except_ok_bind, hnode, except_ok_bind,
    numaPages, hpages]
  dsimp only
  rw [except_pure, except_ok_bind]
  by_cases hw : Waits platform data
  · rw [if_neg (hwaits.mp hw)]
    cases balance with
    | none => rw [Option.isSome_none, if_neg Bool.false_ne_true, if_pos ⟨hw, rfl⟩, candidate]
    | some chosen => rw [if_pos Option.isSome_some, if_neg fun h => Option.some_ne_none _ h.2]
  · rw [if_pos (not_not.mp (mt hwaits.mpr hw)), if_neg fun h => hw h.1]

theorem analyse_eq (hself : FillsBiggestFirst self) (hc : Complete tasksData) {t : TaskMemory}
    {data : TaskData} (hof : OfTask platform tasksData t data) {balancedMemory : BalancedMemory}
    (balance : Option (TaskId × NumaNodeId)) :
    self.analyse runtime tasksData balancedMemory platform balance t =
      if Waits platform data ∧ balance = none then do
        let node ← getBestMemoryNode t.memoryLimit balancedMemory
        pure (some (t.task, node))
      else pure balance := by
  rw [analyse_candidate hc hof, candidate, NUMAAllocator.choose, hself.algorithm]
  dsimp only
  rw [NUMAAllocator.fillBiggestFirst]
  cases getBestMemoryNode t.memoryLimit balancedMemory with
  | error e => rfl
  | ok node =>
    simp only [except_ok_bind, except_pure, NUMAAllocator.checkFreeSpace, hself.freeSpaceCheck,
      Bool.false_eq_true, if_false]

/-- The loop keeps its first choice. -/
theorem foldlM_analyse_some (hc : Complete tasksData)
    {l : List TaskMemory} (hl : ∀ t ∈ l, ∃ data, OfTask platform tasksData t data)
    {balancedMemory : BalancedMemory} (chosen : TaskId × NumaNodeId) :
    l.foldlM (self.analyse runtime tasksData balancedMemory platform) (some chosen) =
      .ok (some chosen) := by
  induction l with
  | nil => rfl
  | cons t l ih =>
    obtain ⟨data, hof⟩ := hl t List.mem_cons_self
    rw [List.foldlM_cons, analyse_candidate hc hof, if_neg fun h => Option.some_ne_none _ h.2,
      except_pure, except_ok_bind]
    exact ih fun t' ht' => hl t' (List.mem_cons_of_mem t ht')

variable (runtime) in
/-- The loop chooses the first task that waits, and a node of the platform for it. -/
theorem foldlM_analyse (hself : FillsBiggestFirst self) (ht : Topology platform)
    (hc : Complete tasksData) {l : List TaskMemory}
    (hl : ∀ t ∈ l, ∃ data, OfTask platform tasksData t data) {balancedMemory : BalancedMemory}
    (hbalanced : Balanced platform balancedMemory) :
    ∃ balance, l.foldlM (self.analyse runtime tasksData balancedMemory platform) none =
      .ok balance ∧
      ((balance = none ∧ ∀ t ∈ l, ∀ data, OfTask platform tasksData t data → ¬ Waits platform data) ∨
        ∃ pre t post data node, l = pre ++ t :: post ∧ OfTask platform tasksData t data ∧
          Waits platform data ∧ node ∈ platform.nodeCpus.keys ∧ balance = some (t.task, node) ∧
          ∀ t' ∈ pre, ∀ data, OfTask platform tasksData t' data → ¬ Waits platform data) := by
  induction l with
  | nil => exact ⟨none, rfl, .inl ⟨rfl, fun t ht => absurd ht List.not_mem_nil⟩⟩
  | cons t l ih =>
    obtain ⟨data, hof⟩ := hl t List.mem_cons_self
    have hl' : ∀ t' ∈ l, ∃ data, OfTask platform tasksData t' data :=
      fun t' ht' => hl t' (List.mem_cons_of_mem t ht')
    rw [List.foldlM_cons, analyse_eq hself hc hof]
    by_cases hw : Waits platform data
    · have hpos : 0 < t.memoryLimit := by
        rw [hof.limit]
        exact lt_of_le_of_ne (memoryLimit_nonneg (hc _ _ hof.get?)) (Ne.symm hw.2)
      obtain ⟨node, hnode, hbest⟩ := getBestMemoryNode_ok ht.numbered hpos hbalanced
      rw [if_pos ⟨hw, rfl⟩, hbest, except_ok_bind, except_pure, except_ok_bind]
      refine ⟨_, foldlM_analyse_some hc hl' _, .inr ?_⟩
      exact ⟨[], t, l, data, node, rfl, hof, hw, hnode, rfl, fun t' ht' => absurd ht' List.not_mem_nil⟩
    · have hskip : ∀ data', OfTask platform tasksData t data' → ¬ Waits platform data' := by
        intro data' hof'
        cases hof.get?.symm.trans hof'.get?
        exact hw
      rw [if_neg fun h => hw h.1, except_pure, except_ok_bind]
      obtain ⟨balance, hfold, hnone | ⟨pre, t', post, data', node, rfl, hof', hw', hnode, hb, hpre⟩⟩ :=
        ih hl'
      · exact ⟨balance, hfold, .inl ⟨hnone.1, List.forall_mem_cons.mpr ⟨hskip, hnone.2⟩⟩⟩
      · refine ⟨balance, hfold, .inr ⟨t :: pre, t', post, data', node, rfl, hof', hw', hnode, hb, ?_⟩⟩
        exact List.forall_mem_cons.mpr ⟨hskip, hpre⟩

/-! ## The allocations -/

/-- Pages are counted for every task there is. -/
def Counts (tasksData : TasksData) (pagesToMove : PagesToMove) : Prop :=
  ∀ task ∈ tasksData.keys, task ∈ pagesToMove.keys

variable (platform) in
theorem counts_updatePagesToMove (pagesToMove : PagesToMove) :
    Counts tasksData (NUMAAllocator.updatePagesToMove tasksData
      (buildTasksMemory tasksData platform) pagesToMove) := by
  have hdefault : ∀ (l : List TaskMemory) (d : PagesToMove) (task : TaskId),
      task ∈ d.keys ∨ (∃ t ∈ l, t.task = task) →
      task ∈ (l.foldl (fun d t => if t.task ∈ d then d else d.set t.task 0) d).keys := by
    intro l
    induction l with
    | nil =>
      intro d task h
      exact h.resolve_right fun ⟨t, ht, _⟩ => absurd ht List.not_mem_nil
    | cons t l ih =>
      intro d task h
      apply ih
      dsimp only
      by_cases hmem : t.task ∈ d
      · rw [if_pos hmem]
        obtain h | ⟨t', ht', rfl⟩ := h
        · exact .inl h
        · obtain rfl | ht' := List.mem_cons.mp ht'
          · exact .inl hmem
          · exact .inr ⟨t', ht', rfl⟩
      · rw [if_neg hmem, Dict.mem_keys_set]
        obtain h | ⟨t', ht', rfl⟩ := h
        · exact .inl (.inr h)
        · obtain rfl | ht' := List.mem_cons.mp ht'
          · exact .inl (.inl rfl)
          · exact .inr ⟨t', ht', rfl⟩
  have hforget : ∀ (l : List (TaskId × ℚ)) (d : PagesToMove) (task : TaskId),
      task ∈ tasksData.keys → task ∈ d.keys →
      task ∈ (l.foldl (fun kept p => if p.1 ∈ tasksData then kept else kept.erase p.1) d).keys := by
    intro l
    induction l with
    | nil => exact fun d task _ h => h
    | cons p l ih =>
      intro d task hkey h
      apply ih _ task hkey
      dsimp only
      by_cases hmem : p.1 ∈ tasksData
      · rw [if_pos hmem]
        exact h
      · have hne : task ≠ p.1 := fun he => hmem (he ▸ hkey)
        rw [if_neg hmem, Dict.mem_keys_iff_get?, Dict.get?_erase, if_neg hne]
        exact Dict.mem_keys_iff_get?.mp h
  intro task hkey
  obtain ⟨data, hdata⟩ := Dict.mem_keys_iff_get?.mp hkey
  obtain ⟨t, ht, he, -⟩ := exists_mem_buildTasksMemory platform hdata
  exact hforget _ _ task hkey (hdefault _ _ task (.inr ⟨t, ht, he⟩))

theorem addPagesToMove_ok {pagesToMove : PagesToMove} (h : Counts tasksData pagesToMove)
    {task : TaskId} (htask : task ∈ tasksData.keys) (pages : ℚ) :
    ∃ pagesToMove', NUMAAllocator.addPagesToMove pagesToMove task pages = .ok pagesToMove' ∧
      Counts tasksData pagesToMove' := by
  obtain ⟨moved, hmoved⟩ := Dict.mem_keys_iff_get?.mp (h task htask)
  rw [NUMAAllocator.addPagesToMove, Dict.item_ok_iff.mpr hmoved]
  exact ⟨_, rfl, fun task' htask' => Dict.mem_keys_set.mpr (.inr (h task' htask'))⟩

theorem getPagesToMove_ok (hc : Complete tasksData) {task : TaskId} (htask : task ∈ tasksData.keys)
    (node : NumaNodeId) : ∃ pages, getPagesToMove task tasksData node = .ok pages := by
  obtain ⟨data, hdata⟩ := Dict.mem_keys_iff_get?.mp htask
  obtain ⟨pages, hpages⟩ := (hc task data hdata).pages
  rw [getPagesToMove, Dict.item_ok_iff.mpr hdata, except_ok_bind, numaPages, hpages]
  exact ⟨_, rfl⟩

/-- The two options for cgroups may not be set together. -/
theorem bindTask_error (hbinding : self.cgroupsMemoryBinding = true)
    (hmigrate : self.cgroupsMemoryMigrate = true) (node : NumaNodeId) (cpus : List ℤ) :
    self.bindTask node cpus = .error (.AttributeError "CPUSET_MEM_MIGRATE") := by
  rw [NUMAAllocator.bindTask, hbinding, hmigrate]
  rfl

/-- The cpus and the memory of a node. -/
structure BoundTo (node : NumaNodeId) (cpus : List ℤ) (a : TaskAllocations) : Prop where
  returned : a.get? .CPUSET_CPUS = some (.str (encodeListformat cpus.toFinset))
  values : ∀ t raw, a.get? t = some raw →
    t = .CPUSET_CPUS ∧ raw = .str (encodeListformat cpus.toFinset) ∨
      t = .CPUSET_MEMS ∧ raw = .str (encodeListformat {node})

theorem bindTask_ok (hself : ¬ (self.cgroupsMemoryBinding = true ∧ self.cgroupsMemoryMigrate = true))
    (node : NumaNodeId) (cpus : List ℤ) :
    ∃ a, self.bindTask node cpus = .ok a ∧ BoundTo node cpus a := by
  have hcpus : ∀ t raw, ((∅ : TaskAllocations).set .CPUSET_CPUS
      (.str (encodeListformat cpus.toFinset))).get? t = some raw →
      t = .CPUSET_CPUS ∧ raw = .str (encodeListformat cpus.toFinset) := by
    intro t raw hraw
    rw [Dict.get?_set] at hraw
    split at hraw
    · next ht => exact ⟨ht, (Option.some.inj hraw).symm⟩
    · cases hraw
  rw [NUMAAllocator.bindTask]
  split
  · next hbinding =>
    rw [if_neg fun hmigrate => hself ⟨hbinding, hmigrate⟩]
    refine ⟨_, rfl, ?_, fun t raw hraw => ?_⟩
    · rw [Dict.get?_set_of_ne (by decide), Dict.get?_set_self]
    · rw [Dict.get?_set] at hraw
      split at hraw
      · next ht => exact .inr ⟨ht, (Option.some.inj hraw).symm⟩
      · exact .inl (hcpus t raw hraw)
  · exact ⟨_, rfl, Dict.get?_set_self, fun t raw hraw => .inl (hcpus t raw hraw)⟩

theorem returnedValue_set {allocations : TasksAllocations} {task task' : TaskId}
    {a : TaskAllocations} {t : AllocationType} : returnedValue (allocations.set task a) task' t =
      if task' = task then a.get? t else returnedValue allocations task' t := by
  rw [returnedValue, Dict.get?_set]
  split <;> rfl

/-- The task that was chosen gets the cpus and the memory of its node, and its pages are moved. -/
theorem allocateTask_ok (hself : ¬ (self.cgroupsMemoryBinding = true ∧ self.cgroupsMemoryMigrate = true))
    (hc : Complete tasksData) {task : TaskId} {node : NumaNodeId} (htask : task ∈ tasksData.keys)
    {cpus : List ℤ} (hcpus : platform.nodeCpus.get? node = some cpus) {pagesToMove : PagesToMove}
    (hcounts : Counts tasksData pagesToMove) :
    ∃ s a, self.allocateTask task node tasksData platform pagesToMove = .ok s ∧
      BoundTo node cpus a ∧ Counts tasksData s.2 ∧
      (∀ task' ≠ task, ∀ t, returnedValue s.1 task' t = none) ∧
      ∀ t, returnedValue s.1 task t = a.get? t ∨
        t = .MIGRATE_PAGES ∧ returnedValue s.1 task t = some (.num (.int node)) := by
  obtain ⟨a, ha, hbound⟩ := bindTask_ok hself node cpus
  obtain ⟨pages, hpages⟩ := getPagesToMove_ok hc htask node
  obtain ⟨pagesToMove', hadd, hcounts'⟩ := addPagesToMove_ok hcounts htask pages
  rw [NUMAAllocator.allocateTask, Dict.item_ok_iff.mpr hcpus, except_ok_bind, ha, except_ok_bind]
  split
  · rw [hpages, except_ok_bind, hadd, except_ok_bind]
    refine ⟨_, a, rfl, hbound, hcounts', fun task' hne t => ?_, fun t => ?_⟩
    · rw [returnedValue_set, if_neg hne]
      rfl
    · rw [returnedValue_set, if_pos rfl, Dict.get?_set]
      split
      · next ht => exact .inr ⟨ht, rfl⟩
      · exact .inl rfl
  · refine ⟨_, a, rfl, hbound, hcounts, fun task' hne t => ?_, fun t => ?_⟩
    · rw [returnedValue_set, if_neg hne]
      rfl
    · rw [returnedValue_set, if_pos rfl]
      exact .inl rfl

/-- The cpus that are returned are those of the node, for the task that was chosen. -/
theorem allocateChosen_ok (hself : FillsBiggestFirst self) (hc : Complete tasksData)
    {balance : Option (TaskId × NumaNodeId)}
    (hbalance : ∀ p ∈ balance, p.1 ∈ tasksData.keys ∧ p.2 ∈ platform.nodeCpus.keys)
    {pagesToMove : PagesToMove} (hcounts : Counts tasksData pagesToMove) :
    ∃ s, self.allocateChosen balance tasksData platform pagesToMove = .ok s ∧
      Counts tasksData s.2 ∧
      (balance = none → ∀ task, returnedCpus s.1 task = none) ∧
      ∀ task node, balance = some (task, node) → ∃ cpus,
        platform.nodeCpus.get? node = some cpus ∧ ∀ task', returnedCpus s.1 task' =
          if task' = task then some (.str (encodeListformat cpus.toFinset)) else none := by
  cases balance with
  | none =>
    refine ⟨(∅, pagesToMove), rfl, hcounts, fun _ _ => rfl, fun task node h => ?_⟩
    exact absurd h.symm (Option.some_ne_none _)
  | some p =>
    obtain ⟨task, node⟩ := p
    obtain ⟨htask, hnode⟩ := hbalance _ rfl
    obtain ⟨cpus, hcpus⟩ := Dict.mem_keys_iff_get?.mp hnode
    have hoptions : ¬ (self.cgroupsMemoryBinding = true ∧ self.cgroupsMemoryMigrate = true) :=
      fun h => Bool.false_ne_true (hself.cgroupsMemoryMigrate.symm.trans h.2)
    obtain ⟨s, a, hs, hbound, hcounts', hothers, hvalues⟩ :=
      allocateTask_ok hoptions hc htask hcpus hcounts
    refine ⟨s, hs, hcounts', fun h => absurd h (Option.some_ne_none _), fun task' node' h => ?_⟩
    cases h
    refine ⟨cpus, hcpus, fun task' => ?_⟩
    split
    · next heq =>
      rw [heq, ← hbound.returned]
      exact (hvalues .CPUSET_CPUS).resolve_right fun h => (nomatch h.1)
    · next hne => exact hothers task' hne .CPUSET_CPUS

/-! ## Moving pages -/

theorem tasksToBalance_ok (ht : Numbered platform) (hc : Complete tasksData) (minTaskBalance : ℚ) :
    ∃ tasks, NUMAAllocator.tasksToBalance minTaskBalance tasksData
      (buildTasksMemory tasksData platform) platform = .ok tasks ∧
      ∀ p ∈ tasks, p.1 ∈ tasksData.keys ∧ p.2 ∈ platform.nodeCpus.keys := by
  refine except_foldlM_returns (fun p hp => absurd hp List.not_mem_nil) ?_
  intro t hmem tasks htasks
  obtain ⟨data, hof⟩ := of_mem_buildTasksMemory ht hmem
  obtain ⟨node, hnode, -, hkey⟩ := getCurrentNode_ok platform (hc _ _ hof.get?).cpus
  rw [Dict.item_ok_iff.mpr hof.get?, except_ok_bind, hnode, except_ok_bind]
  split
  · case isTrue hle =>
    obtain ⟨preference, hitem, -⟩ := hof.hasNodes.item_ok (hkey hle)
    rw [hitem, except_ok_bind]
    refine ⟨_, rfl, ?_⟩
    split
    · refine List.forall_mem_append.mpr ⟨htasks, List.forall_mem_singleton.mpr ?_⟩
      exact ⟨Dict.mem_keys_iff_get?.mpr ⟨data, hof.get?⟩, hkey hle⟩
    · exact htasks
  · exact ⟨_, rfl, htasks⟩

theorem getLeastUsedNode_ok (hfree : platform.memNumaFreeBytes.items ≠ []) :
    ∃ node, getLeastUsedNode platform = .ok node := by
  rw [getLeastUsedNode]
  cases hl : sortedByDesc Prod.snd platform.memNumaFreeBytes.items with
  | nil =>
    have hperm := sortedByDesc_perm Prod.snd platform.memNumaFreeBytes.items
    rw [hl] at hperm
    exact absurd hperm.nil_eq.symm hfree
  | cons p l => exact ⟨p.1, rfl⟩

/-- Values are as they were, apart from nodes that pages are moved to. -/
def OnlyMoves (platform : MeasuredPlatform) (allocations allocations' : TasksAllocations) : Prop :=
  ∀ task t, returnedValue allocations' task t = returnedValue allocations task t ∨
    t = .MIGRATE_PAGES ∧ ∃ node ∈ platform.nodeCpus.keys,
      returnedValue allocations' task t = some (.num (.int node))

theorem OnlyMoves.returnedCpus {allocations allocations' : TasksAllocations}
    (h : OnlyMoves platform allocations allocations') (task : TaskId) :
    returnedCpus allocations' task = returnedCpus allocations task :=
  (h task .CPUSET_CPUS).resolve_right fun h => (nomatch h.1)

theorem OnlyMoves.set {allocations allocations' : TasksAllocations} {task : TaskId}
    {node : NumaNodeId} (h : OnlyMoves platform allocations allocations')
    (hnode : node ∈ platform.nodeCpus.keys) :
    OnlyMoves platform allocations (allocations'.set task
      (((allocations'.get? task).getD ∅).set .MIGRATE_PAGES (.num (.int node)))) := by
  intro task' t
  rw [returnedValue_set]
  split
  · next heq =>
    rw [Dict.get?_set]
    split
    · next ht => exact .inr ⟨ht, node, hnode, rfl⟩
    · have hsame : ((allocations'.get? task).getD ∅).get? t = returnedValue allocations' task t := by
        rw [returnedValue]
        cases allocations'.get? task <;> rfl
      rw [hsame, heq]
      exact h task t
  · exact h task' t

variable (self) in
/-- Moving pages leaves the other values that are returned as they are. -/
theorem remigratePages_ok (ht : Numbered platform) (hfree : platform.memNumaFreeBytes.items ≠ [])
    (hc : Complete tasksData) {s : TasksAllocations × PagesToMove} (hcounts : Counts tasksData s.2) :
    ∃ s', self.remigratePages tasksData (buildTasksMemory tasksData platform) platform s = .ok s' ∧
      OnlyMoves platform s.1 s'.1 := by
  rw [NUMAAllocator.remigratePages]
  split
  · case h_1 minTaskBalance _ _ =>
    obtain ⟨tasks, htasks, hmem⟩ := tasksToBalance_ok ht hc minTaskBalance
    obtain ⟨leastUsedNode, hleast⟩ := getLeastUsedNode_ok hfree
    rw [NUMAAllocator.remigratePagesOfUnbalancedTasks, htasks, except_ok_bind, hleast,
      except_ok_bind]
    refine Exists.imp (fun s' h => ⟨h.1, h.2.1⟩) (except_foldlM_returns
      (I := fun s' : TasksAllocations × PagesToMove =>
        OnlyMoves platform s.1 s'.1 ∧ Counts tasksData s'.2)
      ⟨fun _ _ => .inl rfl, hcounts⟩ ?_)
    rintro p hp s' ⟨hsame, hcounts'⟩
    split
    · obtain ⟨pages, hpages⟩ := getPagesToMove_ok hc (hmem p hp).1 p.2
      obtain ⟨pagesToMove', hadd, hcounts''⟩ := addPagesToMove_ok hcounts' (hmem p hp).1 pages
      rw [hpages, except_ok_bind, hadd, except_ok_bind]
      exact ⟨_, rfl, hsame.set (hmem p hp).2, hcounts''⟩
    · exact ⟨s', rfl, hsame, hcounts'⟩
  · exact ⟨s, rfl, fun _ _ => .inl rfl⟩

/-! ## A call -/

/-- A call that pins a task: one that waits, with the largest limit of those, to a node. -/
structure Pins (platform : MeasuredPlatform) (tasksData : TasksData) (allocations : TasksAllocations)
    (task : TaskId) (data : TaskData) (node : NumaNodeId) (cpus : List ℤ) : Prop where
  get? : tasksData.get? task = some data
  waits : Waits platform data
  biggest : ∀ task' data', tasksData.get? task' = some data' → Waits platform data' →
    memoryLimit platform data' ≤ memoryLimit platform data
  node : platform.nodeCpus.get? node = some cpus
  returned : ∀ task', returnedCpus allocations task' =
    if task' = task then some (.str (encodeListformat cpus.toFinset)) else none

theorem mem_waiting {task : TaskId} : task ∈ waiting platform tasksData ↔
    ∃ data, tasksData.get? task = some data ∧ Waits platform data := by
  rw [waiting, List.mem_map]
  constructor
  · rintro ⟨⟨task, data⟩, hmem, rfl⟩
    obtain ⟨hitem, hwaits⟩ := List.mem_filter.mp hmem
    exact ⟨data, Dict.get?_eq_some_iff.mpr hitem, of_decide_eq_true hwaits⟩
  · rintro ⟨data, hget, hwaits⟩
    refine ⟨(task, data), List.mem_filter.mpr ⟨Dict.get?_eq_some_iff.mp hget, ?_⟩, rfl⟩
    exact decide_eq_true hwaits

variable (runtime) in
theorem allocate_ok (hself : FillsBiggestFirst self) (ht : Topology platform)
    (hc : Complete tasksData) (pagesToMove : PagesToMove) :
    ∃ s, self.allocate runtime platform tasksData pagesToMove = .ok s ∧
      ((waiting platform tasksData = [] ∧ ∀ task, returnedCpus s.1 task = none) ∨
        ∃ task data node cpus, Pins platform tasksData s.1 task data node cpus) := by
  obtain ⟨balancedMemory, hbuild, hbalanced⟩ := buildBalancedMemory_ok ht.numbered hc
  have hof : ∀ t ∈ buildTasksMemory tasksData platform, ∃ data, OfTask platform tasksData t data :=
    fun _ hmem => of_mem_buildTasksMemory ht.numbered hmem
  obtain ⟨balance, hfold, hchoice⟩ := foldlM_analyse runtime hself ht hc hof hbalanced
  have hchosen : ∀ p ∈ balance, p.1 ∈ tasksData.keys ∧ p.2 ∈ platform.nodeCpus.keys := by
    intro p hp
    obtain ⟨rfl, -⟩ | ⟨pre, t, post, data, node, -, ht, -, hnode, rfl, -⟩ := hchoice
    · exact absurd hp.symm (Option.some_ne_none p)
    · cases hp
      exact ⟨Dict.mem_keys_iff_get?.mpr ⟨data, ht.get?⟩, hnode⟩
  obtain ⟨s, hs, hcounts, hnone, hsome⟩ := allocateChosen_ok hself hc hchosen
    (counts_updatePagesToMove platform pagesToMove)
  obtain ⟨s', hs', hmoves⟩ := remigratePages_ok self ht.numbered ht.measured hc hcounts
  refine ⟨s', ?_, ?_⟩
  · rw [NUMAAllocator.allocate, hbuild, except_ok_bind, hself.dryrun, if_neg Bool.false_ne_true,
      hfold, except_ok_bind]
    dsimp only
    rw [hs, except_ok_bind, hs']
  · obtain ⟨rfl, hwaits⟩ | ⟨pre, t, post, data, node, hl, ht, hw, hnode, rfl, hpre⟩ := hchoice
    · refine .inl ⟨List.eq_nil_iff_forall_not_mem.mpr fun task hmem => ?_, fun task => ?_⟩
      · obtain ⟨data, hdata, hw⟩ := mem_waiting.mp hmem
        obtain ⟨t, hbuilt, rfl, -⟩ := exists_mem_buildTasksMemory platform hdata
        obtain ⟨data', ht⟩ := hof t hbuilt
        cases hdata.symm.trans ht.get?
        exact hwaits t hbuilt data ht hw
      · rw [hmoves.returnedCpus, hnone rfl]
    · obtain ⟨cpus, hcpus, hreturned⟩ := hsome t.task node rfl
      refine .inr ⟨t.task, data, node, cpus, ht.get?, hw, fun task' data' hdata' hw' => ?_, hcpus,
        fun task' => (hmoves.returnedCpus task').trans (hreturned task')⟩
      -- the tasks before it do not wait, and those after it have no larger limits
      obtain ⟨t', hmem, rfl, hlimit⟩ := exists_mem_buildTasksMemory platform hdata'
      have hsorted : (buildTasksMemory tasksData platform).Pairwise
          fun a b => b.memoryLimit ≤ a.memoryLimit := pairwise_sortedByDesc _ _
      rw [hl] at hmem hsorted
      rw [← hlimit, ← ht.limit]
      obtain hmem | hmem := List.mem_append.mp hmem
      · obtain ⟨data'', ht'⟩ := hof t' (hl ▸ List.mem_append_left _ hmem)
        cases hdata'.symm.trans ht'.get?
        exact absurd hw' (hpre t' hmem data' ht')
      · obtain rfl | hmem := List.mem_cons.mp hmem
        · exact le_rfl
        · exact (List.pairwise_cons.mp (List.pairwise_append.mp hsorted).2.1).1 t' hmem

/-! ## Applying the allocations -/

/-- The data of a task after its allocations have been applied. -/
def TaskData.applied (data : TaskData) (allocations : TasksAllocations) (task : TaskId) : TaskData :=
  { data with allocations := data.allocations.update ((allocations.get? task).getD ∅) }

theorem get?_applied {allocations : TasksAllocations} {task : TaskId} :
    (applied tasksData allocations).get? task =
      (tasksData.get? task).map fun data => data.applied allocations task := Dict.get?_map

theorem cpus_applied {data : TaskData} {allocations : TasksAllocations} {task : TaskId} :
    (data.applied allocations task).allocations.get? .CPUSET_CPUS =
      (returnedCpus allocations task).or (data.allocations.get? .CPUSET_CPUS) := by
  rw [TaskData.applied, Dict.get?_update, returnedCpus]
  cases allocations.get? task <;> rfl

/-- Whether a task is pinned is a matter of its cpus. -/
theorem pinnedTo_congr {data data' : TaskData}
    (h : data'.allocations.get? .CPUSET_CPUS = data.allocations.get? .CPUSET_CPUS) :
    pinnedTo platform data' = pinnedTo platform data := by
  rw [pinnedTo, pinnedTo, getCurrentNode, getCurrentNode, cpusetCpus, cpusetCpus, Dict.item,
    Dict.item, h]

theorem pinnedTo_applied {data : TaskData} {allocations : TasksAllocations} {task : TaskId}
    (h : returnedCpus allocations task = none) :
    pinnedTo platform (data.applied allocations task) = pinnedTo platform data := by
  apply pinnedTo_congr
  rw [cpus_applied, h, Option.none_or]

theorem waits_applied {data : TaskData} {allocations : TasksAllocations} {task : TaskId}
    (h : returnedCpus allocations task = none) :
    Waits platform (data.applied allocations task) ↔ Waits platform data := by
  rw [Waits, pinnedTo_applied h]
  rfl

section Pins

variable {allocations : TasksAllocations} {task : TaskId} {data : TaskData} {node : NumaNodeId}
  {cpus : List ℤ}

theorem Pins.pinnedTo (h : Pins platform tasksData allocations task data node cpus)
    (ht : Topology platform) : pinnedTo platform (data.applied allocations task) = some node := by
  apply pinnedTo_of_node ht h.node
  rw [cpus_applied, h.returned, if_pos rfl, Option.some_or]

theorem Pins.cpus_eq (h : Pins platform tasksData allocations task data node cpus)
    (ht : Topology platform) (task' : TaskId) :
    returnedCpus allocations task' = none ∨ ∃ text cpus,
      returnedCpus allocations task' = some (.str text) ∧ decodeListformat text = .ok cpus := by
  rw [h.returned]
  split
  · refine .inr ⟨_, cpus.toFinset, rfl, decodeListformat_encodeListformat fun cpu hcpu => ?_⟩
    exact ht.cpus_nonneg node cpus h.node cpu (List.mem_toFinset.mp hcpu)
  · exact .inl rfl

/-- The task that is pinned waits no longer, and the others wait as before. -/
theorem Pins.waiting (h : Pins platform tasksData allocations task data node cpus)
    (ht : Topology platform) :
    waiting platform (applied tasksData allocations) = (waiting platform tasksData).erase task := by
  have hnd : (Wca.waiting platform tasksData).Nodup :=
    tasksData.nodup.sublist (List.filter_sublist.map _)
  have hcond : ∀ item ∈ tasksData.items,
      decide (Waits platform (item.2.applied allocations item.1)) =
        (decide (item.1 ≠ task) && decide (Waits platform item.2)) := by
    intro item hitem
    by_cases he : item.1 = task
    · obtain ⟨task', data'⟩ := item
      cases he
      cases h.get?.symm.trans (Dict.get?_eq_some_iff.mpr hitem)
      have hnot : ¬ Waits platform (data.applied allocations task') := by
        rw [Waits, h.pinnedTo ht]
        exact fun hw => Option.some_ne_none _ hw.1
      simpa using hnot
    · have hreturned : returnedCpus allocations item.1 = none := by rw [h.returned, if_neg he]
      simp [he, waits_applied hreturned]
  rw [hnd.erase_eq_filter, Wca.waiting, Wca.waiting, applied, Dict.items_map, List.filter_map,
    List.map_map, List.filter_map, List.filter_filter]
  refine congrArg₂ _ rfl (List.filter_congr fun item hitem => ?_)
  refine (hcond item hitem).trans ?_
  by_cases he : item.1 = task <;> simp [he]

end Pins

/-- Where no cpus are returned nothing changes for the tasks that wait. -/
theorem waiting_applied {allocations : TasksAllocations}
    (h : ∀ task, returnedCpus allocations task = none) :
    waiting platform (applied tasksData allocations) = waiting platform tasksData := by
  rw [waiting, waiting, applied, Dict.items_map, List.filter_map, List.map_map]
  refine congrArg₂ _ rfl (List.filter_congr fun item _ => ?_)
  exact decide_eq_decide.mpr (waits_applied (h item.1))

/-- The tasks stay complete when what is returned is in the list format. -/
theorem complete_applied (hc : Complete tasksData) {allocations : TasksAllocations}
    (h : ∀ task, returnedCpus allocations task = none ∨ ∃ text cpus,
      returnedCpus allocations task = some (.str text) ∧ decodeListformat text = .ok cpus) :
    Complete (applied tasksData allocations) := by
  intro task data hget
  rw [get?_applied] at hget
  obtain ⟨data', hget', rfl⟩ := Option.map_eq_some_iff.mp hget
  have hdata := hc task data' hget'
  refine ⟨?_, hdata.pages, hdata.mem_nonneg, hdata.limits_nonneg⟩
  rw [cpus_applied]
  obtain hnone | ⟨text, cpus, hsome, hdecode⟩ := h task
  · rw [hnone, Option.none_or]
    exact hdata.cpus
  · exact ⟨text, cpus, by rw [hsome, Option.some_or], hdecode⟩

/-! ## Runs -/

/-- The tasks and the pages after some calls, with what each returns applied before the next. -/
def NUMAAllocator.run (self : NUMAAllocator) (runtime : Runtime) (platform : MeasuredPlatform)
    (s : TasksData × PagesToMove) : ℕ → Except Exn (TasksData × PagesToMove)
  | 0 => .ok s
  | k + 1 => do
    let s ← NUMAAllocator.run self runtime platform s k
    let returned ← self.allocate runtime platform s.1 s.2
    pure (Wca.applied s.1 returned.1, returned.2)

variable (runtime) in
theorem run_complete (hself : FillsBiggestFirst self) (ht : Topology platform)
    (hc : Complete tasksData) (pagesToMove : PagesToMove) (k : ℕ) :
    ∃ s, self.run runtime platform (tasksData, pagesToMove) k = .ok s ∧ Complete s.1 ∧
      (waiting platform s.1).length = (waiting platform tasksData).length - k := by
  induction k with
  | zero => exact ⟨_, rfl, hc, rfl⟩
  | succ k ih =>
    obtain ⟨s, hs, hcs, hlen⟩ := ih
    obtain ⟨returned, hreturned, hcall⟩ := allocate_ok runtime hself ht hcs s.2
    rw [NUMAAllocator.run, hs, except_ok_bind, hreturned, except_ok_bind]
    refine ⟨_, rfl, ?_, ?_⟩
    · apply complete_applied hcs
      obtain ⟨-, hnone⟩ | ⟨task, data, node, cpus, hpins⟩ := hcall
      · exact fun task => .inl (hnone task)
      · exact hpins.cpus_eq ht
    · obtain ⟨hempty, hnone⟩ | ⟨task, data, node, cpus, hpins⟩ := hcall
      · rw [waiting_applied hnone]
        rw [hempty, List.length_nil] at hlen ⊢
        omega
      · rw [hpins.waiting ht, List.length_erase_of_mem (mem_waiting.mpr ⟨data, hpins.get?, hpins.waits⟩)]
        omega

variable (runtime) in
/-- Every call pins one task of those that wait, one with the largest limit, and no other; when no
task waits it pins none. A pinned task is left where it is. So there is one task less waiting after
each call until there is none. -/
theorem NUMAAllocator.monotone_progress (hself : FillsBiggestFirst self) (ht : Topology platform)
    (hc : Complete tasksData) (pagesToMove : PagesToMove) (k : ℕ) :
    ∃ d pages returned, self.run runtime platform (tasksData, pagesToMove) k = .ok (d, pages) ∧
      self.allocate runtime platform d pages = .ok returned ∧
      self.run runtime platform (tasksData, pagesToMove) (k + 1) =
        .ok (applied d returned.1, returned.2) ∧
      (waiting platform d).length = (waiting platform tasksData).length - k ∧
      (waiting platform d = [] → ∀ task, returnedCpus returned.1 task = none) ∧
      (waiting platform d ≠ [] → ∃ task data, task ∈ waiting platform d ∧
        d.get? task = some data ∧
        (∀ task' ∈ waiting platform d, ∀ data', d.get? task' = some data' →
          memoryLimit platform data' ≤ memoryLimit platform data) ∧
        (∀ task', (returnedCpus returned.1 task').isSome ↔ task' = task) ∧
        (∃ data' node, (applied d returned.1).get? task = some data' ∧
          pinnedTo platform data' = some node) ∧
        waiting platform (applied d returned.1) = (waiting platform d).erase task) ∧
      ∀ task data node, d.get? task = some data → pinnedTo platform data = some node →
        returnedCpus returned.1 task = none ∧ ∃ data', (applied d returned.1).get? task = some data' ∧
          pinnedTo platform data' = some node := by
  obtain ⟨⟨d, pages⟩, hs, hcs, hlen⟩ := run_complete runtime hself ht hc pagesToMove k
  obtain ⟨returned, hreturned, hcall⟩ := allocate_ok runtime hself ht hcs pages
  refine ⟨d, pages, returned, hs, hreturned, ?_, hlen, ?_, ?_, ?_⟩
  · rw [NUMAAllocator.run, hs, except_ok_bind, hreturned]
    rfl
  · intro hempty
    obtain ⟨-, hnone⟩ | ⟨task, data, node, cpus, hpins⟩ := hcall
    · exact hnone
    · have hmem := mem_waiting.mpr ⟨data, hpins.get?, hpins.waits⟩
      rw [hempty] at hmem
      exact absurd hmem List.not_mem_nil
  · intro hne
    obtain ⟨hempty, -⟩ | ⟨task, data, node, cpus, hpins⟩ := hcall
    · exact absurd hempty hne
    · refine ⟨task, data, mem_waiting.mpr ⟨data, hpins.get?, hpins.waits⟩, hpins.get?, ?_, ?_, ?_,
        hpins.waiting ht⟩
      · intro task' hmem data' hdata'
        obtain ⟨data'', hdata'', hw⟩ := mem_waiting.mp hmem
        cases hdata'.symm.trans hdata''
        exact hpins.biggest task' data' hdata' hw
      · intro task'
        rw [hpins.returned]
        split <;> simp_all
      · refine ⟨_, node, ?_, hpins.pinnedTo ht⟩
        rw [get?_applied, hpins.get?, Option.map_some]
  · intro task data node hdata hpinned
    have hnone : returnedCpus returned.1 task = none := by
      obtain ⟨-, hnone⟩ | ⟨task', data', node', cpus, hpins⟩ := hcall
      · exact hnone task
      · rw [hpins.returned]
        refine if_neg fun he => ?_
        subst he
        cases hdata.symm.trans hpins.get?
        exact Option.some_ne_none node (hpinned.symm.trans hpins.waits.1)
    refine ⟨hnone, data.applied returned.1 task, ?_, (pinnedTo_applied hnone).trans hpinned⟩
    rw [get?_applied, hdata, Option.map_some]

end Calls

section

def twoNodes : MeasuredPlatform where
  sockets := 2
  cpus := 4
  numaNodes := 2
  nodeCpus := Dict.ofItems [(0, [0, 1]), (1, [2, 3])]
  rdtInformation := none
  swapEnabled := false
  memNumaFreeBytes := Dict.ofItems [(0, 30), (1, 40)]
  memNumaUsedBytes := Dict.ofItems [(0, 20), (1, 10)]

/-- A task on all cpus, with its pages on the first node. -/
def taskOnAllCpus (mem : ℚ) : TaskData where
  measurements := { memNumaPages := some (Dict.ofItems [(0, 1), (1, 0)]) }
  allocations := Dict.ofItems [(.CPUSET_CPUS, .str "0-3")]
  mem := some mem

def twoTasks : TasksData := Dict.ofItems [("small", taskOnAllCpus 5), ("big", taskOnAllCpus 9)]

/-- Logarithms by their first approximation. -/
def firstOrder : Runtime where
  log1p := fun x => x
  log10 := fun x => x - 1
  first := fun s => if h : s.Nonempty then s.min' h else 0
  first_mem := fun s hs => by
    rw [dif_pos (Finset.nonempty_iff_ne_empty.mpr hs)]
    exact s.min'_mem _

theorem topology_twoNodes : Topology twoNodes := by
  have hget : ∀ node cpus, twoNodes.nodeCpus.get? node = some cpus →
      node = 0 ∧ cpus = [0, 1] ∨ node = 1 ∧ cpus = [2, 3] := by
    intro node cpus h
    have hmem : (node, cpus) ∈ [((0 : ℤ), [(0 : ℤ), 1]), (1, [2, 3])] := Dict.get?_eq_some_iff.mp h
    simpa using hmem
  refine ⟨by decide, fun node => ?_, fun node cpus h => ?_, fun node node' cpus cpus' h h' hne => ?_,
    fun node cpus h => ?_, by decide⟩
  · change node ∈ [(0 : ℤ), 1] ↔ 0 ≤ node ∧ node < 2
    rw [List.mem_cons, List.mem_singleton]
    omega
  · obtain ⟨-, rfl⟩ | ⟨-, rfl⟩ := hget node cpus h <;> exact List.cons_ne_nil _ _
  · obtain ⟨rfl, rfl⟩ | ⟨rfl, rfl⟩ := hget node cpus h <;>
      obtain ⟨rfl, rfl⟩ | ⟨rfl, rfl⟩ := hget node' cpus' h' <;>
      first | exact absurd rfl hne | simp
  · obtain ⟨-, rfl⟩ | ⟨-, rfl⟩ := hget node cpus h <;> decide

/-- After one call one of the two tasks waits. -/
theorem NUMAAllocator.monotone_progress_twoTasks :
    (waiting twoNodes twoTasks).length = 2 ∧ ∃ d pages,
      ({} : NUMAAllocator).run firstOrder twoNodes (twoTasks, ∅) 1 = .ok (d, pages) ∧
        (waiting twoNodes d).length = 1 := by
  have hcomplete : Complete twoTasks := by
    intro task data h
    have hmem : (task, data) ∈ [("small", taskOnAllCpus 5), ("big", taskOnAllCpus 9)] :=
      Dict.get?_eq_some_iff.mp h
    have hdata : data = taskOnAllCpus 5 ∨ data = taskOnAllCpus 9 := by
      simp only [List.mem_cons, Prod.mk.injEq, List.not_mem_nil, or_false] at hmem
      exact hmem.imp And.right And.right
    have hlimits : ∀ mem, limitsOrder (taskOnAllCpus mem).measurements = [] := fun _ => rfl
    have hcpus : ∀ mem, ∃ text cpus, (taskOnAllCpus mem).allocations.get? .CPUSET_CPUS =
        some (.str text) ∧ decodeListformat text = .ok cpus :=
      fun _ => ⟨"0-3", {0, 1, 2, 3}, rfl, by decide⟩
    obtain rfl | rfl := hdata
    · refine ⟨hcpus 5, ⟨_, rfl⟩, fun mem hmem => ?_, fun limit hlimit => absurd hlimit List.not_mem_nil⟩
      cases hmem
      norm_num
    · refine ⟨hcpus 9, ⟨_, rfl⟩, fun mem hmem => ?_, fun limit hlimit => absurd hlimit List.not_mem_nil⟩
      cases hmem
      norm_num
  have hwaiting : (waiting twoNodes twoTasks).length = 2 := by decide +kernel
  have hfills : FillsBiggestFirst {} := ⟨rfl, rfl, rfl, rfl⟩
  obtain ⟨d, pages, -, hrun, -, -, hlen, -⟩ :=
    NUMAAllocator.monotone_progress firstOrder hfills topology_twoNodes hcomplete ∅ 1
  refine ⟨hwaiting, d, pages, hrun, ?_⟩
  rw [hlen, hwaiting]

end

end Wca
