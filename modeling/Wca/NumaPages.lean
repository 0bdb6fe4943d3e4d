import Wca.Cgroups
import Wca.Rows

/-!
# The measurements of a cgroup

`getMeasurements` reads the pages of each NUMA node from `memory.numa_stat`, first from the line
`hierarchical_total` and then, whatever it found there, from the line `total`. What it returns is
the documented choice between the two when they agree on the nodes of the second
(`getMeasurements_follows_iff`).
-/

namespace Wca

open Py

/-- What is measured of a cgroup. -/
inductive MetricName where
  | TASK_CPU_USAGE_SECONDS
  | TASK_MEM_USAGE_BYTES
  | TASK_MEM_MAX_USAGE_BYTES
  | TASK_MEM_LIMIT_BYTES
  | TASK_MEM_SOFT_LIMIT_BYTES
  | TASK_MEM_PAGE_FAULTS
  | TASK_MEM_NUMA_PAGES
  deriving DecidableEq

inductive MeasuredValue where
  | seconds (value : ℚ)
  | number (value : ℤ)
  | perNode (value : Dict ℤ ℤ)
  deriving DecidableEq

/-- The texts of the files that are read; a file that is missing is none. -/
structure MeasurementFiles where
  cpuUsage : Option String
  memoryUsage : Option String
  memoryMaxUsage : Option String
  memoryLimit : Option String
  memorySoftLimit : Option String
  memoryStat : Option String
  numaStat : Option String

namespace Cgroup

abbrev Measurements := Dict MetricName MeasuredValue

/-- The text of a file. -/
def openFile (file : Option String) (path : String) : Except Exc String :=
  match file with
  | some text => .ok text
  | none => .error (.MissingMeasurementException path)

/-- One number of a file. -/
def readNumber (file : Option String) (path : String) : Except Exc ℤ := do
  let text ← openFile file path
  Str.int 10 text

/-- `k, v = stat.split("=")`. -/
def unpackStat (stat : String) : Except Exn (String × String) :=
  match Str.split '=' stat with
  | [k, v] => .ok (k, v)
  | [_] => .error (.ValueError "not enough values to unpack (expected 2, got 1)")
  | _ => .error (.ValueError "too many values to unpack (expected 2)")

def setNode (measurements : Measurements) (k v : ℤ) : Measurements :=
  match measurements.get? .TASK_MEM_NUMA_PAGES with
  | some (.perNode pages) => measurements.set .TASK_MEM_NUMA_PAGES (.perNode (pages.set k v))
  | _ => measurements.set .TASK_MEM_NUMA_PAGES (.perNode ((∅ : Dict ℤ ℤ).set k v))

/-- One `node=pages` item of a line; the first character of the node is dropped. -/
def readStat (measurements : Measurements) (stat : String) : Except Exn Measurements := do
  let p ← unpackStat stat
  let k ← Str.int 10 (.ofList p.1.toList.tail)
  let v ← Str.int 10 p.2
  pure (setNode measurements k v)

/-- `get_metric`: the first line that starts with the metric, if there is one. -/
def getMetric (numaStat metric : String) (measurements : Measurements) : Except Exn Measurements :=
  match (Str.readlines numaStat).find? (Str.startsWith metric) with
  | some line => (Str.words line).tail.foldlM readStat measurements
  | none => .ok measurements

/-- The value of the first line that starts with `pgfault`. -/
def getPageFaults (memoryStat : String) (measurements : Measurements) : Except Exn Measurements :=
  match (Str.readlines memoryStat).find? (Str.startsWith "pgfault") with
  | some line =>
    match Str.words line with
    | [_, value] => do
      let value ← Str.int 10 value
      pure (measurements.set .TASK_MEM_PAGE_FAULTS (.number value))
    | [_] => .error (.ValueError "not enough values to unpack (expected 2, got 1)")
    | _ => .error (.ValueError "too many values to unpack (expected 2)")
  | none => .ok measurements

def getNumaPages (numaStat : String) (measurements : Measurements) : Except Exn Measurements := do
  -- the flag is never set, so the second scan is always made
  let hasHierarchicalMetrics := false
  let measurements ← getMetric numaStat "hierarchical_total=" measurements
  if ¬ hasHierarchicalMetrics then getMetric numaStat "total=" measurements else pure measurements

def getMeasurements (files : MeasurementFiles) : Except Exc Measurements := do
  let cpuUsage ← readNumber files.cpuUsage "cpuacct.usage"
  let usage ← readNumber files.memoryUsage "memory.usage_in_bytes"
  let maxUsage ← readNumber files.memoryMaxUsage "memory.max_usage_in_bytes"
  let limit ← readNumber files.memoryLimit "memory.limit_in_bytes"
  let softLimit ← readNumber files.memorySoftLimit "memory.soft_limit_in_bytes"
  let measurements : Measurements := Dict.ofItems [
    (.TASK_CPU_USAGE_SECONDS, .seconds (cpuUsage / 1000000000)),
    (.TASK_MEM_USAGE_BYTES, .number usage),
    (.TASK_MEM_MAX_USAGE_BYTES, .number maxUsage),
    (.TASK_MEM_LIMIT_BYTES, .number limit),
    (.TASK_MEM_SOFT_LIMIT_BYTES, .number softLimit)]
  let memoryStat ← openFile files.memoryStat "memory.stat"
  let measurements ← getPageFaults memoryStat measurements
  let numaStat ← openFile files.numaStat "memory.numa_stat"
  getNumaPages numaStat measurements

/-- The pages that are measured of a node. -/
def pagesOf (measurements : Measurements) (node : ℤ) : Option ℤ :=
  match measurements.get? .TASK_MEM_NUMA_PAGES with
  | some (.perNode pages) => pages.get? node
  | _ => none

end Cgroup

/-! ## The file of the kernel -/

/-- A line of `memory.numa_stat`: a counter with its total and its pages on each node. -/
structure StatLine where
  name : String
  total : ℕ
  nodes : List (ℕ × ℕ)
  deriving DecidableEq

namespace StatLine

variable (line : StatLine)

def nodeText (node : ℕ × ℕ) : String := "N" ++ toString node.1 ++ "=" ++ toString node.2

def text : String :=
  Str.join ' ' ((line.name ++ "=" ++ toString line.total) :: line.nodes.map nodeText)

/-- The pages that the line has for a node. -/
def pages (node : ℤ) : Option ℤ :=
  (line.nodes.find? fun p => (p.1 : ℤ) = node).map fun p => (p.2 : ℤ)

end StatLine

/-- The text of the file. -/
def numaStatText (lines : List StatLine) : String :=
  Str.join '\n' (lines.map StatLine.text ++ [""])

/-- Each counter has one line, and each node one place in it. -/
structure IsNumaStat (lines : List StatLine) : Prop where
  names : (lines.map StatLine.name).Nodup
  plain : ∀ line ∈ lines, ∀ c ∈ line.name.toList, Str.isSpace c = false ∧ c ≠ '='
  nodes : ∀ line ∈ lines, (line.nodes.map Prod.fst).Nodup

/-- The line of a counter. -/
def lineOf (lines : List StatLine) (name : String) : Option StatLine :=
  lines.find? fun line => line.name = name

/-- The measured pages are those of `hierarchical_total`, or of `total` where it is absent. -/
def FollowsChoice (lines : List StatLine) (measurements : Cgroup.Measurements) : Prop :=
  ∀ node, Cgroup.pagesOf measurements node =
    ((lineOf lines "hierarchical_total").or (lineOf lines "total")).bind fun line => line.pages node

section Text

variable {lines : List StatLine} {line : StatLine} {name : String}

theorem StatLine.exists_text (line : StatLine) : ∃ rest, line.text = line.name ++ "=" ++ rest := by
  have hjoin : ∀ (w : String) (ws : List String), ∃ rest, Str.join ' ' (w :: ws) = w ++ rest := by
    intro w ws
    cases ws with
    | nil =>
      refine ⟨"", String.toList_injective ?_⟩
      simp [Str.join]
    | cons w' ws =>
      refine ⟨" " ++ Str.join ' ' (w' :: ws), String.toList_injective ?_⟩
      simp [Str.join, List.intercalate_cons_cons]
  obtain ⟨rest, hrest⟩ := hjoin (line.name ++ "=" ++ toString line.total)
    (line.nodes.map StatLine.nodeText)
  refine ⟨toString line.total ++ rest, ?_⟩
  rw [StatLine.text, hrest, String.append_assoc]

/-- The lines that a scan stops at. -/
theorem StatLine.startsWith_text (hline : ∀ c ∈ line.name.toList, Str.isSpace c = false ∧ c ≠ '=')
    (hname : '=' ∉ name.toList) :
    Str.startsWith (name ++ "=") line.text = decide (line.name = name) := by
  obtain ⟨rest, hrest⟩ := line.exists_text
  have hself : Str.beforeFirst '=' line.text = line.name := by
    rw [hrest]
    exact Str.beforeFirst_of_not_mem fun hin => (hline '=' hin).2 rfl
  rw [Bool.eq_iff_iff, decide_eq_true_eq]
  constructor
  · intro h
    obtain ⟨rest', hrest'⟩ := Str.exists_of_startsWith h
    have hother : Str.beforeFirst '=' line.text = name := by
      rw [hrest']
      exact Str.beforeFirst_of_not_mem hname
    rw [← hself, hother]
  · rintro rfl
    rw [hrest]
    exact Str.startsWith_append _ _

theorem isSpace_toString {n : ℕ} {c : Char} (h : c ∈ (toString n).toList) : Str.isSpace c = false :=
  Str.isSpace_of_isDigit (Str.isDigit_of_mem_toString h)

/-- The words of a line have no white space in them. -/
theorem StatLine.plain_words (hline : ∀ c ∈ line.name.toList, Str.isSpace c = false ∧ c ≠ '=')
    {s : String}
    (hs : s ∈ (line.name ++ "=" ++ toString line.total) :: line.nodes.map StatLine.nodeText) :
    s ≠ "" ∧ ∀ c ∈ s.toList, Str.isSpace c = false := by
  have hne : ∀ a b : String, a ++ "=" ++ b ≠ "" := by
    intro a b he
    have hlist := congrArg String.toList he
    rw [String.toList_append, String.toList_append] at hlist
    exact absurd hlist (by simp)
  rcases List.mem_cons.mp hs with rfl | hs
  · refine ⟨hne _ _, fun c hc => ?_⟩
    rw [String.toList_append, String.toList_append, List.mem_append, List.mem_append] at hc
    rcases hc with (hc | hc) | hc
    · exact (hline c hc).1
    · rw [List.mem_singleton.mp hc]
      decide
    · exact isSpace_toString hc
  · obtain ⟨node, -, rfl⟩ := List.mem_map.mp hs
    refine ⟨hne _ _, fun c hc => ?_⟩
    rw [StatLine.nodeText, String.toList_append, String.toList_append, String.toList_append,
      List.mem_append, List.mem_append, List.mem_append] at hc
    rcases hc with ((hc | hc) | hc) | hc
    · rw [List.mem_singleton.mp hc]
      decide
    · exact isSpace_toString hc
    · rw [List.mem_singleton.mp hc]
      decide
    · exact isSpace_toString hc

theorem StatLine.words_text (hline : ∀ c ∈ line.name.toList, Str.isSpace c = false ∧ c ≠ '=') :
    (Str.words line.text).tail = line.nodes.map StatLine.nodeText := by
  rw [StatLine.text, Str.words_join (List.cons_ne_nil _ _) fun s hs => line.plain_words hline hs,
    List.tail_cons]

theorem StatLine.newline_not_mem_text
    (hline : ∀ c ∈ line.name.toList, Str.isSpace c = false ∧ c ≠ '=') :
    '\n' ∉ line.text.toList := by
  intro hin
  rw [StatLine.text, Str.join, String.toList_ofList] at hin
  rcases Str.mem_intercalate hin with hblank | ⟨cs, hcs, hmem⟩
  · exact absurd hblank (by decide)
  · obtain ⟨s, hs, rfl⟩ := List.mem_map.mp hcs
    exact absurd ((line.plain_words hline hs).2 _ hmem) (by decide)

/-- The line that a scan of the file reads. -/
theorem find?_readlines (h : IsNumaStat lines) (hname : '=' ∉ name.toList) :
    (Str.readlines (numaStatText lines)).find? (Str.startsWith (name ++ "=")) =
      (lineOf lines name).map StatLine.text := by
  have hlines : ∀ s ∈ lines.map StatLine.text, '\n' ∉ s.toList := by
    intro s hs
    obtain ⟨line, hline, rfl⟩ := List.mem_map.mp hs
    exact StatLine.newline_not_mem_text (h.plain line hline)
  rw [numaStatText, Str.readlines_join hlines, List.find?_map, lineOf]
  have hplain := h.plain
  clear hlines h
  congr 1
  induction lines with
  | nil => rfl
  | cons line lines ih =>
    obtain ⟨hline, hrest⟩ := List.forall_mem_cons.mp hplain
    have hstart := StatLine.startsWith_text hline hname
    rw [List.find?_cons, List.find?_cons, ih hrest, Function.comp_apply, hstart]

end Text

/-! ## What the scans measure -/

section Scan

variable {measurements : Cgroup.Measurements} {lines : List StatLine} {name : String}

theorem unpackStat_nodeText (node : ℕ × ℕ) : Cgroup.unpackStat (StatLine.nodeText node) =
    .ok ("N" ++ toString node.1, toString node.2) := by
  have hleft : '=' ∉ ("N" ++ toString node.1).toList := by
    rw [String.toList_append, List.mem_append]
    rintro (h | h)
    · exact absurd h (by decide)
    · exact Str.not_mem_toString (by decide) h
  have hright : '=' ∉ (toString node.2).toList := Str.not_mem_toString (by decide)
  have hsplit : Str.split '=' (StatLine.nodeText node) =
      ["N" ++ toString node.1, toString node.2] := by
    have happend := Str.split_append_cons '=' ("N" ++ toString node.1) (toString node.2)
    rw [Str.split_of_not_mem hleft, Str.split_of_not_mem hright] at happend
    exact happend
  rw [Cgroup.unpackStat, hsplit]

theorem readStat_nodeText (node : ℕ × ℕ) : Cgroup.readStat measurements (StatLine.nodeText node) =
    .ok (Cgroup.setNode measurements node.1 node.2) := by
  have htail : String.ofList ("N" ++ toString node.1).toList.tail = toString node.1 := by
    rw [String.toList_append]
    exact String.ofList_toList
  simp only [Cgroup.readStat, unpackStat_nodeText, except_ok_bind, htail, Str.int_toString,
    except_pure]

theorem pagesOf_setNode (k v node : ℤ) : Cgroup.pagesOf (Cgroup.setNode measurements k v) node =
    if node = k then some v else Cgroup.pagesOf measurements node := by
  have hempty : (∅ : Dict ℤ ℤ).get? node = none := rfl
  cases hget : measurements.get? .TASK_MEM_NUMA_PAGES with
  | none => simp [Cgroup.setNode, Cgroup.pagesOf, hget, Dict.get?_set, hempty]
  | some value => cases value <;> simp [Cgroup.setNode, Cgroup.pagesOf, hget, Dict.get?_set, hempty]

/-- A line that is read overwrites the pages of its nodes. -/
theorem exists_foldlM_readStat (nodes : List (ℕ × ℕ)) (hnodup : (nodes.map Prod.fst).Nodup)
    (measurements : Cgroup.Measurements) :
    ∃ measured, (nodes.map StatLine.nodeText).foldlM Cgroup.readStat measurements = .ok measured ∧
      ∀ node : ℤ, Cgroup.pagesOf measured node =
        ((nodes.find? fun p => (p.1 : ℤ) = node).map fun p => (p.2 : ℤ)).or
          (Cgroup.pagesOf measurements node) := by
  induction nodes generalizing measurements with
  | nil => exact ⟨measurements, rfl, fun _ => rfl⟩
  | cons p nodes ih =>
    rw [List.map_cons, List.nodup_cons] at hnodup
    obtain ⟨measured, hok, hpages⟩ := ih hnodup.2 (Cgroup.setNode measurements p.1 p.2)
    refine ⟨measured, ?_, fun node => ?_⟩
    · rw [List.map_cons, List.foldlM_cons, readStat_nodeText, except_ok_bind, hok]
    · rw [hpages, pagesOf_setNode, List.find?_cons]
      by_cases hp : (p.1 : ℤ) = node
      · -- the node is not named again
        have hnone : nodes.find? (fun q => decide ((q.1 : ℤ) = node)) = none := by
          refine List.find?_eq_none.mpr fun q hq hqn => hnodup.1 ?_
          have heq : (q.1 : ℤ) = p.1 := (of_decide_eq_true hqn).trans hp.symm
          exact List.mem_map.mpr ⟨q, hq, by exact_mod_cast heq⟩
        rw [hnone, if_pos hp.symm, decide_eq_true hp]
        rfl
      · rw [if_neg (Ne.symm hp), decide_eq_false hp]

/-- What one scan measures. -/
theorem exists_getMetric (h : IsNumaStat lines) (hname : '=' ∉ name.toList)
    (measurements : Cgroup.Measurements) :
    ∃ measured, Cgroup.getMetric (numaStatText lines) (name ++ "=") measurements = .ok measured ∧
      ∀ node, Cgroup.pagesOf measured node =
        ((lineOf lines name).bind fun line => line.pages node).or
          (Cgroup.pagesOf measurements node) := by
  rw [Cgroup.getMetric, find?_readlines h hname]
  cases hline : lineOf lines name with
  | none => exact ⟨measurements, rfl, fun _ => rfl⟩
  | some line =>
    have hmem : line ∈ lines := List.mem_of_find?_eq_some hline
    obtain ⟨measured, hok, hpages⟩ :=
      exists_foldlM_readStat line.nodes (h.nodes line hmem) measurements
    refine ⟨measured, ?_, hpages⟩
    simp only [Option.map_some, StatLine.words_text (h.plain line hmem), hok]

/-- What the two scans measure. -/
theorem exists_getNumaPages (h : IsNumaStat lines) (measurements : Cgroup.Measurements) :
    ∃ measured, Cgroup.getNumaPages (numaStatText lines) measurements = .ok measured ∧
      ∀ node, Cgroup.pagesOf measured node =
        ((lineOf lines "total").bind fun line => line.pages node).or
          (((lineOf lines "hierarchical_total").bind fun line => line.pages node).or
            (Cgroup.pagesOf measurements node)) := by
  obtain ⟨measured₁, hok₁, hpages₁⟩ :=
    @exists_getMetric lines "hierarchical_total" h (by decide) measurements
  obtain ⟨measured₂, hok₂, hpages₂⟩ := @exists_getMetric lines "total" h (by decide) measured₁
  refine ⟨measured₂, ?_, fun node => by rw [hpages₂, hpages₁]⟩
  have hfirst : Cgroup.getMetric (numaStatText lines) "hierarchical_total=" measurements =
    .ok measured₁ := hok₁
  have hsecond : Cgroup.getMetric (numaStatText lines) "total=" measured₁ = .ok measured₂ := hok₂
  rw [Cgroup.getNumaPages, hfirst, except_ok_bind, if_pos (by decide), hsecond]

/-- The other files set no pages. -/
theorem pagesOf_getPageFaults {memoryStat : String} {measured : Cgroup.Measurements}
    (h : Cgroup.getPageFaults memoryStat measurements = .ok measured) (node : ℤ) :
    Cgroup.pagesOf measured node = Cgroup.pagesOf measurements node := by
  unfold Cgroup.getPageFaults at h
  split at h
  · split at h
    · obtain ⟨value, -, hset⟩ := except_bind_ok_iff.mp h
      cases hset
      unfold Cgroup.pagesOf
      rw [Dict.get?_set_of_ne (by decide)]
    · cases h
    · cases h
  · cases h
    rfl

/-- The pages that are measured when all files can be read. -/
theorem pagesOf_getMeasurements {files : MeasurementFiles} (h : IsNumaStat lines)
    (hfile : files.numaStat = some (numaStatText lines))
    (hm : Cgroup.getMeasurements files = .ok measurements) (node : ℤ) :
    Cgroup.pagesOf measurements node =
      ((lineOf lines "total").bind fun line => line.pages node).or
        ((lineOf lines "hierarchical_total").bind fun line => line.pages node) := by
  unfold Cgroup.getMeasurements at hm
  obtain ⟨cpuUsage, -, hm⟩ := except_bind_ok_iff.mp hm
  obtain ⟨usage, -, hm⟩ := except_bind_ok_iff.mp hm
  obtain ⟨maxUsage, -, hm⟩ := except_bind_ok_iff.mp hm
  obtain ⟨limit, -, hm⟩ := except_bind_ok_iff.mp hm
  obtain ⟨softLimit, -, hm⟩ := except_bind_ok_iff.mp hm
  obtain ⟨memoryStat, -, hm⟩ := except_bind_ok_iff.mp hm
  obtain ⟨counted, hfaults, hm⟩ := except_bind_ok_iff.mp hm
  obtain ⟨numaStat, hopen, hm⟩ := except_bind_ok_iff.mp hm
  rw [hfile] at hopen
  cases hopen
  obtain ⟨measured, hok, hpages⟩ := exists_getNumaPages h counted
  have hsame : measurements = measured := by
    have hrun := liftM_ok_iff.mp hm
    rw [hok] at hrun
    exact (Except.ok.inj hrun).symm
  rw [hsame, hpages, pagesOf_getPageFaults (liftM_ok_iff.mp hfaults)]
  exact congrArg _ (Option.or_none)

theorem StatLine.exists_of_pages {line : StatLine} {node pages : ℤ}
    (h : line.pages node = some pages) :
    ∃ p ∈ line.nodes, (p.1 : ℤ) = node ∧ (p.2 : ℤ) = pages := by
  obtain ⟨p, hp, hpages⟩ := Option.map_eq_some_iff.mp h
  have hnode := List.find?_some hp
  exact ⟨p, List.mem_of_find?_eq_some hp, of_decide_eq_true hnode, hpages⟩

theorem StatLine.pages_eq_some_iff {line : StatLine} (h : (line.nodes.map Prod.fst).Nodup)
    {node pages : ℕ} : line.pages node = some (pages : ℤ) ↔ (node, pages) ∈ line.nodes := by
  constructor
  · intro hpages
    obtain ⟨p, hp, hnode, hvalue⟩ := StatLine.exists_of_pages hpages
    have hfst : p.1 = node := by exact_mod_cast hnode
    have hsnd : p.2 = pages := by exact_mod_cast hvalue
    rw [← hfst, ← hsnd]
    exact hp
  · intro hmem
    have hsome : (line.nodes.find? fun p => (p.1 : ℤ) = node).isSome = true :=
      List.find?_isSome.mpr ⟨(node, pages), hmem, decide_eq_true rfl⟩
    obtain ⟨p, hp⟩ := Option.isSome_iff_exists.mp hsome
    have hkey := List.find?_some hp
    have hfst : p.1 = node := by exact_mod_cast of_decide_eq_true hkey
    have hsame : p = (node, pages) :=
      List.inj_on_of_nodup_map h (List.mem_of_find?_eq_some hp) hmem hfst
    rw [StatLine.pages, hp, hsame]
    rfl

/-- The measured pages follow the documented choice exactly if `hierarchical_total` is absent or
has the pages of `total` on each node of `total`. -/
theorem getMeasurements_follows_iff {files : MeasurementFiles} (h : IsNumaStat lines)
    (hfile : files.numaStat = some (numaStatText lines))
    (hm : Cgroup.getMeasurements files = .ok measurements) :
    FollowsChoice lines measurements ↔
      ∀ hierarchical total, lineOf lines "hierarchical_total" = some hierarchical →
        lineOf lines "total" = some total → total.nodes ⊆ hierarchical.nodes := by
  have hpages := pagesOf_getMeasurements h hfile hm
  unfold FollowsChoice
  constructor
  · intro hfollows hierarchical total hhier htotal p hp
    have hnode := hfollows p.1
    have hread : total.pages p.1 = some (p.2 : ℤ) :=
      (StatLine.pages_eq_some_iff (h.nodes total (List.mem_of_find?_eq_some htotal))).mpr hp
    rw [hpages, hhier, htotal, Option.bind_some, hread] at hnode
    exact (StatLine.pages_eq_some_iff
      (h.nodes hierarchical (List.mem_of_find?_eq_some hhier))).mp hnode.symm
  · intro hsub node
    rw [hpages]
    cases hhier : lineOf lines "hierarchical_total" with
    | none => exact Option.or_none
    | some hierarchical =>
      cases htotal : lineOf lines "total" with
      | none => rfl
      | some total =>
        rw [Option.bind_some, Option.bind_some, Option.or_some, Option.bind_some]
        cases hread : total.pages node with
        | none => rfl
        | some pages =>
          obtain ⟨p, hp, rfl, rfl⟩ := StatLine.exists_of_pages hread
          exact ((StatLine.pages_eq_some_iff
            (h.nodes hierarchical (List.mem_of_find?_eq_some hhier))).mpr
              (hsub hierarchical total hhier htotal hp)).symm

/-! ### Two files -/

/-- The files of a cgroup in which only the pages matter. -/
def numaFiles (lines : List StatLine) : MeasurementFiles where
  cpuUsage := some "0"
  memoryUsage := some "0"
  memoryMaxUsage := some "0"
  memoryLimit := some "0"
  memorySoftLimit := some "0"
  memoryStat := some ""
  numaStat := some (numaStatText lines)

/-- A file with both totals. -/
def twoTotals (total hierarchical : List (ℕ × ℕ)) : List StatLine :=
  [⟨"total", (total.map Prod.snd).sum, total⟩,
    ⟨"hierarchical_total", (hierarchical.map Prod.snd).sum, hierarchical⟩]

theorem isNumaStat_twoTotals {total hierarchical : List (ℕ × ℕ)}
    (ht : (total.map Prod.fst).Nodup) (hh : (hierarchical.map Prod.fst).Nodup) :
    IsNumaStat (twoTotals total hierarchical) where
  names := (by decide : ["total", "hierarchical_total"].Nodup)
  plain := by
    have hplain : ∀ name ∈ ["total", "hierarchical_total"],
        name.toList.all (fun c => !Str.isSpace c && c != '=') = true := by
      simp only [List.forall_mem_cons]
      exact ⟨by decide, by decide, fun _ h => absurd h List.not_mem_nil⟩
    intro line hline c hc
    have hname : line.name ∈ ["total", "hierarchical_total"] := List.mem_map_of_mem hline
    have hchar := List.all_eq_true.mp (hplain _ hname) c hc
    rw [Bool.and_eq_true, Bool.not_eq_true', bne_iff_ne] at hchar
    exact hchar
  nodes := by
    intro line hline
    rcases List.mem_cons.mp hline with rfl | hline
    · exact ht
    · rw [List.mem_singleton.mp hline]
      exact hh

/-- Both lines have the same pages. -/
theorem getMeasurements_follows_same :
    ∃ measured,
      Cgroup.getMeasurements (numaFiles (twoTotals [(0, 2), (1, 3)] [(0, 2), (1, 3)])) =
        .ok measured ∧
      FollowsChoice (twoTotals [(0, 2), (1, 3)] [(0, 2), (1, 3)]) measured := by
  have hreturns : (Cgroup.getMeasurements
      (numaFiles (twoTotals [(0, 2), (1, 3)] [(0, 2), (1, 3)]))).isOk = true := by decide +kernel
  obtain ⟨measured, hm⟩ := except_exists_of_isOk hreturns
  refine ⟨measured, hm, (getMeasurements_follows_iff (isNumaStat_twoTotals (by decide) (by decide))
    rfl hm).mpr ?_⟩
  intro hierarchical total hhier htotal
  cases hhier
  cases htotal
  exact List.Subset.refl _

/-- The pages of `total` are reported although the file has a line `hierarchical_total`. -/
theorem getMeasurements_reports_total :
    IsNumaStat (twoTotals [(0, 2)] [(0, 7)]) ∧
      ∃ measured, Cgroup.getMeasurements (numaFiles (twoTotals [(0, 2)] [(0, 7)])) = .ok measured ∧
        Cgroup.pagesOf measured 0 = some 2 ∧ ¬ FollowsChoice (twoTotals [(0, 2)] [(0, 7)]) measured := by
  have hreturns : (Cgroup.getMeasurements (numaFiles (twoTotals [(0, 2)] [(0, 7)]))).isOk = true := by
    decide +kernel
  obtain ⟨measured, hm⟩ := except_exists_of_isOk hreturns
  have hstat : IsNumaStat (twoTotals [(0, 2)] [(0, 7)]) :=
    isNumaStat_twoTotals (by decide) (by decide)
  have hpages : Cgroup.pagesOf measured 0 = some 2 := pagesOf_getMeasurements hstat rfl hm 0
  refine ⟨hstat, measured, hm, hpages, fun h => ?_⟩
  have hzero := h 0
  rw [hpages] at hzero
  exact absurd hzero (by decide)

end Scan

end Wca
