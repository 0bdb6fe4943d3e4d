import Wca.Creation
import Wca.Extra.StaticAllocator

/-!
# `StaticAllocator` and tasks that are gone

The rules give a task what its own labels say, whoever else is there (`get?_allocate_congr`). A rule
that names a task is applied to it even when it is gone, and the runner then refuses the answer for all
tasks, so the others keep their allocations exactly when nobody who is gone is named
(`absence_harmless_iff`).
-/

namespace Wca

open Py AllocationsDict AllocationRunner

/-! ## The allocator and the runner -/

/-- The rules, and those that are read from the file of the configuration, where there is the file. -/
structure StaticAllocator where
  rules : Option (List Rule) := none
  config : Option (List Rule) := none

/-- The tasks of an iteration: what the allocator is told of their labels, and their containers. -/
structure TaskSet where
  data : Dict TaskId (Dict String String)
  containers : Containers
  mem_iff : ∀ task, task ∈ data.keys ↔ task ∈ containers.keys

/-- Some of the tasks, with the same labels and containers. -/
structure TaskSet.Within (tasks tasks' : TaskSet) : Prop where
  data : ∀ task labels, tasks.data.get? task = some labels → tasks'.data.get? task = some labels
  containers : ∀ task c, tasks.containers.get? task = some c → tasks'.containers.get? task = some c

/-- No constructor of allocation values takes a dictionary. -/
def RuleValue.toRaw : RuleValue → Except Exc RawValue
  | .raw value => .ok value
  | .dict _ => .error (.builtin (.AssertionError ""))

namespace StaticAllocator

variable (self : StaticAllocator)

def allRules : List Rule := self.rules.getD [] ++ self.config.getD []

variable (reMatch : String → String → Except Exn Bool) (sets : SetOrder String)

def allocate (tasksData : Dict TaskId (Dict String String)) :
    Except Exn (Dict TaskId RuleAllocations) :=
  if self.allRules.length = 0 then .ok ∅
  else buildAllocationsFromRules reMatch sets tasksData self.allRules

/-- `allocate`, with its answer as the runner is given it. -/
def allocateRaw (tasksData : Dict TaskId (Dict String String)) : Except Exc TasksAllocations := do
  let tasksAllocations ← (self.allocate reMatch sets tasksData : Except Exn _)
  tasksAllocations.comprehendM fun _ a => a.comprehendM fun _ v => v.toRaw

variable (rdtEnabled : Bool) (platform : Platform)

/-- `allocate` followed by `TasksAllocationsValues.create`. -/
def allocateAndCreate (tasks : TaskSet) : EStateM Exc Heap TasksAllocationsValues := do
  let raws ← (self.allocateRaw reMatch sets tasks.data : Except Exc _)
  TasksAllocationsValues.create rdtEnabled raws tasks.containers platform

/-- Every task that a rule names, unless the rule is ignored, is there. -/
def NamesOnly (tasks : TaskSet) : Prop :=
  ∀ rule ∈ self.allRules, rule.newTaskAllocations ≠ none →
    ∀ taskId, rule.taskId = some taskId → taskId ∈ tasks.data.keys

end StaticAllocator

/-! ## The rules on one task -/

/-- What a rule makes of the allocations of a task that it matches. -/
def Rule.onTask (rule : Rule) (old : Option RuleAllocations) : Option RuleAllocations :=
  match rule.newTaskAllocations.bind fun raw => (convertRdt raw).toOption with
  | none => old
  | some new => some ((old.getD ∅).update new)

section Rules

open Classical in
/-- What all rules make of them. -/
noncomputable def onTask (reMatch : String → String → Except Exn Bool)
    (tasksData : Dict TaskId (Dict String String)) (rules : List Rule) (task : TaskId) :
    Option RuleAllocations :=
  rules.foldl (fun old rule => if rule.Matches reMatch tasksData task then rule.onTask old else old)
    none

variable {reMatch : String → String → Except Exn Bool} {sets : SetOrder String}
  {tasksData tasksData' : Dict TaskId (Dict String String)}
  {tasksAllocations r r' : Dict TaskId RuleAllocations} {rule : Rule} {rules : List Rule}
  {task : TaskId}

theorem get?_applyRule (h : applyRule reMatch sets tasksData tasksAllocations rule = .ok r)
    (hmatch : rule.Matches reMatch tasksData task) :
    r.get? task = rule.onTask (tasksAllocations.get? task) := by
  rw [Rule.onTask]
  rw [applyRule] at h
  split at h
  · case h_1 hignored =>
    cases h
    rw [hignored]
    rfl
  · case h_2 raw hraw =>
    obtain ⟨a, ha, h⟩ := except_bind_ok_iff.mp h
    obtain ⟨ids, hids, h⟩ := except_bind_ok_iff.mp h
    cases h
    rw [hraw, Option.bind_some, ha, get?_mergeRules, get?_foldl_set,
      if_pos ((matchTaskIds_ok hids task).mpr hmatch)]
    rfl

theorem onTask_isSome (h : rule.Applicable reMatch tasksData) {old : Option RuleAllocations} :
    (rule.onTask old).isSome ↔ old.isSome ∨ rule.newTaskAllocations ≠ none := by
  rw [Rule.onTask]
  cases hraw : rule.newTaskAllocations with
  | none => simp
  | some raw =>
    obtain ⟨a, ha⟩ := convertRdt_returns_iff.mpr fun fields => h.fields raw fields hraw
    rw [Option.bind_some, ha]
    simp [Except.toOption]

open Classical in
theorem get?_buildAllocationsFromRules
    (h : buildAllocationsFromRules reMatch sets tasksData rules = .ok r) (task : TaskId) :
    r.get? task = onTask reMatch tasksData rules task := by
  refine except_foldlM_ok (I := fun pre r => r.get? task = onTask reMatch tasksData pre task) h rfl
    fun pre rule post a a' _ hI hstep => ?_
  rw [onTask, List.foldl_append, List.foldl_cons, List.foldl_nil, ← onTask, ← hI]
  split
  · case isTrue hmatch => exact get?_applyRule hstep hmatch
  · case isFalse hno => exact applyRule_frame hstep hno

/-- Whether a rule matches a task is told by the data of the task. -/
theorem matches_congr (hdata : tasksData.get? task = tasksData'.get? task) :
    rule.Matches reMatch tasksData task ↔ rule.Matches reMatch tasksData' task := by
  rw [Rule.Matches, Rule.Matches]
  split
  · exact Iff.rfl
  · rw [hdata]
  · rw [Dict.mem_keys_iff_get?, Dict.mem_keys_iff_get?, hdata]

open Classical in
theorem onTask_congr (hdata : tasksData.get? task = tasksData'.get? task) :
    onTask reMatch tasksData rules task = onTask reMatch tasksData' rules task := by
  rw [onTask, onTask]
  congr 1
  funext old rule
  exact if_congr (matches_congr hdata) rfl rfl

/-- A task has an entry when a rule that is not ignored is for it. -/
theorem mem_keys_buildAllocationsFromRules
    (h : buildAllocationsFromRules reMatch sets tasksData rules = .ok r) (task : TaskId) :
    task ∈ r.keys ↔
      ∃ rule ∈ rules, rule.newTaskAllocations ≠ none ∧ rule.Matches reMatch tasksData task := by
  refine except_foldlM_ok (I := fun pre r => task ∈ r.keys ↔ ∃ rule ∈ pre,
    rule.newTaskAllocations ≠ none ∧ rule.Matches reMatch tasksData task) h ?_
    fun pre rule post a a' _ hI hstep => ?_
  · exact iff_of_false (fun h => nomatch h) fun h => by obtain ⟨_, hmem, -⟩ := h; cases hmem
  · simp only [List.mem_append, List.mem_singleton, or_and_right, exists_or, exists_eq_left, ← hI]
    by_cases hmatch : rule.Matches reMatch tasksData task
    · rw [and_iff_left hmatch, Dict.mem_keys_iff_get?, get?_applyRule hstep hmatch,
        ← Option.isSome_iff_exists, onTask_isSome (applyRule_returns_iff.mp ⟨a', hstep⟩),
        Option.isSome_iff_exists, ← Dict.mem_keys_iff_get?]
    · rw [Dict.mem_keys_iff_get?, applyRule_frame hstep hmatch, ← Dict.mem_keys_iff_get?]
      exact (or_iff_left fun h => hmatch h.2).symm

end Rules

/-! ## Two runs -/

section TwoRuns

variable {self : StaticAllocator} {reMatch : String → String → Except Exn Bool}
  {sets sets' : SetOrder String} {tasksData tasksData' : Dict TaskId (Dict String String)}
  {task : TaskId}

theorem allocate_eq : self.allocate reMatch sets tasksData =
    buildAllocationsFromRules reMatch sets tasksData self.allRules := by
  rw [StaticAllocator.allocate]
  split
  · case isTrue h => rw [List.eq_nil_of_length_eq_zero h]; rfl
  · rfl

theorem allocateRaw_ok_iff {raws : TasksAllocations} :
    self.allocateRaw reMatch sets tasksData = .ok raws ↔
      ∃ r, buildAllocationsFromRules reMatch sets tasksData self.allRules = .ok r ∧
        (r.comprehendM fun _ a => a.comprehendM fun _ v => v.toRaw) = .ok raws := by
  rw [StaticAllocator.allocateRaw, except_bind_ok_iff, allocate_eq]
  simp only [liftM_ok_iff]

/-- What a task is given depends on the data of the task only. -/
theorem get?_allocateRaw_congr {raws raws' : TasksAllocations}
    (h : self.allocateRaw reMatch sets tasksData = .ok raws)
    (h' : self.allocateRaw reMatch sets' tasksData' = .ok raws')
    (hdata : tasksData.get? task = tasksData'.get? task) : raws.get? task = raws'.get? task := by
  obtain ⟨r, hr, hraws⟩ := allocateRaw_ok_iff.mp h
  obtain ⟨r', hr', hraws'⟩ := allocateRaw_ok_iff.mp h'
  rw [Dict.get?_comprehendM hraws, Dict.get?_comprehendM hraws', get?_buildAllocationsFromRules hr,
    get?_buildAllocationsFromRules hr', onTask_congr hdata]

theorem mem_keys_allocateRaw {raws : TasksAllocations}
    (h : self.allocateRaw reMatch sets tasksData = .ok raws) (task : TaskId) :
    task ∈ raws.keys ↔ ∃ rule ∈ self.allRules,
      rule.newTaskAllocations ≠ none ∧ rule.Matches reMatch tasksData task := by
  obtain ⟨r, hr, hraws⟩ := allocateRaw_ok_iff.mp h
  rw [(Dict.comprehendM_ok hraws).1, mem_keys_buildAllocationsFromRules hr]

variable {tasks tasks' : TaskSet}

theorem TaskSet.Within.get?_eq (hsub : tasks.Within tasks') (hmem : task ∈ tasks.data.keys) :
    tasks.data.get? task = tasks'.data.get? task := by
  obtain ⟨labels, hlabels⟩ := Dict.mem_keys_iff_get?.mp hmem
  rw [hlabels, hsub.data task labels hlabels]

/-- A rule is for a task that is there, or it names the task. -/
theorem Rule.Matches.mem_or {rule : Rule} (h : rule.Matches reMatch tasksData task) :
    task ∈ tasksData.keys ∨ rule.taskId = some task := by
  rw [Rule.Matches] at h
  split at h
  · case h_1 hid => exact .inr (h ▸ hid)
  · obtain ⟨data, hdata, -⟩ := h
    exact .inl (Dict.mem_keys_iff_get?.mpr ⟨data, hdata⟩)
  · exact .inl h

theorem mem_of_namesOnly {raws : TasksAllocations}
    (h : self.allocateRaw reMatch sets tasks.data = .ok raws) (hnames : self.NamesOnly tasks)
    (hmem : task ∈ raws.keys) : task ∈ tasks.data.keys := by
  obtain ⟨rule, hrule, heffective, hmatch⟩ := (mem_keys_allocateRaw h task).mp hmem
  obtain hmem | hid := hmatch.mem_or
  · exact hmem
  · exact hnames rule hrule heffective task hid

/-- With fewer tasks the allocator still returns, when nobody who is gone is named. -/
theorem allocateRaw_returns (hsub : tasks.Within tasks') {raws' : TasksAllocations}
    (h' : self.allocateRaw reMatch sets' tasks'.data = .ok raws') (hnames : self.NamesOnly tasks) :
    ∃ raws, self.allocateRaw reMatch sets tasks.data = .ok raws := by
  obtain ⟨r', hr', hraws'⟩ := allocateRaw_ok_iff.mp h'
  have happlicable : ∀ rule ∈ self.allRules, rule.Applicable reMatch tasks.data := by
    intro rule hrule
    have happlicable' := buildAllocationsFromRules_returns_iff.mp ⟨r', hr'⟩ rule hrule
    exact ⟨happlicable'.fields, fun labels task data hne hid hlabels hdata =>
      happlicable'.patterns labels task data hne hid hlabels (hsub.data task data hdata)⟩
  obtain ⟨r, hr⟩ : ∃ r, buildAllocationsFromRules reMatch sets tasks.data self.allRules = .ok r :=
    buildAllocationsFromRules_returns_iff.mpr happlicable
  have hraw : ∃ raws, (r.comprehendM fun _ a => a.comprehendM fun _ v => v.toRaw) = .ok raws := by
    refine Dict.comprehendM_returns_iff.mpr fun task a ha => ?_
    have hmem : task ∈ tasks.data.keys := by
      obtain ⟨rule, hrule, heffective, hmatch⟩ := (mem_keys_buildAllocationsFromRules hr task).mp
        (Dict.mem_keys_iff_get?.mpr ⟨a, ha⟩)
      obtain hmem | hid := hmatch.mem_or
      · exact hmem
      · exact hnames rule hrule heffective task hid
    have ha' : r'.get? task = some a := by
      rw [get?_buildAllocationsFromRules hr', ← onTask_congr (hsub.get?_eq hmem),
        ← get?_buildAllocationsFromRules hr, ha]
    exact Dict.comprehendM_returns_iff.mp ⟨raws', hraws'⟩ task a ha'
  obtain ⟨raws, hraws⟩ := hraw
  exact ⟨raws, allocateRaw_ok_iff.mpr ⟨r, hr, hraws⟩⟩

/-! ## The values of the others -/

section Create

variable {rdtEnabled : Bool} {platform : Platform} {raws raws' : TasksAllocations}

def runnerOf (rdtEnabled : Bool) (platform : Platform) (tasks : TaskSet) : AllocationRunner :=
  ⟨rdtEnabled, tasks.containers, platform⟩

theorem initialized_of_create {runner : AllocationRunner} {d : TasksAllocationsValues} {h h' : Heap}
    (hd : (runner.create raws).run h = .ok d h') : runner.Initialized := by
  obtain ⟨-, -, -, registry, h₀, hregistry, -⟩ := create_ok hd
  intro he
  cases hregistry with
  | disabled hdisabled => cases he.symm.trans hdisabled
  | enabled _ hi hn => exact ⟨_, _, hi, hn⟩

/-- Answers that are part of one that passes, for some of the tasks, pass. -/
theorem checkItems_within (hsub : tasks.Within tasks')
    (hraws : ∀ task raw, raws.get? task = some raw →
      task ∈ tasks.containers.keys ∧ raws'.get? task = some raw)
    (hchecks : (runnerOf rdtEnabled platform tasks').checkItems [] raws'.items = .ok ⟨⟩) :
    (runnerOf rdtEnabled platform tasks).checkItems [] raws.items = .ok ⟨⟩ := by
  obtain ⟨hitems, hcount⟩ := checkItems_ok_iff.mp hchecks
  have hcontainers : ∀ item ∈ raws.items, item ∈ raws'.items ∧
      tasks.containers.get? item.1 = tasks'.containers.get? item.1 := by
    intro item hitem
    obtain ⟨hmem, hraw⟩ := hraws item.1 item.2 (Dict.get?_eq_some_iff.mpr hitem)
    obtain ⟨c, hc⟩ := Dict.mem_keys_iff_get?.mp hmem
    exact ⟨Dict.get?_eq_some_iff.mp hraw, by rw [hc, hsub.containers item.1 c hc]⟩
  have hgroups : (runnerOf rdtEnabled platform tasks).countedGroups raws.items ⊆
      (runnerOf rdtEnabled platform tasks').countedGroups raws'.items := by
    intro group hgroup
    rw [countedGroups, List.mem_toFinset, List.mem_filterMap] at hgroup ⊢
    obtain ⟨item, hitem, hgroup⟩ := hgroup
    obtain ⟨hitem', hc⟩ := hcontainers item hitem
    refine ⟨item, hitem', hgroup ▸ ?_⟩
    rw [itemGroup, itemGroup, runnerOf, runnerOf, hc]
  refine checkItems_ok_iff.mpr ⟨fun item hitem => ?_, fun hne => ?_⟩
  · obtain ⟨hitem', hc⟩ := hcontainers item hitem
    obtain ⟨tk, container, hget, hrdt, hpass⟩ := hitems item hitem'
    exact ⟨tk, container, hc.trans hget, hrdt, hpass⟩
  · exact (Int.ofNat_le.mpr (Finset.card_le_card hgroups)).trans (hcount (hne.mono hgroups))

/-- The values of a task are made of its own allocations and of its container. -/
theorem get?_create_congr (hsub : tasks.Within tasks') {h h₁ h₂ : Heap}
    {d d' : TasksAllocationsValues}
    (hd : ((runnerOf rdtEnabled platform tasks).create raws).run h = .ok d h₁)
    (hd' : ((runnerOf rdtEnabled platform tasks').create raws').run h = .ok d' h₂)
    (hraws : raws.get? task = raws'.get? task) :
    d.get? task = d'.get? task := by
  obtain ⟨-, -, hkeys, registry, h₀, hregistry, hbuilt⟩ := create_ok hd
  obtain ⟨-, -, hkeys', registry', h₀', hregistry', hbuilt'⟩ := create_ok hd'
  have hsame : registry = registry' := by
    cases hregistry with
    | disabled hdisabled =>
      cases hregistry' with
      | disabled => rfl
      | enabled henabled => cases henabled.symm.trans hdisabled
    | enabled henabled hi =>
      cases hregistry' with
      | disabled hdisabled => cases hdisabled.symm.trans henabled
      | enabled _ hi' =>
        cases hi.symm.trans hi'
        rfl
  cases hm : d.get? task with
  | none =>
    rw [Dict.get?_eq_none_iff, hkeys, ← Dict.get?_eq_none_iff, hraws, Dict.get?_eq_none_iff,
      ← hkeys', ← Dict.get?_eq_none_iff] at hm
    exact hm.symm
  | some m =>
    obtain ⟨tk, container, raw, hc, -, hraw, hcreate⟩ := hbuilt task m hm
    have hmem' : task ∈ d'.keys := by
      rw [hkeys', Dict.mem_keys_iff_get?]
      exact ⟨raw, hraws ▸ hraw⟩
    obtain ⟨m', hm'⟩ := Dict.mem_keys_iff_get?.mp hmem'
    obtain ⟨tk', container', raw', hc', -, hraw', hcreate'⟩ := hbuilt' task m' hm'
    cases (hsub.containers task _ hc).symm.trans hc'
    cases hraw.symm.trans (hraws.trans hraw')
    have hvalues : m = m' := Except.ok.inj (hcreate.symm.trans (hsame ▸ hcreate'))
    rw [hm', hvalues]

theorem allocateAndCreate_ok_iff {h h' : Heap} {d : TasksAllocationsValues} :
    (self.allocateAndCreate reMatch sets rdtEnabled platform tasks).run h = .ok d h' ↔
      ∃ raws, self.allocateRaw reMatch sets tasks.data = .ok raws ∧
        ((runnerOf rdtEnabled platform tasks).create raws).run h = .ok d h' := by
  rw [StaticAllocator.allocateAndCreate, bind_ok_iff]
  constructor
  · rintro ⟨raws, h₀, hraws, hd⟩
    obtain ⟨hraws', rfl⟩ := run_liftM_ok_iff.mp hraws
    exact ⟨raws, hraws', hd⟩
  · rintro ⟨raws, hraws, hd⟩
    exact ⟨raws, h, run_liftM_ok_iff.mpr ⟨hraws, rfl⟩, hd⟩

/-- The runner takes an answer only when every task that has an entry is there. -/
theorem namesOnly_of_create {h h' : Heap} {d : TasksAllocationsValues}
    (hraws : self.allocateRaw reMatch sets tasks.data = .ok raws)
    (hd : ((runnerOf rdtEnabled platform tasks).create raws).run h = .ok d h') :
    self.NamesOnly tasks := by
  intro rule hrule heffective taskId hid
  have hmatch : rule.Matches reMatch tasks.data taskId := by
    rw [Rule.Matches, hid]
  obtain ⟨raw, hraw⟩ := Dict.mem_keys_iff_get?.mp
    ((mem_keys_allocateRaw hraws taskId).mpr ⟨rule, hrule, heffective, hmatch⟩)
  have hchecks := (create_returns_iff (initialized_of_create hd)).mp ⟨d, h', hd⟩
  obtain ⟨tk, container, hc, -⟩ :=
    (checkItems_ok_iff.mp hchecks).1 (taskId, raw) (Dict.get?_eq_some_iff.mp hraw)
  exact (tasks.mem_iff taskId).mpr (Dict.mem_keys_iff_get?.mpr ⟨_, hc⟩)

/-- Where the answer for all tasks is accepted, that for some of them is accepted, with the same
values for each, exactly when no rule in force names a task that is gone. -/
theorem absence_harmless_iff (reMatch : String → String → Except Exn Bool)
    (sets sets' : SetOrder String) (self : StaticAllocator) (rdtEnabled : Bool) (platform : Platform)
    {tasks tasks' : TaskSet} (hsub : tasks.Within tasks') {h h₂ : Heap} {d' : TasksAllocationsValues}
    (haccepted : (self.allocateAndCreate reMatch sets' rdtEnabled platform tasks').run h =
      .ok d' h₂) :
    (∃ d h₁, (self.allocateAndCreate reMatch sets rdtEnabled platform tasks).run h = .ok d h₁ ∧
      ∀ task ∈ tasks.data.keys, d.get? task = d'.get? task) ↔ self.NamesOnly tasks := by
  obtain ⟨raws', hraws', hd'⟩ := allocateAndCreate_ok_iff.mp haccepted
  constructor
  · rintro ⟨d, h₁, hrun, -⟩
    obtain ⟨raws, hraws, hd⟩ := allocateAndCreate_ok_iff.mp hrun
    exact namesOnly_of_create hraws hd
  · intro hnames
    obtain ⟨raws, hraws⟩ : ∃ raws, self.allocateRaw reMatch sets tasks.data = .ok raws :=
      allocateRaw_returns hsub hraws' hnames
    have hsame : ∀ task ∈ tasks.data.keys, raws.get? task = raws'.get? task := fun task hmem =>
      get?_allocateRaw_congr hraws hraws' (hsub.get?_eq hmem)
    have hinit' : (runnerOf rdtEnabled platform tasks').Initialized := initialized_of_create hd'
    have hinit : (runnerOf rdtEnabled platform tasks).Initialized := hinit'
    have hwithin : ∀ task raw, raws.get? task = some raw →
        task ∈ tasks.containers.keys ∧ raws'.get? task = some raw := by
      intro task raw hraw
      have hmem : task ∈ tasks.data.keys :=
        mem_of_namesOnly hraws hnames (Dict.mem_keys_iff_get?.mpr ⟨raw, hraw⟩)
      exact ⟨(tasks.mem_iff task).mp hmem, by rw [← hsame task hmem, hraw]⟩
    have hchecks := checkItems_within hsub hwithin ((create_returns_iff hinit').mp ⟨d', h₂, hd'⟩)
    obtain ⟨d, h₁, hd⟩ := (create_returns_iff (h := h) hinit).mpr hchecks
    refine ⟨d, h₁, allocateAndCreate_ok_iff.mpr ⟨raws, hraws, hd⟩, fun task hmem => ?_⟩
    exact get?_create_congr hsub hd hd' (hsame task hmem)

end Create

end TwoRuns

/-! ## A task that has finished -/

namespace SmallHost

/-- Tasks without labels, each with its container. -/
def tasksOf (names : List TaskId) : TaskSet where
  data := Dict.ofItems (names.map fun name => (name, ∅))
  containers := Dict.ofItems (names.map fun name => (name, (task name, container name "")))
  mem_iff name := by
    rw [Dict.mem_keys_ofItems, Dict.mem_keys_ofItems]
    simp

/-- A default for all tasks, and a rule for the task of an identifier. -/
def allocator (named : TaskId) : StaticAllocator where
  rules := some [
    { allocations := some (some (Dict.ofItems [(.QUOTA, .raw (.num (.float (.rat (1 / 2)))))])) },
    { taskId := some named
      allocations := some (some (Dict.ofItems [(.SHARES, .raw (.num (.int 10)))])) }]

theorem tasksOf_within : (tasksOf ["a"]).Within (tasksOf ["a", "finished"]) := by
  refine ⟨fun name labels h => ?_, fun name c h => ?_⟩
  · have hmem : (name, labels) ∈ [_] := Dict.get?_eq_some_iff.mp h
    cases List.mem_singleton.mp hmem
    rfl
  · have hmem : (name, c) ∈ [_] := Dict.get?_eq_some_iff.mp h
    cases List.mem_singleton.mp hmem
    rfl

end SmallHost

/-- Two tasks, and a rule that names the first: when the second is gone nothing changes for it. -/
theorem absence_harmless_named : ∃ d h₁,
    ((SmallHost.allocator "a").allocateAndCreate (fun _ _ => .ok true) ⟨id, .refl⟩ true
      SmallHost.platform (SmallHost.tasksOf ["a"])).run SmallHost.heap = .ok d h₁ ∧
      ((d.get? "a").map Dict.keys) = some [.QUOTA, .SHARES] := by
  obtain ⟨d', h₂, hrun, hkeys⟩ := exists_of_returnsSuch
    (p := fun d _ => (d.get? "a").map Dict.keys = some [.QUOTA, .SHARES])
    (r := ((SmallHost.allocator "a").allocateAndCreate (fun _ _ => .ok true) ⟨id, .refl⟩ true
      SmallHost.platform (SmallHost.tasksOf ["a", "finished"])).run SmallHost.heap) (by decide +kernel)
  obtain ⟨d, h₁, hd, hsame⟩ := (absence_harmless_iff _ ⟨id, .refl⟩ ⟨id, .refl⟩
    (SmallHost.allocator "a") true SmallHost.platform SmallHost.tasksOf_within hrun).mpr (by
      intro rule hrule _ taskId hid
      have hrules : rule ∈ [_, _] := hrule
      obtain rfl | rfl := by simpa using hrules
      · cases hid
      · cases hid
        decide)
  refine ⟨d, h₁, hd, ?_⟩
  rw [hsame "a" (by decide)]
  exact of_decide_eq_true hkeys

/-- The rule for a task that has finished: with the task the answer is accepted, without it the answer
for the other task is refused as well. -/
theorem finished_task_refuses_all :
    (SmallHost.tasksOf ["a"]).Within (SmallHost.tasksOf ["a", "finished"]) ∧
    (∀ rule ∈ (SmallHost.allocator "finished").allRules, rule.valueOf .RDT = none) ∧
    (∃ d h₂, ((SmallHost.allocator "finished").allocateAndCreate (fun _ _ => .ok true) ⟨id, .refl⟩
      true SmallHost.platform (SmallHost.tasksOf ["a", "finished"])).run SmallHost.heap = .ok d h₂) ∧
    ∃ h₁, ((SmallHost.allocator "finished").allocateAndCreate (fun _ _ => .ok true) ⟨id, .refl⟩
      true SmallHost.platform (SmallHost.tasksOf ["a"])).run SmallHost.heap =
        .error (.InvalidAllocations (.invalidTaskId "finished")) h₁ := by
  refine ⟨SmallHost.tasksOf_within, by decide +kernel, ?_, ?_⟩
  · obtain ⟨d, h₂, hrun, -⟩ := exists_of_returnsSuch (p := fun _ _ => true)
      (r := ((SmallHost.allocator "finished").allocateAndCreate (fun _ _ => .ok true) ⟨id, .refl⟩
        true SmallHost.platform (SmallHost.tasksOf ["a", "finished"])).run SmallHost.heap)
      (by decide +kernel)
    exact ⟨d, h₂, hrun⟩
  · obtain ⟨e, h₁, hrun, he⟩ := exists_of_raisesSuch
      (p := (· = .InvalidAllocations (.invalidTaskId "finished")))
      (r := ((SmallHost.allocator "finished").allocateAndCreate (fun _ _ => .ok true) ⟨id, .refl⟩
        true SmallHost.platform (SmallHost.tasksOf ["a"])).run SmallHost.heap) (by decide +kernel)
    exact ⟨h₁, of_decide_eq_true he ▸ hrun⟩

end Wca
