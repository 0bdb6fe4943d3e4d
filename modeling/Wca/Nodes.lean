import Wca.Kubernetes

/-!
# Tasks found by Mesos and in static lists

`MesosNode.get_tasks` makes a task of each running task of a Mesos agent whose executor is found in a
cgroup of its own, and `StaticNode.get_tasks` one of each name of a list that has its cgroups. With the
pods of `KubernetesNode` these are all the tasks that the agent is ever told of. They are apart when the
names of the mon groups are (`apart_iff_names`), and a run with such tasks keeps every process at home
(`runs_discovered`).
-/

namespace Wca

open Py

/-! ## `MesosNode` -/

namespace Mesos

structure ContainerStatus where
  executorPid : Option Pid
  containerId : Option String

structure Status where
  state : Option String
  containerStatus : Option ContainerStatus
  taskId : Option String
  agentId : Option String
  executorId : Option String

/-- A resource, with the value of a scalar. -/
structure Resource where
  type : String
  name : String
  scalar : Option Flt

structure LaunchedTask where
  name : Option String
  statuses : Option (List Status)
  /-- keys and values -/
  labels : Option (List (String × Option String))
  resources : Option (List Resource)

inductive MesosExc where
  | builtin (e : Exn)
  | MesosCgroupNotFoundException (msg : String)
  | TaskSynchronizationException (msg : String)
  | RequestException (e : Kubernetes.RequestException)
  deriving DecidableEq

structure MesosTask extends Task where
  name : String
  executorPid : Pid
  containerId : String
  executorId : String
  agentId : String
  resources : Dict String Flt

def MESOS_TASK_STATE_RUNNING : String := "TASK_RUNNING"

def CGROUP_DEFAULT_SUBSYSTEM : String := "cpu"

/-- The lines of `/proc/{pid}/cgroup` are a parameter. -/
abbrev ProcCgroup := Pid → Except Exn (List String)

/-- The loop over the lines. -/
def findLine (pid : Pid) : List String → Except MesosExc String
  | [] => .error (.MesosCgroupNotFoundException ("'cpu' controller not found for pid=" ++ toString pid))
  | line :: lines =>
    match Str.split ':' (Str.strip line) with
    | [_, subsystems, path] =>
      if CGROUP_DEFAULT_SUBSYSTEM ∈ Str.split ',' subsystems then
        if path = "/" then .error (.MesosCgroupNotFoundException ("Mesos executor pid=" ++ toString pid ++
          " found in root cgroup (\"/\") for cpu subsystem"))
        else .ok path
      else findLine pid lines
    | parts => .error (.builtin (.ValueError (if parts.length < 3 then
        "not enough values to unpack (expected 3, got " ++ toString parts.length ++ ")"
        else "too many values to unpack (expected 3)")))

def findCgroup (proc : ProcCgroup) (pid : Pid) : Except MesosExc String :=
  match proc pid with
  | .error (.FileNotFoundError _) => .error (.MesosCgroupNotFoundException
      ("cgroup file for pid " ++ toString pid ++ " not found"))
  | .error e => .error (.builtin e)
  | .ok lines => findLine pid lines

/-- `calculate_scalar_resources`. Disk and memory come in megabytes. -/
def calculateScalarResources (taskResources : List Resource) : Except Exn (Dict String Flt) := do
  let resources ← taskResources.foldlM (fun resources resource =>
    if resource.type = "SCALAR" then
      match resource.scalar with
      | none => .error .KeyError
      | some value => .ok (resources.set resource.name value)
    else .ok resources) (∅ : Dict String Flt)
  ["disk", "mem"].foldlM (fun resources res =>
    match resources.get? res with
    | none => .error .KeyError
    | some value => .ok (resources.set res (value.mul (.rat 1000000)))) resources

/-- An item of a dictionary that is read with brackets. -/
def item {α : Type} : Option α → Except MesosExc α
  | none => .error (.builtin .KeyError)
  | some a => .ok a

variable (proc : ProcCgroup)

/-- What becomes of a task that has a status. -/
def readStatus (launchedTask : LaunchedTask) (lastStatus : Status) : Except MesosExc (Option MesosTask) := do
  let state ← item lastStatus.state
  if state = MESOS_TASK_STATE_RUNNING then
    let containerStatus ← item lastStatus.containerStatus
    match containerStatus.executorPid with
    | none =>
      -- the message of the warning has the ids
      let _ ← item lastStatus.taskId
      let _ ← item lastStatus.agentId
      pure none
    | some executorPid =>
      let taskName ← item launchedTask.name
      match findCgroup proc executorPid with
      | .error (.MesosCgroupNotFoundException _) => pure none
      | .error e => .error e
      | .ok cgroupPath =>
        let labels ← item launchedTask.labels
        let labels ← labels.mapM fun label => (fun value => (sanitizeLabel label.1, value)) <$> item label.2
        let resources ← item launchedTask.resources
        let resources ← (calculateScalarResources resources).mapError .builtin
        let containerId ← item containerStatus.containerId
        let taskId ← item lastStatus.taskId
        let agentId ← item lastStatus.agentId
        let executorId ← item lastStatus.executorId
        pure (some {
          taskId
          cgroupPath
          subcgroupsPaths := []
          labels := Dict.ofItems labels
          name := taskName
          executorPid
          containerId
          executorId
          agentId
          resources })
  else pure none

/-- A task without a status is ignored. -/
def readTask (launchedTask : LaunchedTask) : Except MesosExc (Option MesosTask) :=
  match (launchedTask.statuses.getD []).getLast? with
  | none => .ok none
  | some lastStatus => readStatus proc launchedTask lastStatus

def tasksOf : List LaunchedTask → Except MesosExc (List MesosTask)
  | [] => .ok []
  | launchedTask :: launchedTasks => do
    let task ← readTask proc launchedTask
    let tasks ← tasksOf launchedTasks
    pure (task.toList ++ tasks)

/-- What the agent answers is a parameter; it may have no launched tasks. -/
def getTasks (answer : Except Kubernetes.RequestException (Option (List LaunchedTask))) :
    Except MesosExc (List MesosTask) :=
  match answer with
  | .error (.ConnectionError e) => .error (.TaskSynchronizationException e)
  | .error e => .error (.RequestException e)
  | .ok none => .ok []
  | .ok (some launchedTasks) => tasksOf proc launchedTasks

end Mesos

/-! ## `StaticNode` -/

structure StaticNode where
  tasks : List String
  requirePids : Bool
  defaultLabels : Dict String String
  tasksLabels : Option (Dict String (Dict String String))
  directory : Option String

namespace StaticNode

def BASE_CGROUP_PATH : String := "/sys/fs/cgroup"

def REQUIRED_CONTROLLERS : List String := ["cpu", "cpuacct", "memory"]

/-- The cgroups as the node sees them: what is in a directory, and the lines of the tasks files. -/
structure CgroupFs where
  listdir : String → Except Exn (List String)
  isdir : String → Bool
  tasksFile : String → Option (List String)

variable (self : StaticNode) (fs : CgroupFs)

def taskNames : Except Exn (List String) :=
  match self.directory with
  | none => .ok self.tasks
  | some directory => do
    let basePath := Kubernetes.pathJoin BASE_CGROUP_PATH ["cpu", directory]
    let entries ← fs.listdir basePath
    pure (self.tasks ++ (entries.filter fun entry => fs.isdir (Kubernetes.pathJoin basePath [entry])).map
      fun entry => Kubernetes.pathJoin directory [entry])

/-- The loop over the controllers ends without a `break`. -/
def hasCgroups (taskName : String) : Bool :=
  REQUIRED_CONTROLLERS.all fun requiredController =>
    match fs.tasksFile (Kubernetes.pathJoin BASE_CGROUP_PATH [requiredController, taskName, "tasks"]) with
    | none => false
    | some lines => !(self.requirePids && lines.length = 0)

/-- The labels of a task that is not in a dictionary with labels raise. -/
def labelsOf (taskName : String) : Except Exn (Dict String String) :=
  match self.tasksLabels with
  | none => .ok self.defaultLabels
  | some tasksLabels =>
    if tasksLabels.items = [] then .ok self.defaultLabels
    else match tasksLabels.get? taskName with
      | none => .error (.TypeError "'NoneType' object is not iterable")
      | some labels => .ok (self.defaultLabels.update labels)

def taskOf (taskName : String) (labels : Dict String String) : Task where
  taskId := taskName
  cgroupPath := "/" ++ taskName
  subcgroupsPaths := []
  labels := labels

def getTasks : Except Exn (List Task) := do
  let taskNames ← self.taskNames fs
  (taskNames.filter fun taskName => self.hasCgroups fs taskName).mapM fun taskName =>
    taskOf taskName <$> self.labelsOf taskName

end StaticNode

/-! ## Tasks that are apart -/

variable {tasks : List Task}

/-- Tasks without subcgroups are apart when the names of their mon groups are different. -/
theorem apart_iff_names (h : ∀ task ∈ tasks, task.subcgroupsPaths = []) :
    Apart tasks ↔ (tasks.map Task.taskId).Nodup ∧ (tasks.map Task.containerName).Nodup := by
  refine ⟨fun hapart => ⟨hapart.taskIds, hapart.names⟩, fun hnodup => ⟨hnodup.1, ?_, hnodup.2, ?_⟩⟩
  · refine List.Nodup.of_map sanitizeCgroupPath ?_
    rw [List.map_map]
    exact hnodup.2
  · intro task htask task' htask' path hin hin'
    have hcgroups : ∀ task ∈ tasks, ∀ path ∈ task.cgroups, path = task.cgroupPath := by
      intro task htask path hin
      rw [Task.cgroups, if_pos (h task htask)] at hin
      exact List.mem_singleton.mp hin
    have hpath : task.cgroupPath = task'.cgroupPath :=
      (hcgroups task htask path hin).symm.trans (hcgroups task' htask' path hin')
    exact List.inj_on_of_nodup_map hnodup.2 htask htask' (congrArg sanitizeCgroupPath hpath)

/-- Labels do not matter. -/
theorem Apart.relabel (h : Apart tasks) (labels : Task → Dict String String) :
    Apart (tasks.map fun task => { task with labels := labels task }) := by
  refine ⟨?_, ?_, ?_, ?_⟩
  · rw [List.map_map]
    exact h.taskIds
  · rw [List.map_map]
    exact h.cgroupPaths
  · rw [List.map_map]
    exact h.names
  · intro task htask task' htask' path hin hin'
    obtain ⟨found, hfound, rfl⟩ := List.mem_map.mp htask
    obtain ⟨found', hfound', rfl⟩ := List.mem_map.mp htask'
    rw [h.cgroups found hfound found' hfound' path hin hin']

/-! ## What Mesos finds -/

namespace Mesos

variable {proc : ProcCgroup} {pid : Pid} {lines : List String}

/-- The line has the three fields of the file. -/
def HasFields (line : String) : Prop := (Str.split ':' (Str.strip line)).length = 3

/-- The line is that of the controller. -/
def IsCpu (line : String) : Prop :=
  ∃ hierarchy subsystems path, Str.split ':' (Str.strip line) = [hierarchy, subsystems, path] ∧
    CGROUP_DEFAULT_SUBSYSTEM ∈ Str.split ',' subsystems

/-- The lines can be read as far as the first one of the controller. -/
def Legible (lines : List String) : Prop :=
  ∀ pre line post, lines = pre ++ line :: post → (∀ line ∈ pre, ¬ IsCpu line) → HasFields line

theorem legible_cons_iff {line : String} : Legible (line :: lines) ↔
    HasFields line ∧ (¬ IsCpu line → Legible lines) := by
  constructor
  · intro h
    refine ⟨h [] line lines rfl fun _ hin => absurd hin List.not_mem_nil,
      fun hnot pre line' post he hpre => ?_⟩
    exact h (line :: pre) line' post (congrArg (line :: ·) he) (List.forall_mem_cons.mpr ⟨hnot, hpre⟩)
  · rintro ⟨hfields, hrest⟩ pre line' post he hpre
    cases pre with
    | nil =>
      cases he
      exact hfields
    | cons first pre =>
      cases he
      obtain ⟨hfirst, hpre⟩ := List.forall_mem_cons.mp hpre
      exact hrest hfirst pre line' post rfl hpre

/-- What is not the path of a cgroup is an exception that is caught, unless a line cannot be read. -/
theorem findLine_run (pid : Pid) (lines : List String) :
    (Legible lines → ∀ e, findLine pid lines = .error e → ∃ msg, e = .MesosCgroupNotFoundException msg) ∧
      (¬ Legible lines → ∃ msg, findLine pid lines = .error (.builtin (.ValueError msg))) := by
  induction lines with
  | nil =>
    refine ⟨fun _ e he => ⟨_, (Except.error.inj he).symm⟩, fun hnot => absurd ?_ hnot⟩
    intro pre line post he
    exact absurd he (by simp)
  | cons line lines ih =>
    rw [legible_cons_iff, findLine]
    split
    · rename_i hierarchy subsystems path hsplit
      have hfields : HasFields line := by
        rw [HasFields, hsplit]
        rfl
      split
      · rename_i hcpu
        have hline : IsCpu line := ⟨hierarchy, subsystems, path, hsplit, hcpu⟩
        refine ⟨fun _ e he => ?_, fun hnot => absurd ⟨hfields, fun h => absurd hline h⟩ hnot⟩
        split at he
        · exact ⟨_, (Except.error.inj he).symm⟩
        · cases he
      · rename_i hcpu
        have hline : ¬ IsCpu line := by
          rintro ⟨hierarchy', subsystems', path', hsplit', hcpu'⟩
          rw [hsplit] at hsplit'
          cases hsplit'
          exact hcpu hcpu'
        exact ⟨fun h => ih.1 (h.2 hline), fun hnot => ih.2 fun h => hnot ⟨hfields, fun _ => h⟩⟩
    · rename_i hsplit
      have hfields : ¬ HasFields line := by
        intro hfields
        obtain ⟨a, b, c, hsplit'⟩ := List.length_eq_three.mp hfields
        exact hsplit a b c hsplit'
      exact ⟨fun h => absurd h.1 hfields, fun _ => ⟨_, rfl⟩⟩

/-- The file is gone, or it can be read and so can its lines. -/
def Reads (proc : ProcCgroup) (pid : Pid) : Prop :=
  (∀ e, proc pid = .error e → ∃ path, e = .FileNotFoundError path) ∧
    ∀ lines, proc pid = .ok lines → Legible lines

theorem findCgroup_run (proc : ProcCgroup) (pid : Pid) :
    (Reads proc pid → ∀ e, findCgroup proc pid = .error e → ∃ msg, e = .MesosCgroupNotFoundException msg) ∧
      (¬ Reads proc pid → ∃ e, findCgroup proc pid = .error (.builtin e)) := by
  cases hproc : proc pid with
  | error e =>
    by_cases hgone : ∃ path, e = .FileNotFoundError path
    · obtain ⟨path, rfl⟩ := hgone
      have hfind : findCgroup proc pid = .error (.MesosCgroupNotFoundException
          ("cgroup file for pid " ++ toString pid ++ " not found")) := by
        rw [findCgroup, hproc]
      refine ⟨fun _ e he => ?_, fun hnot => absurd ⟨fun e he => ?_, fun lines hlines => ?_⟩ hnot⟩
      · rw [hfind] at he
        exact ⟨_, (Except.error.inj he).symm⟩
      · rw [hproc] at he
        exact ⟨path, (Except.error.inj he).symm⟩
      · rw [hproc] at hlines
        cases hlines
    · have hfind : findCgroup proc pid = .error (.builtin e) := by
        rw [findCgroup, hproc]
        cases e <;> first | rfl | exact absurd ⟨_, rfl⟩ hgone
      exact ⟨fun h => absurd (h.1 e hproc) hgone, fun _ => ⟨e, hfind⟩⟩
  | ok lines =>
    have hfind : findCgroup proc pid = findLine pid lines := by rw [findCgroup, hproc]
    have hreads : Reads proc pid ↔ Legible lines := by
      rw [Reads, hproc]
      simp
    obtain ⟨hcaught, hraises⟩ := findLine_run pid lines
    rw [hreads, hfind]
    refine ⟨hcaught, fun hnot => ?_⟩
    obtain ⟨msg, he⟩ := hraises hnot
    exact ⟨_, he⟩

/-! ### Resources -/

variable {taskResources : List Resource}

/-- There is a scalar of this name. -/
def HasScalar (taskResources : List Resource) (name : String) : Prop :=
  ∃ resource ∈ taskResources, resource.type = "SCALAR" ∧ resource.name = name

/-- The scalars have values. -/
def Valued (taskResources : List Resource) : Prop :=
  ∀ resource ∈ taskResources, resource.type = "SCALAR" → ∃ value, resource.scalar = some value

/-- Every task needs disk and memory. -/
theorem calculateScalarResources_run (h : Valued taskResources) :
    (HasScalar taskResources "disk" ∧ HasScalar taskResources "mem" →
      ∃ resources, calculateScalarResources taskResources = .ok resources) ∧
    (¬ (HasScalar taskResources "disk" ∧ HasScalar taskResources "mem") →
      calculateScalarResources taskResources = .error .KeyError) := by
  have hloop : ∃ resources, taskResources.foldlM (fun (resources : Dict String Flt) resource =>
      if resource.type = "SCALAR" then
        match resource.scalar with
        | none => .error .KeyError
        | some value => .ok (resources.set resource.name value)
      else .ok resources) ∅ = (Except.ok resources : Except Exn _) ∧
      ∀ name, name ∈ resources.keys ↔ HasScalar taskResources name := by
    have hnone : ∀ name, name ∈ (∅ : Dict String Flt).keys ↔ HasScalar [] name := fun name =>
      iff_of_false List.not_mem_nil fun ⟨_, hin, _⟩ => List.not_mem_nil hin
    refine except_foldlM_run (I := fun pre (resources : Dict String Flt) =>
      ∀ name, name ∈ resources.keys ↔ HasScalar pre name) hnone ?_
    intro pre resource post resources hl hkeys
    have hsnoc : ∀ name, HasScalar (pre ++ [resource]) name ↔
        HasScalar pre name ∨ resource.type = "SCALAR" ∧ resource.name = name := by
      intro name
      simp [HasScalar, or_and_right, exists_or]
    split
    · rename_i hscalar
      obtain ⟨value, hvalue⟩ := h resource (by rw [hl]; simp) hscalar
      rw [hvalue]
      refine ⟨_, rfl, fun name => ?_⟩
      rw [Dict.mem_keys_set, hkeys, hsnoc, or_comm, eq_comm (a := name)]
      simp [hscalar]
    · rename_i hscalar
      refine ⟨_, rfl, fun name => ?_⟩
      rw [hkeys, hsnoc]
      simp [hscalar]
  obtain ⟨resources, hrun, hkeys⟩ := hloop
  rw [calculateScalarResources, hrun, except_ok_bind, ← hkeys, ← hkeys, List.foldlM_cons]
  by_cases hdisk : "disk" ∈ resources.keys
  · obtain ⟨disk, hget⟩ := Dict.mem_keys_iff_get?.mp hdisk
    rw [hget, except_ok_bind, List.foldlM_cons, Dict.get?_set_of_ne (by decide)]
    by_cases hmem : "mem" ∈ resources.keys
    · obtain ⟨mem, hget'⟩ := Dict.mem_keys_iff_get?.mp hmem
      rw [hget', except_ok_bind]
      exact ⟨fun _ => ⟨_, rfl⟩, fun hnot => absurd ⟨hdisk, hmem⟩ hnot⟩
    · rw [Dict.get?_eq_none_iff.mpr hmem]
      exact ⟨fun h => absurd h.2 hmem, fun _ => rfl⟩
  · rw [Dict.get?_eq_none_iff.mpr hdisk]
    exact ⟨fun h => absurd h.1 hdisk, fun _ => rfl⟩

/-! ### Tasks -/

variable {launchedTask : LaunchedTask} {status : Status}

/-- The executor of a task that runs. -/
def LaunchedTask.executor? (launchedTask : LaunchedTask) : Option Pid :=
  (launchedTask.statuses.getD []).getLast?.bind fun lastStatus =>
    if lastStatus.state = some MESOS_TASK_STATE_RUNNING then lastStatus.containerStatus.bind (·.executorPid)
    else none

variable (proc) in
/-- The task runs, and its executor is in a cgroup. -/
def Located (launchedTask : LaunchedTask) : Bool :=
  launchedTask.executor?.any fun executorPid => (findCgroup proc executorPid).isOk

variable (proc) in
/-- The task that is found is that of the executor, in the cgroup that this is in. -/
structure Finds (launchedTask : LaunchedTask) (task : MesosTask) : Prop where
  executor : launchedTask.executor? = some task.executorPid
  cgroup : findCgroup proc task.executorPid = .ok task.cgroupPath
  taskId : ∃ lastStatus ∈ (launchedTask.statuses.getD []).getLast?, lastStatus.taskId = some task.taskId
  name : launchedTask.name = some task.name
  single : task.subcgroupsPaths = []

theorem item_ok_iff {α : Type} {o : Option α} {a : α} : item o = .ok a ↔ o = some a := by
  cases o <;> simp [item]

/-- What the last status of a task gives. -/
theorem readTask_ok {task? : Option MesosTask} (h : readTask proc launchedTask = .ok task?) :
    (task? = none ∧ Located proc launchedTask = false) ∨
      (Located proc launchedTask = true ∧ ∃ task, task? = some task ∧ Finds proc launchedTask task) := by
  rw [readTask] at h
  cases hlast : (launchedTask.statuses.getD []).getLast? with
  | none =>
    rw [hlast] at h
    cases h
    exact .inl ⟨rfl, by rw [Located, LaunchedTask.executor?, hlast]; rfl⟩
  | some status =>
    rw [hlast] at h
    dsimp only at h
    rw [readStatus] at h
    obtain ⟨state, hstate, h⟩ := except_bind_ok_iff.mp h
    rw [item_ok_iff] at hstate
    split at h
    · rename_i hrunning
      obtain ⟨containerStatus, hcontainer, h⟩ := except_bind_ok_iff.mp h
      rw [item_ok_iff] at hcontainer
      have hexecutor : launchedTask.executor? = containerStatus.executorPid := by
        rw [LaunchedTask.executor?, hlast, Option.bind_some, if_pos (hrunning ▸ hstate), hcontainer,
          Option.bind_some]
      split at h
      · rename_i hpid
        obtain ⟨_, -, h⟩ := except_bind_ok_iff.mp h
        obtain ⟨_, -, h⟩ := except_bind_ok_iff.mp h
        cases h
        exact .inl ⟨rfl, by rw [Located, hexecutor, hpid]; rfl⟩
      · rename_i executorPid hpid
        obtain ⟨taskName, hname, h⟩ := except_bind_ok_iff.mp h
        rw [item_ok_iff] at hname
        split at h
        · rename_i msg hfind
          cases h
          exact .inl ⟨rfl, by rw [Located, hexecutor, hpid, Option.any_some, hfind]; rfl⟩
        · cases h
        · rename_i cgroupPath hfind
          obtain ⟨_, -, h⟩ := except_bind_ok_iff.mp h
          obtain ⟨_, -, h⟩ := except_bind_ok_iff.mp h
          obtain ⟨_, -, h⟩ := except_bind_ok_iff.mp h
          obtain ⟨_, -, h⟩ := except_bind_ok_iff.mp h
          obtain ⟨_, -, h⟩ := except_bind_ok_iff.mp h
          obtain ⟨taskId, htaskId, h⟩ := except_bind_ok_iff.mp h
          obtain ⟨_, -, h⟩ := except_bind_ok_iff.mp h
          obtain ⟨_, -, h⟩ := except_bind_ok_iff.mp h
          cases h
          rw [item_ok_iff] at htaskId
          refine .inr ⟨by rw [Located, hexecutor, hpid, Option.any_some, hfind]; rfl, _, rfl, ?_⟩
          exact ⟨by rw [hexecutor, hpid], hfind, ⟨status, hlast, htaskId⟩, hname, rfl⟩
    · rename_i hrunning
      cases h
      have hnot : status.state ≠ some MESOS_TASK_STATE_RUNNING := by
        rw [hstate]
        exact fun he => hrunning (Option.some.inj he)
      refine .inl ⟨rfl, ?_⟩
      rw [Located, LaunchedTask.executor?, hlast, Option.bind_some, if_neg hnot]
      rfl

/-- The tasks are those that run in a cgroup, in the order of the answer. -/
theorem tasksOf_ok {launchedTasks : List LaunchedTask} {tasks : List MesosTask}
    (h : tasksOf proc launchedTasks = .ok tasks) :
    List.Forall₂ (Finds proc) (launchedTasks.filter (Located proc)) tasks := by
  induction launchedTasks generalizing tasks with
  | nil =>
    cases h
    exact .nil
  | cons launchedTask launchedTasks ih =>
    rw [tasksOf] at h
    obtain ⟨task?, htask, h⟩ := except_bind_ok_iff.mp h
    obtain ⟨tasks', htasks, h⟩ := except_bind_ok_iff.mp h
    cases h
    obtain ⟨rfl, hnot⟩ | ⟨hlocated, task, rfl, hfinds⟩ := readTask_ok htask
    · rw [List.filter_cons_of_neg (by simp [hnot])]
      exact ih htasks
    · rw [List.filter_cons_of_pos hlocated]
      exact .cons hfinds (ih htasks)

/-- What the agent tells of a task with a status. -/
structure LaunchedTask.Answered (launchedTask : LaunchedTask) : Prop where
  state : ∀ status ∈ (launchedTask.statuses.getD []).getLast?, ∃ state, status.state = some state
  container : ∀ status ∈ (launchedTask.statuses.getD []).getLast?, ∃ containerStatus containerId,
    status.containerStatus = some containerStatus ∧ containerStatus.containerId = some containerId
  ids : ∀ status ∈ (launchedTask.statuses.getD []).getLast?, ∃ taskId agentId executorId,
    status.taskId = some taskId ∧ status.agentId = some agentId ∧ status.executorId = some executorId
  name : ∃ name, launchedTask.name = some name
  labels : ∃ labels, launchedTask.labels = some labels ∧ ∀ label ∈ labels, ∃ value, label.2 = some value
  resources : ∃ resources, launchedTask.resources = some resources ∧ Valued resources

variable (proc) in
/-- The cgroup of the executor can be looked for, and where it is found there are the scalars. -/
def LaunchedTask.Settled (launchedTask : LaunchedTask) : Prop :=
  ∀ executorPid, launchedTask.executor? = some executorPid → Reads proc executorPid ∧
    ((findCgroup proc executorPid).isOk = true → ∀ resources, launchedTask.resources = some resources →
      HasScalar resources "disk" ∧ HasScalar resources "mem")

variable (proc) in
/-- A task is read unless its cgroup, or its disk and memory, are not as they should be. -/
theorem readTask_run (hanswered : launchedTask.Answered) :
    (launchedTask.Settled proc → ∃ task?, readTask proc launchedTask = .ok task?) ∧
      (¬ launchedTask.Settled proc → ∃ e, readTask proc launchedTask = .error (.builtin e)) := by
  rw [readTask]
  cases hlast : (launchedTask.statuses.getD []).getLast? with
  | none =>
    refine ⟨fun _ => ⟨none, rfl⟩, fun hnot => absurd (fun executorPid hexecutor => ?_) hnot⟩
    rw [LaunchedTask.executor?, hlast] at hexecutor
    cases hexecutor
  | some status =>
    dsimp only
    obtain ⟨state, hstate⟩ := hanswered.state status hlast
    obtain ⟨containerStatus, containerId, hcontainer, hcontainerId⟩ := hanswered.container status hlast
    obtain ⟨taskId, agentId, executorId, htaskId, hagentId, hexecutorId⟩ := hanswered.ids status hlast
    obtain ⟨name, hname⟩ := hanswered.name
    obtain ⟨labels, hlabels, hvalues⟩ := hanswered.labels
    obtain ⟨resources, hresources, hvalued⟩ := hanswered.resources
    have hexecutor : launchedTask.executor? = if state = MESOS_TASK_STATE_RUNNING then
        containerStatus.executorPid else none := by
      rw [LaunchedTask.executor?, hlast, Option.bind_some, hstate, hcontainer, Option.bind_some]
      simp only [Option.some.injEq]
    rw [readStatus, hstate, item, except_ok_bind]
    by_cases hrunning : state = MESOS_TASK_STATE_RUNNING
    · rw [if_pos hrunning] at hexecutor ⊢
      rw [hcontainer, item, except_ok_bind]
      cases hpid : containerStatus.executorPid with
      | none =>
        rw [hpid] at hexecutor
        dsimp only
        rw [htaskId, hagentId]
        refine ⟨fun _ => ⟨none, rfl⟩, fun hnot => absurd (fun executorPid he => ?_) hnot⟩
        rw [hexecutor] at he
        cases he
      | some executorPid =>
        rw [hpid] at hexecutor
        dsimp only
        rw [hname, item, except_ok_bind]
        have hsettled : launchedTask.Settled proc ↔ Reads proc executorPid ∧
            ((findCgroup proc executorPid).isOk = true →
              HasScalar resources "disk" ∧ HasScalar resources "mem") := by
          rw [LaunchedTask.Settled, hexecutor, hresources]
          simp only [Option.some.injEq, forall_eq']
        rw [hsettled]
        obtain ⟨hcaught, hraises⟩ := findCgroup_run proc executorPid
        by_cases hreads : Reads proc executorPid
        · cases hfind : findCgroup proc executorPid with
          | error e =>
            obtain ⟨msg, rfl⟩ := hcaught hreads e hfind
            exact ⟨fun _ => ⟨none, rfl⟩, fun hnot => absurd ⟨hreads, fun h => (nomatch h)⟩ hnot⟩
          | ok cgroupPath =>
            obtain ⟨labels', hlabels'⟩ := except_mapM_returns (l := labels)
              (f := fun label => (fun value => (sanitizeLabel label.1, value)) <$> item label.2)
              fun label hin => by
                obtain ⟨value, hvalue⟩ := hvalues label hin
                rw [hvalue]
                exact ⟨_, rfl⟩
            dsimp only
            rw [hlabels, item, except_ok_bind, hlabels', except_ok_bind, hresources, item, except_ok_bind]
            obtain ⟨hreturns, hmissing⟩ := calculateScalarResources_run hvalued
            by_cases hscalars : HasScalar resources "disk" ∧ HasScalar resources "mem"
            · obtain ⟨scalars, hrun⟩ := hreturns hscalars
              rw [hrun, hcontainerId, htaskId, hagentId, hexecutorId]
              exact ⟨fun _ => ⟨_, rfl⟩, fun hnot => absurd ⟨hreads, fun _ => hscalars⟩ hnot⟩
            · rw [hmissing hscalars]
              exact ⟨fun h => absurd (h.2 rfl) hscalars, fun _ => ⟨_, rfl⟩⟩
        · obtain ⟨e, he⟩ := hraises hreads
          rw [he]
          exact ⟨fun h => absurd h.1 hreads, fun _ => ⟨e, rfl⟩⟩
    · rw [if_neg hrunning] at hexecutor ⊢
      refine ⟨fun _ => ⟨none, rfl⟩, fun hnot => absurd (fun executorPid he => ?_) hnot⟩
      rw [hexecutor] at he
      cases he

theorem tasksOf_run {launchedTasks : List LaunchedTask}
    (hanswered : ∀ launchedTask ∈ launchedTasks, launchedTask.Answered) :
    ((∃ tasks, tasksOf proc launchedTasks = .ok tasks) ↔
      ∀ launchedTask ∈ launchedTasks, launchedTask.Settled proc) ∧
    ∀ e, tasksOf proc launchedTasks = .error e → ∃ exn, e = .builtin exn := by
  induction launchedTasks with
  | nil => exact ⟨iff_of_true ⟨[], rfl⟩ fun _ h => absurd h List.not_mem_nil, fun e h => (nomatch h)⟩
  | cons launchedTask launchedTasks ih =>
    obtain ⟨hreturns, hraises⟩ := ih fun t ht => hanswered t (List.mem_cons_of_mem _ ht)
    obtain ⟨hsettled, hfails⟩ := readTask_run proc (hanswered launchedTask List.mem_cons_self)
    rw [List.forall_mem_cons, tasksOf]
    by_cases htask : launchedTask.Settled proc
    · obtain ⟨task?, hread⟩ := hsettled htask
      rw [hread, except_ok_bind, ← hreturns]
      constructor
      · constructor
        · rintro ⟨tasks, htasks⟩
          obtain ⟨tasks', htasks', -⟩ := except_bind_ok_iff.mp htasks
          exact ⟨htask, tasks', htasks'⟩
        · rintro ⟨-, tasks, htasks⟩
          rw [htasks]
          exact ⟨_, rfl⟩
      · intro e he
        obtain he | ⟨tasks, -, he⟩ := except_bind_error_iff.mp he
        · exact hraises e he
        · cases he
    · obtain ⟨exn, hread⟩ := hfails htask
      rw [hread]
      refine ⟨iff_of_false (fun ⟨tasks, h⟩ => (nomatch h)) fun h => htask h.1, fun e he => ?_⟩
      cases he
      exact ⟨exn, rfl⟩

/-- A single task without disk or memory, or with a line that cannot be read before the one of its cgroup,
ends the discovery of all, and not by the exception that makes the agent skip an iteration. -/
theorem getTasks_settled_iff {launchedTasks : List LaunchedTask}
    (hanswered : ∀ launchedTask ∈ launchedTasks, launchedTask.Answered) :
    ((∃ tasks, getTasks proc (.ok (some launchedTasks)) = .ok tasks) ↔
      ∀ launchedTask ∈ launchedTasks, launchedTask.Settled proc) ∧
    ∀ e, getTasks proc (.ok (some launchedTasks)) = .error e → ∃ exn, e = .builtin exn :=
  tasksOf_run hanswered

/-- What the agent tells of a task that runs. -/
def running : LaunchedTask where
  name := some "t"
  statuses := some [⟨some "TASK_RUNNING", some ⟨some 7, some "c"⟩, some "t", some "s", some "e"⟩]
  labels := some []
  resources := some [⟨"SCALAR", "disk", some (.rat 1)⟩, ⟨"SCALAR", "mem", some (.rat 1)⟩]

def procOfRunning : ProcCgroup := fun _ => .ok ["3:cpu,cpuacct:/mesos/c", "1:name=systemd:/a:b"]

theorem answered_running : ∀ launchedTask ∈ [running], launchedTask.Answered := by
  intro launchedTask hin
  rw [List.mem_singleton.mp hin]
  refine ⟨fun status h => ?_, fun status h => ?_, fun status h => ?_, ⟨_, rfl⟩, ⟨[], rfl, fun _ h => ?_⟩,
    ⟨_, rfl, fun resource h _ => ?_⟩⟩
  · cases h
    exact ⟨_, rfl⟩
  · cases h
    exact ⟨_, _, rfl, rfl⟩
  · cases h
    exact ⟨_, _, _, rfl, rfl, rfl⟩
  · exact absurd h List.not_mem_nil
  · simp only [List.mem_cons, List.not_mem_nil, or_false] at h
    obtain rfl | rfl := h <;> exact ⟨_, rfl⟩

/-- The line that cannot be read is not reached. -/
theorem getTasks_settled_iff_running :
    (getTasks procOfRunning (.ok (some [running]))).isOk = true ∧
    ((∃ tasks, getTasks procOfRunning (.ok (some [running])) = .ok tasks) ↔
      ∀ launchedTask ∈ [running], launchedTask.Settled procOfRunning) ∧
    ∀ e, getTasks procOfRunning (.ok (some [running])) = .error e → ∃ exn, e = .builtin exn :=
  ⟨by decide +kernel, getTasks_settled_iff answered_running⟩

/-- No task has subcgroups. -/
theorem getTasks_single {answer : Except Kubernetes.RequestException (Option (List LaunchedTask))}
    {tasks : List MesosTask} (h : getTasks proc answer = .ok tasks) :
    ∀ task ∈ tasks.map MesosTask.toTask, task.subcgroupsPaths = [] := by
  intro task htask
  obtain ⟨found, hfound, rfl⟩ := List.mem_map.mp htask
  unfold getTasks at h
  split at h
  · cases h
  · cases h
  · cases h
    exact absurd hfound List.not_mem_nil
  · obtain ⟨launchedTask, -, hfinds⟩ := forall₂_exists_left (tasksOf_ok h) hfound
    exact hfinds.single

end Mesos

/-! ## What is found in static lists -/

namespace StaticNode

variable {node : StaticNode} {fs : CgroupFs} {names : List String} {tasks : List Task}

theorem sanitizeCgroupPath_slash (taskName : String) :
    sanitizeCgroupPath ("/" ++ taskName) = Str.replace '/' "-" taskName := by
  refine String.toList_injective ?_
  rw [sanitizeCgroupPath, String.toList_ofList, Str.toList_replace, String.toList_append,
    List.map_eq_flatMap]
  refine List.flatMap_congr fun c _ => ?_
  by_cases hc : c = '/' <;> simp [hc]

/-- The tasks are those of the names that have their cgroups. -/
theorem getTasks_ok (hnames : node.taskNames fs = .ok names) (h : node.getTasks fs = .ok tasks) :
    List.Forall₂ (fun taskName task => ∃ labels, task = taskOf taskName labels)
      (names.filter fun taskName => node.hasCgroups fs taskName) tasks := by
  rw [getTasks, hnames, except_ok_bind, except_mapM_ok_iff] at h
  refine h.imp fun taskName task htask => ?_
  cases hlabels : node.labelsOf taskName with
  | error e =>
    rw [hlabels] at htask
    cases htask
  | ok labels =>
    rw [hlabels] at htask
    exact ⟨labels, (Except.ok.inj htask).symm⟩

theorem getTasks_names (hnames : node.taskNames fs = .ok names) (h : node.getTasks fs = .ok tasks) :
    tasks.map Task.taskId = (names.filter fun taskName => node.hasCgroups fs taskName) ∧
      tasks.map Task.containerName =
        (names.filter fun taskName => node.hasCgroups fs taskName).map (Str.replace '/' "-") ∧
      ∀ task ∈ tasks, task.subcgroupsPaths = [] := by
  have htasks := getTasks_ok hnames h
  refine ⟨?_, ?_, fun task htask => ?_⟩
  · refine (eq_map_of_forall₂ (f := id) ?_ fun _ _ _ he => he).trans (List.map_id _)
    rw [List.forall₂_map_right_iff]
    refine htasks.imp fun taskName task htask => ?_
    obtain ⟨labels, rfl⟩ := htask
    rfl
  · refine eq_map_of_forall₂ (R := fun taskName name => name = Str.replace '/' "-" taskName) ?_
      fun _ _ _ he => he
    rw [List.forall₂_map_right_iff]
    refine htasks.imp fun taskName task htask => ?_
    obtain ⟨labels, rfl⟩ := htask
    exact sanitizeCgroupPath_slash taskName
  · obtain ⟨taskName, -, labels, rfl⟩ := forall₂_exists_left htasks htask
    rfl

theorem getTasks_returns (hnames : node.taskNames fs = .ok names) :
    (∃ tasks, node.getTasks fs = .ok tasks) ↔ ∀ taskName ∈ names, node.hasCgroups fs taskName = true →
      ∀ labels ∈ node.tasksLabels, labels.items = [] ∨ taskName ∈ labels := by
  have hlabels : ∀ taskName, (∃ labels, node.labelsOf taskName = .ok labels) ↔
      ∀ labels ∈ node.tasksLabels, labels.items = [] ∨ taskName ∈ labels := by
    intro taskName
    rw [labelsOf]
    cases htasks : node.tasksLabels with
    | none => simp
    | some tasksLabels =>
      simp only [Option.mem_some_iff, forall_eq']
      by_cases hempty : tasksLabels.items = []
      · simp [hempty]
      · rw [if_neg hempty]
        cases hget : tasksLabels.get? taskName with
        | none =>
          refine iff_of_false except_not_returns fun h => ?_
          exact Dict.get?_eq_none_iff.mp hget (h.resolve_left hempty)
        | some labels => exact iff_of_true ⟨_, rfl⟩ (.inr (Dict.mem_keys_iff_get?.mpr ⟨labels, hget⟩))
  rw [getTasks, hnames, except_ok_bind]
  constructor
  · intro h taskName hin hcgroups
    obtain ⟨tasks, h⟩ := h
    rw [except_mapM_ok_iff] at h
    obtain ⟨task, -, htask⟩ := forall₂_exists_right h (List.mem_filter.mpr ⟨hin, hcgroups⟩)
    rw [← hlabels]
    cases hlabelled : node.labelsOf taskName with
    | error e =>
      rw [hlabelled] at htask
      cases htask
    | ok labels => exact ⟨labels, rfl⟩
  · intro h
    refine except_mapM_returns fun taskName hin => ?_
    obtain ⟨hin, hcgroups⟩ := List.mem_filter.mp hin
    obtain ⟨labels, hlabelled⟩ := (hlabels taskName).mpr (h taskName hin hcgroups)
    rw [hlabelled]
    exact ⟨_, rfl⟩

/-- Once there are labels for a task, there must be some for all that are found. The tasks are then apart
unless two names give one mon group, being the same but for slashes and dashes. -/
theorem getTasks_discovers (hnames : node.taskNames fs = .ok names) :
    ((∃ tasks, node.getTasks fs = .ok tasks) ↔ ∀ taskName ∈ names, node.hasCgroups fs taskName = true →
      ∀ labels ∈ node.tasksLabels, labels.items = [] ∨ taskName ∈ labels) ∧
    ∀ tasks, node.getTasks fs = .ok tasks → (Apart tasks ↔
      ((names.filter fun taskName => node.hasCgroups fs taskName).map (Str.replace '/' "-")).Nodup) := by
  refine ⟨getTasks_returns hnames, fun tasks h => ?_⟩
  obtain ⟨hids, hcontainers, hsingle⟩ := getTasks_names hnames h
  rw [apart_iff_names hsingle, hids, hcontainers]
  exact ⟨fun hnodup => hnodup.2, fun hnodup => ⟨.of_map _ hnodup, hnodup⟩⟩

/-- A task that is listed, and another that is found in a directory. -/
def listed : StaticNode where
  tasks := ["a"]
  requirePids := false
  defaultLabels := ∅
  tasksLabels := some (Dict.ofItems [("a", ∅), ("d/b", ∅)])
  directory := some "d"

def listedFs : CgroupFs where
  listdir := fun _ => .ok ["b"]
  isdir := fun _ => true
  tasksFile := fun _ => some []

theorem getTasks_discovers_listed :
    ((∃ tasks, listed.getTasks listedFs = .ok tasks) ↔ ∀ taskName ∈ ["a", "d/b"],
      listed.hasCgroups listedFs taskName = true → ∀ labels ∈ listed.tasksLabels,
        labels.items = [] ∨ taskName ∈ labels) ∧
    ∀ tasks, listed.getTasks listedFs = .ok tasks → (Apart tasks ↔
      ((["a", "d/b"].filter fun taskName => listed.hasCgroups listedFs taskName).map
        (Str.replace '/' "-")).Nodup) :=
  getTasks_discovers (by decide +kernel)

end StaticNode

/-! ## Runs with the tasks that are found -/

/-- What one of the nodes finds, with the labels that are then added: pods with uids of their own, and
executors and names whose cgroups have names of their own when flattened. -/
inductive Discovered : List Task → Prop
  | kubernetes {node : Kubernetes.KubernetesNode} {cgroups : Kubernetes.CpuCgroups}
      {request : String → Except Kubernetes.RequestException (List Kubernetes.Pod)}
      {pods : List Kubernetes.Pod}
      {found : List Kubernetes.KubernetesTask} (labels : Task → Dict String String)
      (hpods : node.requestPods request = .ok pods) (hplain : ∀ pod ∈ pods, pod.Plain)
      (hdistinct : Kubernetes.Distinct pods) (h : node.getTasks cgroups request = .ok found) :
      Discovered ((found.map (·.toTask)).map fun task => { task with labels := labels task })
  | mesos {proc : Mesos.ProcCgroup} {found : List Mesos.MesosTask}
      {answer : Except Kubernetes.RequestException (Option (List Mesos.LaunchedTask))}
      (labels : Task → Dict String String) (hids : (found.map (·.taskId)).Nodup)
      (hnames : (found.map fun task => sanitizeCgroupPath task.cgroupPath).Nodup)
      (h : Mesos.getTasks proc answer = .ok found) :
      Discovered ((found.map (·.toTask)).map fun task => { task with labels := labels task })
  | static {node : StaticNode} {fs : StaticNode.CgroupFs} {names : List String} {found : List Task}
      (labels : Task → Dict String String) (htaskNames : node.taskNames fs = .ok names)
      (hnames : ((names.filter fun taskName => node.hasCgroups fs taskName).map (Str.replace '/' "-")).Nodup)
      (h : node.getTasks fs = .ok found) :
      Discovered (found.map fun task => { task with labels := labels task })

theorem Discovered.apart {tasks : List Task} (h : Discovered tasks) : Apart tasks := by
  cases h with
  | kubernetes labels hpods hplain hdistinct h =>
    exact (Kubernetes.apart_of_describes (hdistinct.sublist List.filter_sublist)
      (Kubernetes.KubernetesNode.getTasks_describes hpods hplain h)).relabel labels
  | mesos labels hids hnames h =>
    refine ((apart_iff_names (Mesos.getTasks_single h)).mpr ⟨?_, ?_⟩).relabel labels
    · rw [List.map_map]
      exact hids
    · rw [List.map_map]
      exact hnames
  | static labels htaskNames hnames h =>
    obtain ⟨hids, hcontainers, hsingle⟩ := StaticNode.getTasks_names htaskNames h
    refine ((apart_iff_names hsingle).mpr ⟨?_, ?_⟩).relabel labels
    · rw [hids]
      exact .of_map _ hnames
    · rw [hcontainers]
      exact hnames

/-- In a run that is told of what the nodes find, every process of a watched task is in the mon group of
that task, or in the root group and in no mon group. -/
theorem runs_discovered {n₀ n : Node} (hs : n₀.Sound) (hempty : n₀.manager.containers = ∅)
    (hrun : Runs (fun _ tasks => Discovered tasks) n₀ n) : Housed n := by
  refine hrun.invariant (housed_of_empty hs hempty) ?_ ?_ ?_
  · intro n n' tasks hn hfound h
    exact syncContainersState_housed hn.sound hfound.apart h
  · intro n n' hn h
    exact h.housed hn
  · intro n host hn h
    exact h.housed hn

section

open Kubernetes.KubernetesNode

/-- The process of the container is taken into the mon group of the pod. -/
theorem runs_discovered_burstable : ∃ n, Runs (fun _ tasks => Discovered tasks) (starting hostOfPod) n ∧
    Resctrl.place? n.host.resctrl 7 = some ("", some "kubepods-burstable-podab") ∧ Housed n := by
  have hfound : Discovered ((tasksOfPod.map (·.toTask)).map
      fun task => { task with labels := task.labels }) :=
    .kubernetes Task.labels rfl plain_burstable distinct_burstable getTasks_burstable
  obtain ⟨⟨⟩, n, hsync, hplace⟩ := exists_of_returnsSuch
    (p := fun _ (n : Node) => decide (Resctrl.place? n.host.resctrl 7 = some
      ("", some "kubepods-burstable-podab")))
    (r := (ContainerManager.syncContainersState ((tasksOfPod.map (·.toTask)).map fun task =>
      { task with labels := task.labels })).run (starting hostOfPod)) (by decide +kernel)
  have hrun : Runs (fun _ tasks => Discovered tasks) (starting hostOfPod) n := .sync .start hfound hsync
  exact ⟨n, hrun, of_decide_eq_true hplace, runs_discovered
    (starting_sound (Resctrl.wellFormed_of_items (by decide) (by decide) (by decide))) rfl hrun⟩

end

end Wca
