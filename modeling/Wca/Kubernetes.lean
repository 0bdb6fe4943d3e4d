import Wca.Departures
import Wca.Labels
import Wca.Py.Split
import Wca.Resources

/-!
# Pods found by Kubernetes

`KubernetesNode.get_tasks` reads the pods that the kubelet or the API server lists and makes a task of each
one that runs here with all of its containers ready. The paths of the cgroups are built from the class, the
uid and the ids of the containers. They tell all pods and containers apart, and so do the names that the
agent gives to its mon groups (`getTasks_apart`), as long as no two uids are the same but for dashes and
underscores.
-/

namespace Wca.Kubernetes

open Py

/-! ## The answer of the orchestrator -/

structure ContainerStatus where
  ready : Bool
  /-- the keys of the state that the container is in -/
  state : Option (List String)
  containerID : Option String

structure Pod where
  containerStatuses : Option (List ContainerStatus)
  hostIP : Option String
  qosClass : Option String
  uid : Option String
  name : Option String
  podNamespace : Option String
  labels : Option (Dict String String)
  containers : List (ContainerSpec String)

inductive RequestException where
  | ConnectionError (msg : String)
  | ReadTimeout (msg : String)
  | other (msg : String)
  deriving DecidableEq

inductive KubeExc where
  | builtin (e : Exn)
  | TaskSynchronizationException (msg : String)
  | MissingCgroupException (podId : String)
  | RequestException (e : RequestException)
  deriving DecidableEq

inductive CgroupDriverType where
  | SYSTEMD
  | CGROUPFS
  deriving DecidableEq

inductive QosClass where
  | BESTEFFORT
  | BURSTABLE
  | GUARANTEED
  deriving DecidableEq

def QosClass.value : QosClass → String
  | BESTEFFORT => "besteffort"
  | BURSTABLE => "burstable"
  | GUARANTEED => "guaranteed"

def QosClass.hasValue (value : String) : Bool :=
  [BESTEFFORT, BURSTABLE, GUARANTEED].any fun item => value = item.value

/-- The label with the class of a pod. -/
def QOS_LABELNAME : String := "app_kubernetes_io__qos_class"

structure KubernetesNode where
  cgroupDriver : CgroupDriverType
  kubeletEnabled : Bool
  nodeIp : Option String
  monitoredNamespaces : List String

structure KubernetesTask extends Task where
  name : String
  qos : String
  resources : Dict String Flt

/-! ## Paths -/

def joinOne (path part : String) : String :=
  if Str.startsWith "/" part then part
  else if path = "" ∨ Str.endsWith "/" path then path ++ part
  else path ++ "/" ++ part

/-- `os.path.join`. -/
def pathJoin (path : String) (parts : List String) : String := parts.foldl joinOne path

/-- `os.path.exists` of a directory of the cpu subsystem is a parameter. -/
abbrev CpuCgroups := String → Bool

def CgroupSubsystem.CPU : String := "/sys/fs/cgroup/cpu"

/-- The last slash of a path is removed. -/
def removeLastSlash (result : String) : String :=
  if result.length > 1 ∧ Str.endsWith "/" result then .ofList result.toList.dropLast else result

/-- The `replace` of a pod without an id raises, with either driver. -/
def buildCgroupPath (cgroups : CpuCgroups) (cgroupDriver : CgroupDriverType) (qos : String)
    (podId : Option String) (containerId : String) : Except KubeExc String :=
  match podId with
  | none => .error (.builtin (.AttributeError "'NoneType' object has no attribute 'replace'"))
  | some podId =>
    match cgroupDriver with
    | .SYSTEMD =>
      let podId := Str.replace '-' "_" podId
      let containerId := if containerId ≠ "" then "docker-" ++ containerId ++ ".scope" else containerId
      .ok (removeLastSlash (pathJoin "/kubepods.slice" ["kubepods-" ++ qos ++ ".slice",
        "kubepods-" ++ qos ++ "-pod" ++ podId ++ ".slice", containerId, ""]))
    | .CGROUPFS =>
      let folder := if qos = QosClass.GUARANTEED.value then "" else qos
      let podPath := pathJoin "/kubepods" [folder, "pod" ++ podId]
      let cuttedPodPath := pathJoin "/kubepods" [folder, "pod" ++ Str.replace '-' "" podId]
      if cgroups (CgroupSubsystem.CPU ++ podPath) then
        .ok (removeLastSlash (pathJoin podPath [containerId, ""]))
      else if cgroups (CgroupSubsystem.CPU ++ cuttedPodPath) then
        .ok (removeLastSlash (pathJoin cuttedPodPath [containerId, ""]))
      else .error (.MissingCgroupException podId)

/-! ## `get_tasks` -/

namespace KubernetesNode

variable (node : KubernetesNode) (cgroups : CpuCgroups)

/-- The pod has containers, and is one of those that this agent is to watch. -/
def Watches (pod : Pod) : Prop :=
  pod.containerStatuses.getD [] ≠ [] ∧
    if node.kubeletEnabled then ∃ ns ∈ pod.podNamespace, ns ∈ node.monitoredNamespaces
    else ∃ hostIp ∈ pod.hostIP, hostIp = Str.strip (node.nodeIp.getD "")

/-- What is after `://` in the id of a container. -/
def idOf (container : ContainerStatus) : Except KubeExc String :=
  match container.containerID with
  | none => .error (.builtin (.AttributeError "'NoneType' object has no attribute 'split'"))
  | some containerID =>
    match (Str.splitText "://" containerID)[1]? with
    | none => .error (.builtin (.IndexError "list index out of range"))
    | some containerId => .ok containerId

/-- The state of a container that is not ready is only logged. -/
def logState (container : ContainerStatus) : Except KubeExc Unit :=
  match container.state with
  | none => .error (.builtin (.AttributeError "'NoneType' object has no attribute 'keys'"))
  | some [] => .error (.builtin (.IndexError "list index out of range"))
  | some _ => .ok ()

/-- The loop over the containers, which ends at the first one that is not ready. -/
def containersCgroups (qos : String) (podId : Option String) :
    List ContainerStatus → Except KubeExc (Option (List String))
  | [] => .ok (some [])
  | container :: rest =>
    if container.ready = true then do
      let containerId ← idOf container
      let path ← buildCgroupPath cgroups node.cgroupDriver qos podId containerId
      let paths ← containersCgroups qos podId rest
      pure (paths.map (path :: ·))
    else do
      logState container
      pure none

def labelsOf (pod : Pod) (qos : String) : Dict String String :=
  (Dict.ofItems (((pod.labels.getD ∅).items).map fun p => (sanitizeLabel p.1, p.2))).set
    (sanitizeLabel QOS_LABELNAME) qos

/-- What becomes of a pod that is watched. -/
def readPod (pod : Pod) : Except KubeExc (Option KubernetesTask) :=
  match pod.qosClass, pod.podNamespace, pod.name with
  | none, _, _ => .error (.builtin (.AttributeError "'NoneType' object has no attribute 'lower'"))
  | some _, none, _ => .error (.builtin (.TypeError "unsupported operand type(s) for +"))
  | some _, some _, none => .error (.builtin (.TypeError "must be str, not NoneType"))
  | some qosClass, some podNamespace, some podName =>
    let qos := qosClass.toLower
    if QosClass.hasValue qos then do
      match ← containersCgroups node cgroups qos pod.uid (pod.containerStatuses.getD []) with
      | none => pure none
      | some subcgroupsPaths =>
        let resources ← (calculatePodResources pod.containers).mapError .builtin
        let cgroupPath ← buildCgroupPath cgroups node.cgroupDriver qos pod.uid ""
        pure (some {
          taskId := pod.uid.getD ""
          cgroupPath := cgroupPath
          subcgroupsPaths := subcgroupsPaths
          labels := labelsOf pod qos
          name := podNamespace ++ "/" ++ podName
          qos := qos
          resources := resources })
    else .error (.builtin (.AssertionError ""))

instance (pod : Pod) : Decidable (node.Watches pod) := by
  unfold Watches
  infer_instance

/-- The pods one after the other; what one of them raises is not caught. -/
def tasksOf : List Pod → Except KubeExc (List KubernetesTask)
  | [] => .ok []
  | pod :: pods =>
    if node.Watches pod then do
      let task ← readPod node cgroups pod
      let tasks ← tasksOf pods
      pure (task.toList ++ tasks)
    else tasksOf pods

/-- `_request_kubelet` and `_request_kubeapi`. What comes back for a path is a parameter. -/
def requestPods (request : String → Except RequestException (List Pod)) :
    Except RequestException (List Pod) :=
  if node.kubeletEnabled then request "/pods"
  else List.flatten <$> node.monitoredNamespaces.mapM fun podNamespace =>
    request ("/api/v1/namespaces/" ++ podNamespace ++ "/pods")

def getTasks (request : String → Except RequestException (List Pod)) : Except KubeExc (List KubernetesTask) :=
  match node.requestPods request with
  | .error (.ConnectionError e) => .error (.TaskSynchronizationException ("connection error: " ++ e))
  | .error (.ReadTimeout e) => .error (.TaskSynchronizationException ("timeout: " ++ e))
  | .error e => .error (.RequestException e)
  | .ok pods =>
    if node.kubeletEnabled = false ∧ node.nodeIp = none then
      .error (.builtin (.ValueError "node_ip is not set in config"))
    else tasksOf node cgroups pods

end KubernetesNode

/-! ## What the paths are -/

section Joining

variable {path part s t : String}

theorem endsWith_slash_iff : Str.endsWith "/" s = true ↔ ∃ t, s = t ++ "/" := by
  rw [Str.endsWith, List.isSuffixOf_iff_suffix]
  constructor
  · rintro ⟨t, ht⟩
    refine ⟨.ofList t, String.toList_injective ?_⟩
    rw [String.toList_append, String.toList_ofList, ht]
  · rintro ⟨t, rfl⟩
    exact ⟨t.toList, (String.toList_append).symm⟩

theorem endsWith_slash_append (hne : t ≠ "") (ht : '/' ∉ t.toList) : Str.endsWith "/" (s ++ t) = false := by
  rw [Bool.eq_false_iff, ne_eq, endsWith_slash_iff]
  rintro ⟨u, hu⟩
  have hlist := congrArg (fun s => s.toList.getLast?) hu
  simp only [String.toList_append] at hlist
  rw [List.getLast?_append_of_ne_nil _ (mt String.toList_eq_nil_iff.mp hne)] at hlist
  have hlast : t.toList.getLast? = some '/' := by simpa using hlist
  exact ht (List.mem_of_getLast? hlast)

theorem joinOne_of (hpart : Str.startsWith "/" part = false) (hne : path ≠ "")
    (hpath : Str.endsWith "/" path = false) : joinOne path part = path ++ "/" ++ part := by
  rw [joinOne, if_neg (by simp [hpart]), if_neg (by simp [hne, hpath])]

theorem startsWith_slash_of_not_mem (h : '/' ∉ part.toList) : Str.startsWith "/" part = false := by
  rw [Bool.eq_false_iff]
  intro hstarts
  obtain ⟨rest, rfl⟩ := Str.exists_of_startsWith hstarts
  exact h (by simp)

theorem removeLastSlash_append (hne : s ≠ "") : removeLastSlash (s ++ "/") = s := by
  have hlength : 1 < (s ++ "/").length := by
    have hpos := List.length_pos_iff.mpr (mt String.toList_eq_nil_iff.mp hne)
    rw [String.length_append, ← String.length_toList]
    exact Nat.lt_add_of_pos_left hpos
  rw [removeLastSlash, if_pos ⟨hlength, endsWith_slash_iff.mpr ⟨s, rfl⟩⟩]
  refine String.toList_injective ?_
  rw [String.toList_ofList, String.toList_append]
  exact List.dropLast_concat

/-- The path of a cgroup below another, or of that one itself. -/
theorem removeLastSlash_pathJoin (hne : path ≠ "") (hpath : Str.endsWith "/" path = false)
    (hpart : '/' ∉ part.toList) : removeLastSlash (pathJoin path [part, ""]) =
      if part = "" then path else path ++ "/" ++ part := by
  have hjoin : joinOne path part = path ++ "/" ++ part :=
    joinOne_of (startsWith_slash_of_not_mem hpart) hne hpath
  have hempty : Str.startsWith "/" "" = false := by decide
  rw [pathJoin, List.foldl_cons, List.foldl_cons, List.foldl_nil, hjoin]
  split
  · rename_i he
    subst he
    rw [String.append_empty, joinOne, if_neg (by simp [hempty]),
      if_pos (.inr (endsWith_slash_iff.mpr ⟨path, rfl⟩)), String.append_empty]
    exact removeLastSlash_append hne
  · rename_i hpart'
    have hne' : path ++ "/" ++ part ≠ "" := by
      intro he
      have hlist := congrArg String.toList he
      simp at hlist
    rw [joinOne_of hempty hne' (endsWith_slash_append hpart' hpart), String.append_empty]
    exact removeLastSlash_append hne'

end Joining

/-- The directory of the pods of a class. -/
def parent : CgroupDriverType → QosClass → String
  | .SYSTEMD, qos => "/kubepods.slice/kubepods-" ++ qos.value ++ ".slice"
  | .CGROUPFS, .GUARANTEED => "/kubepods"
  | .CGROUPFS, qos => "/kubepods/" ++ qos.value

/-- The directory of a pod in it. -/
def leaf : CgroupDriverType → QosClass → String → String
  | .SYSTEMD, qos, id => "kubepods-" ++ qos.value ++ "-pod" ++ id ++ ".slice"
  | .CGROUPFS, _, id => "pod" ++ id

/-- The directory of a container in that. -/
def containerLeaf : CgroupDriverType → String → String
  | .SYSTEMD, id => "docker-" ++ id ++ ".scope"
  | .CGROUPFS, id => id

def podPath (driver : CgroupDriverType) (qos : QosClass) (id : String) : String :=
  parent driver qos ++ "/" ++ leaf driver qos id

/-- A uid without what the drivers replace or leave out. -/
def bare (uid : String) : String := .ofList (uid.toList.filter fun c => c ≠ '-' ∧ c ≠ '_')

section Paths

variable {driver : CgroupDriverType} {qos : QosClass} {uid id path : String} {cgroups : CpuCgroups}

theorem bare_replace (uid : String) {new : String} (hnew : ∀ c ∈ new.toList, c = '-' ∨ c = '_') :
    bare (Str.replace '-' new uid) = bare uid := by
  refine String.toList_injective ?_
  rw [bare, bare, String.toList_ofList, String.toList_ofList, Str.toList_replace, List.filter_flatMap]
  have hnone : new.toList.filter (fun c => decide (c ≠ '-' ∧ c ≠ '_')) = [] :=
    List.filter_eq_nil_iff.mpr fun c hc => by
      obtain rfl | rfl := hnew c hc <;> decide
  induction uid.toList with
  | nil => rfl
  | cons c cs ih =>
    rw [List.flatMap_cons, ih, List.filter_cons]
    by_cases hc : c = '-'
    · subst hc
      rw [if_pos rfl, hnone]
      rfl
    · rw [if_neg hc, List.filter_cons]
      split <;> rfl

theorem not_mem_replace {new : String} (huid : '/' ∉ uid.toList) (hnew : '/' ∉ new.toList) :
    '/' ∉ (Str.replace '-' new uid).toList := by
  rw [Str.toList_replace, List.mem_flatMap]
  rintro ⟨c, hc, hin⟩
  split at hin
  · exact hnew hin
  · rw [List.mem_singleton.mp hin] at huid
    exact huid hc

theorem not_mem_value (qos : QosClass) : '/' ∉ qos.value.toList := by
  cases qos <;> decide

theorem not_mem_leaf (driver : CgroupDriverType) (qos : QosClass) (hid : '/' ∉ id.toList) :
    '/' ∉ (leaf driver qos id).toList := by
  have hvalue := not_mem_value qos
  cases driver <;> simp [leaf, hid, hvalue]

theorem not_mem_containerLeaf (driver : CgroupDriverType) (hid : '/' ∉ id.toList) :
    '/' ∉ (containerLeaf driver id).toList := by
  cases driver <;> simp [containerLeaf, hid]

theorem leaf_ne_empty : leaf driver qos id ≠ "" := by
  intro he
  have hlist := congrArg String.toList he
  cases driver <;> simp [leaf] at hlist

theorem podPath_ne_empty : podPath driver qos id ≠ "" := by
  intro he
  have hlist := congrArg String.toList he
  simp [podPath] at hlist

theorem endsWith_podPath (hid : '/' ∉ id.toList) : Str.endsWith "/" (podPath driver qos id) = false :=
  endsWith_slash_append leaf_ne_empty (not_mem_leaf _ _ hid)

/-- The path of a container below the pod, or of the pod itself when there is no id. -/
theorem removeLastSlash_podPath (hid : '/' ∉ id.toList) {part : String} (hpart : '/' ∉ part.toList) :
    removeLastSlash (pathJoin (podPath driver qos id) [part, ""]) =
      podPath driver qos id ++ if part = "" then "" else "/" ++ part := by
  rw [removeLastSlash_pathJoin podPath_ne_empty (endsWith_podPath hid) hpart]
  split
  · rw [String.append_empty]
  · rw [String.append_assoc]

theorem pathJoin_systemd (hid : '/' ∉ id.toList) (rest : List String) :
    pathJoin "/kubepods.slice" (("kubepods-" ++ qos.value ++ ".slice") ::
      ("kubepods-" ++ qos.value ++ "-pod" ++ id ++ ".slice") :: rest) =
      pathJoin (podPath .SYSTEMD qos id) rest := by
  have hfirst : joinOne "/kubepods.slice" ("kubepods-" ++ qos.value ++ ".slice") = parent .SYSTEMD qos := by
    cases qos <;> decide
  have hparent : parent .SYSTEMD qos ≠ "" ∧ Str.endsWith "/" (parent .SYSTEMD qos) = false := by
    cases qos <;> decide
  have hsecond : joinOne (parent .SYSTEMD qos) (leaf .SYSTEMD qos id) = podPath .SYSTEMD qos id :=
    joinOne_of (startsWith_slash_of_not_mem (not_mem_leaf _ _ hid)) hparent.1 hparent.2
  rw [pathJoin, List.foldl_cons, List.foldl_cons, hfirst]
  exact congrArg (fun path => rest.foldl joinOne path) hsecond

theorem pathJoin_cgroupfs (hid : '/' ∉ id.toList) :
    pathJoin "/kubepods" [if qos.value = QosClass.GUARANTEED.value then "" else qos.value, "pod" ++ id] =
      podPath .CGROUPFS qos id := by
  have hstarts : Str.startsWith "/" ("pod" ++ id) = false :=
    startsWith_slash_of_not_mem (not_mem_leaf .CGROUPFS qos hid)
  have hfirst : joinOne "/kubepods" (if qos.value = QosClass.GUARANTEED.value then "" else qos.value) =
      if qos = .GUARANTEED then "/kubepods/" else parent .CGROUPFS qos := by
    cases qos <;> decide
  rw [pathJoin, List.foldl_cons, List.foldl_cons, List.foldl_nil, hfirst]
  split
  · rename_i hqos
    subst hqos
    rw [joinOne, if_neg (by simp [hstarts]), if_pos (.inr (by decide))]
    rfl
  · rename_i hqos
    have hparent : parent .CGROUPFS qos ≠ "" ∧ Str.endsWith "/" (parent .CGROUPFS qos) = false := by
      cases qos <;> decide
    exact joinOne_of hstarts hparent.1 hparent.2

/-- What can be said of the path that is built for a container, or for a pod when the id is empty. The same
folder is found for all containers of a pod. -/
theorem buildCgroupPath_ok (cgroups : CpuCgroups) (driver : CgroupDriverType) (qos : QosClass)
    (huid : '/' ∉ uid.toList) :
    ∃ folder, bare folder = bare uid ∧ '/' ∉ folder.toList ∧ ∀ id path, '/' ∉ id.toList →
      buildCgroupPath cgroups driver qos.value (some uid) id = .ok path →
      path = podPath driver qos folder ++ if id = "" then "" else "/" ++ containerLeaf driver id := by
  cases driver with
  | SYSTEMD =>
    have hfolder : '/' ∉ (Str.replace '-' "_" uid).toList := not_mem_replace huid (by decide)
    refine ⟨Str.replace '-' "_" uid, bare_replace uid (by simp), hfolder, fun id path hid h => ?_⟩
    have hpath := Except.ok.inj h
    rw [← hpath, pathJoin_systemd hfolder]
    by_cases he : id = ""
    · rw [if_pos he, if_neg (not_not.mpr he), he, removeLastSlash_podPath hfolder (by decide), if_pos rfl]
    · have hleaf : '/' ∉ ("docker-" ++ id ++ ".scope").toList := not_mem_containerLeaf .SYSTEMD hid
      have hne : "docker-" ++ id ++ ".scope" ≠ "" := fun hempty => by
        have hlist := congrArg String.toList hempty
        simp at hlist
      rw [if_neg he, if_pos he, removeLastSlash_podPath hfolder hleaf, if_neg hne]
      rfl
  | CGROUPFS =>
    have hcut : '/' ∉ (Str.replace '-' "" uid).toList := not_mem_replace huid (by decide)
    simp only [buildCgroupPath, pathJoin_cgroupfs huid, pathJoin_cgroupfs hcut]
    by_cases hthere : cgroups (CgroupSubsystem.CPU ++ podPath .CGROUPFS qos uid) = true
    · refine ⟨uid, rfl, huid, fun id path hid h => ?_⟩
      rw [if_pos hthere] at h
      rw [← Except.ok.inj h, removeLastSlash_podPath huid hid]
      rfl
    · refine ⟨Str.replace '-' "" uid, bare_replace uid (by simp), hcut, fun id path hid h => ?_⟩
      rw [if_neg hthere] at h
      split at h
      · rw [← Except.ok.inj h, removeLastSlash_podPath hcut hid]
        rfl
      · cases h

end Paths

/-! ## What the tasks are -/

namespace Pod

/-- All containers of the pod are ready. -/
def Ready (pod : Pod) : Prop := ∀ container ∈ pod.containerStatuses.getD [], container.ready = true

instance (pod : Pod) : Decidable pod.Ready :=
  inferInstanceAs (Decidable (∀ container ∈ pod.containerStatuses.getD [], container.ready = true))

/-- The uid and the ids of the containers are no paths, and the ids are different. -/
structure Plain (pod : Pod) : Prop where
  uid : ∀ uid, pod.uid = some uid → '/' ∉ uid.toList
  ids : ∀ container ∈ pod.containerStatuses.getD [], ∀ id, KubernetesNode.idOf container = .ok id →
    id ≠ "" ∧ '/' ∉ id.toList
  distinct : ((pod.containerStatuses.getD []).map KubernetesNode.idOf).Nodup

end Pod

/-- The task is that of the pod, with a directory for each of its containers in that of the pod. -/
structure Describes (driver : CgroupDriverType) (pod : Pod) (task : KubernetesTask) : Prop where
  uid : pod.uid = some task.taskId
  paths : ∃ (qos : QosClass) (folder : String) (ids : List String), task.qos = QosClass.value qos ∧
    bare folder = bare task.taskId ∧
    '/' ∉ folder.toList ∧ task.cgroupPath = podPath driver qos folder ∧
    task.subcgroupsPaths = ids.map (fun id => podPath driver qos folder ++ "/" ++ containerLeaf driver id) ∧
    (pod.containerStatuses.getD []).map KubernetesNode.idOf = ids.map Except.ok ∧
    ∀ id ∈ ids, '/' ∉ id.toList

namespace KubernetesNode

variable {node : KubernetesNode} {cgroups : CpuCgroups} {qos : String} {podId : Option String}

theorem containersCgroups_ok {containers : List ContainerStatus} {paths? : Option (List String)}
    (h : node.containersCgroups cgroups qos podId containers = .ok paths?) :
    (paths? = none ∧ ¬ ∀ container ∈ containers, container.ready = true) ∨
      (∀ container ∈ containers, container.ready = true) ∧ ∃ ids paths, paths? = some paths ∧
        containers.map idOf = ids.map Except.ok ∧
        List.Forall₂ (fun id path => buildCgroupPath cgroups node.cgroupDriver qos podId id = .ok path)
          ids paths := by
  induction containers generalizing paths? with
  | nil =>
    cases h
    exact .inr ⟨fun _ h => absurd h List.not_mem_nil, [], [], rfl, rfl, .nil⟩
  | cons container rest ih =>
    rw [containersCgroups] at h
    split at h
    · rename_i hready
      obtain ⟨id, hid, h⟩ := except_bind_ok_iff.mp h
      obtain ⟨path, hpath, h⟩ := except_bind_ok_iff.mp h
      obtain ⟨rest?, hrest, h⟩ := except_bind_ok_iff.mp h
      cases h
      obtain ⟨rfl, hnot⟩ | ⟨hall, ids, paths, rfl, hids, hpaths⟩ := ih hrest
      · exact .inl ⟨rfl, fun hall => hnot fun c hc => hall c (List.mem_cons_of_mem _ hc)⟩
      · refine .inr ⟨List.forall_mem_cons.mpr ⟨hready, hall⟩, id :: ids, path :: paths, rfl,
          ?_, .cons hpath hpaths⟩
        rw [List.map_cons, List.map_cons, hid, hids]
    · rename_i hready
      obtain ⟨_, -, h⟩ := except_bind_ok_iff.mp h
      cases h
      exact .inl ⟨rfl, fun hall => hready (hall container List.mem_cons_self)⟩

theorem hasValue_iff {value : String} :
    QosClass.hasValue value = true ↔ ∃ qos : QosClass, value = qos.value := by
  constructor
  · intro h
    obtain ⟨qos, -, hqos⟩ := List.any_eq_true.mp h
    exact ⟨qos, of_decide_eq_true hqos⟩
  · rintro ⟨qos, rfl⟩
    cases qos <;> decide

/-- A pod that is read gives a task just when it is ready, and then its own. -/
theorem readPod_ok {pod : Pod} (hplain : pod.Plain) {task? : Option KubernetesTask}
    (h : node.readPod cgroups pod = .ok task?) :
    (task? = none ∧ ¬ pod.Ready) ∨
      pod.Ready ∧ ∃ task, task? = some task ∧ Describes node.cgroupDriver pod task := by
  obtain ⟨qosClass, hqos⟩ : ∃ qosClass, pod.qosClass = some qosClass := by
    cases hnone : pod.qosClass with
    | none =>
      rw [readPod, hnone] at h
      cases h
    | some qosClass => exact ⟨qosClass, rfl⟩
  obtain ⟨podNamespace, hnamespace⟩ : ∃ podNamespace, pod.podNamespace = some podNamespace := by
    cases hnone : pod.podNamespace with
    | none =>
      rw [readPod, hqos, hnone] at h
      cases h
    | some podNamespace => exact ⟨podNamespace, rfl⟩
  obtain ⟨podName, hname⟩ : ∃ podName, pod.name = some podName := by
    cases hnone : pod.name with
    | none =>
      rw [readPod, hqos, hnamespace, hnone] at h
      cases h
    | some podName => exact ⟨podName, rfl⟩
  rw [readPod, hqos, hnamespace, hname] at h
  dsimp only at h
  split at h
  · rename_i hvalue
    obtain ⟨qos, hvalue⟩ := hasValue_iff.mp hvalue
    rw [hvalue] at h
    obtain ⟨paths?, hpaths, h⟩ := except_bind_ok_iff.mp h
    obtain ⟨rfl, hnot⟩ | ⟨hready, ids, paths, rfl, hids, hbuilt⟩ := containersCgroups_ok hpaths
    · cases h
      exact .inl ⟨rfl, hnot⟩
    · obtain ⟨resources, -, h⟩ := except_bind_ok_iff.mp h
      obtain ⟨path, hpath, h⟩ := except_bind_ok_iff.mp h
      cases h
      obtain ⟨uid, huid⟩ : ∃ uid, pod.uid = some uid := by
        cases hnone : pod.uid with
        | none =>
          rw [hnone] at hpath
          cases hpath
        | some uid => exact ⟨uid, rfl⟩
      rw [huid] at hbuilt hpath
      obtain ⟨folder, hbare, hslash, hpathOf⟩ := buildCgroupPath_ok cgroups node.cgroupDriver qos
        (hplain.uid uid huid)
      have hplainIds : ∀ id ∈ ids, id ≠ "" ∧ '/' ∉ id.toList := by
        intro id hid
        have hin := List.mem_map_of_mem (f := Except.ok (ε := KubeExc)) hid
        rw [← hids] at hin
        obtain ⟨container, hcontainer, hidOf⟩ := List.mem_map.mp hin
        exact hplain.ids container hcontainer id hidOf
      refine .inr ⟨hready, _, rfl, ?_, qos, folder, ids, rfl, ?_, hslash, ?_, ?_, hids,
        fun id hid => (hplainIds id hid).2⟩
      · rw [huid]
        rfl
      · rw [huid]
        exact hbare
      · have hpod := hpathOf "" path (by decide) hpath
        rw [if_pos rfl, String.append_empty] at hpod
        exact hpod
      · refine eq_map_of_forall₂ hbuilt fun id hid path' hpath' => ?_
        obtain ⟨hne, hslash'⟩ := hplainIds id hid
        have hsub := hpathOf id path' hslash' hpath'
        rwa [if_neg hne, ← String.append_assoc] at hsub
  · cases h

/-- The tasks are those of the pods that run here and are ready, in the order of the answer. -/
theorem tasksOf_ok {pods : List Pod} (hplain : ∀ pod ∈ pods, pod.Plain) {tasks : List KubernetesTask}
    (h : node.tasksOf cgroups pods = .ok tasks) :
    List.Forall₂ (Describes node.cgroupDriver)
      (pods.filter fun pod => node.Watches pod ∧ pod.Ready) tasks := by
  induction pods generalizing tasks with
  | nil =>
    cases h
    exact .nil
  | cons pod pods ih =>
    have hrest := fun p hp => hplain p (List.mem_cons_of_mem pod hp)
    rw [tasksOf] at h
    split at h
    · rename_i hwatches
      obtain ⟨task?, htask, h⟩ := except_bind_ok_iff.mp h
      obtain ⟨tasks', htasks, h⟩ := except_bind_ok_iff.mp h
      cases h
      obtain ⟨rfl, hnot⟩ | ⟨hready, task, rfl, hdescribes⟩ :=
        readPod_ok (hplain pod List.mem_cons_self) htask
      · rw [List.filter_cons_of_neg (by simp [hnot])]
        exact ih hrest htasks
      · rw [List.filter_cons_of_pos (by simp [hwatches, hready])]
        exact .cons hdescribes (ih hrest htasks)
    · rename_i hwatches
      rw [List.filter_cons_of_neg (by simp [hwatches])]
      exact ih hrest h

end KubernetesNode

/-! ## The paths tell pods apart -/

section Apart

variable {driver : CgroupDriverType} {qos qos' : QosClass} {id id' s s' t t' : String}

/-- A path is cut in one way at its last slash. -/
theorem append_slash_inj (ht : '/' ∉ t.toList) (ht' : '/' ∉ t'.toList) (h : s ++ "/" ++ t = s' ++ "/" ++ t') :
    s = s' ∧ t = t' := by
  have hcut : ∀ {a b a' b' : List Char}, '/' ∉ b → '/' ∉ b' → a ++ '/' :: b = a' ++ '/' :: b' →
      ∀ l, a' = a ++ l → l = [] := by
    rintro a b a' b' hb - he l rfl
    rw [List.append_assoc] at he
    have hrest := List.append_cancel_left he
    cases l with
    | nil => rfl
    | cons c l =>
      obtain ⟨rfl, rfl⟩ := List.cons.inj hrest
      exact absurd (List.mem_append_right l List.mem_cons_self) hb
  have hlist := congrArg String.toList h
  simp only [String.toList_append, List.append_assoc] at hlist
  have hs : s.toList = s'.toList := by
    rcases List.append_eq_append_iff.mp hlist with ⟨l, hl, -⟩ | ⟨l, hl, -⟩
    · rw [hl, hcut ht ht' hlist l hl, List.append_nil]
    · rw [hl, hcut ht' ht hlist.symm l hl, List.append_nil]
  rw [hs] at hlist
  exact ⟨String.toList_injective hs,
    String.toList_injective (List.cons.inj (List.append_cancel_left hlist)).2⟩

/-- What the directories of pods begin with. -/
def leafStart : CgroupDriverType → String
  | .SYSTEMD => "kubepods-"
  | .CGROUPFS => "pod"

theorem prefix_leafStart (driver : CgroupDriverType) (qos : QosClass) (id : String) :
    (leafStart driver).toList <+: (leaf driver qos id).toList := by
  cases driver with
  | SYSTEMD =>
    rw [leaf, String.append_assoc, String.append_assoc, String.append_assoc, String.toList_append]
    exact List.prefix_append _ _
  | CGROUPFS =>
    rw [leaf, String.toList_append]
    exact List.prefix_append _ _

/-- No directory of a class is below another one that holds a pod. -/
theorem parent_ne_podPath : parent driver qos ≠ podPath driver qos' id := by
  have hclosed : ∀ driver qos qos', ¬ (parent driver qos').toList ++ '/' :: (leafStart driver).toList <+:
      (parent driver qos).toList := by
    intro driver qos qos'
    cases driver <;> cases qos <;> cases qos' <;> decide
  intro he
  obtain ⟨rest, hrest⟩ := prefix_leafStart driver qos' id
  refine hclosed driver qos qos' ⟨rest, ?_⟩
  rw [he, podPath, String.toList_append, String.toList_append, ← hrest]
  simp

/-- The name of the mon group of a pod. -/
theorem sanitizeCgroupPath_podPath (hid : '/' ∉ id.toList) :
    sanitizeCgroupPath (podPath driver qos id) =
      sanitizeCgroupPath (parent driver qos) ++ "-" ++ leaf driver qos id := by
  have hself : (leaf driver qos id).toList.map (fun c => if c = '/' then '-' else c) =
      (leaf driver qos id).toList := by
    refine (List.map_congr_left fun c hc => ?_).trans (List.map_id _)
    have hne : c ≠ '/' := fun he => not_mem_leaf driver qos hid (he ▸ hc)
    exact if_neg hne
  have hparent : (parent driver qos).toList ≠ [] := by
    cases driver <;> cases qos <;> decide
  refine String.toList_injective ?_
  rw [sanitizeCgroupPath, sanitizeCgroupPath, podPath, String.toList_ofList, String.toList_append,
    String.toList_append, String.toList_append, String.toList_append, String.toList_ofList]
  cases hchars : (parent driver qos).toList with
  | nil => exact absurd hchars hparent
  | cons c cs =>
    rw [List.cons_append, List.cons_append, List.drop_succ_cons, List.drop_zero, List.drop_succ_cons,
      List.drop_zero, List.map_append, List.map_append, hself, String.toList_ofList]
    rfl

/-- What the names of pods of a class begin with. None is where another begins. -/
def nameStart (driver : CgroupDriverType) (qos : QosClass) : String :=
  sanitizeCgroupPath (parent driver qos) ++ "-" ++ leafStart driver

theorem nameStart_inj (h : (nameStart driver qos).toList <+: (nameStart driver qos').toList) :
    qos = qos' := by
  have hclosed : ∀ driver qos qos', (nameStart driver qos).toList <+: (nameStart driver qos').toList →
      qos = qos' := by
    intro driver qos qos'
    cases driver <;> cases qos <;> cases qos' <;> decide
  exact hclosed driver qos qos' h

theorem leaf_inj (h : leaf driver qos id = leaf driver qos id') : id = id' := by
  have hlist := congrArg String.toList h
  cases driver with
  | SYSTEMD =>
    simp only [leaf, String.toList_append] at hlist
    exact String.toList_injective (List.append_cancel_left (List.append_cancel_right hlist))
  | CGROUPFS =>
    simp only [leaf, String.toList_append] at hlist
    exact String.toList_injective (List.append_cancel_left hlist)

/-- The name tells the class of a pod, and its id. -/
theorem sanitizeCgroupPath_inj (hid : '/' ∉ id.toList) (hid' : '/' ∉ id'.toList)
    (h : sanitizeCgroupPath (podPath driver qos id) = sanitizeCgroupPath (podPath driver qos' id')) :
    qos = qos' ∧ id = id' := by
  rw [sanitizeCgroupPath_podPath hid, sanitizeCgroupPath_podPath hid'] at h
  have hstart : ∀ qos id, (nameStart driver qos).toList <+:
      (sanitizeCgroupPath (parent driver qos) ++ "-" ++ leaf driver qos id).toList := by
    intro qos id
    rw [nameStart, String.toList_append, String.toList_append (s := _ ++ "-")]
    exact (List.prefix_append_right_inj _).mpr (prefix_leafStart _ _ _)
  obtain rfl : qos = qos' := by
    rcases List.prefix_or_prefix_of_prefix (hstart qos id) (h ▸ hstart qos' id') with hp | hp
    · exact nameStart_inj hp
    · exact (nameStart_inj hp).symm
  have hlist := congrArg String.toList h
  rw [String.toList_append, String.toList_append (s := _ ++ "-")] at hlist
  exact ⟨rfl, leaf_inj (String.toList_injective (List.append_cancel_left hlist))⟩

theorem podPath_inj (hid : '/' ∉ id.toList) (hid' : '/' ∉ id'.toList)
    (h : podPath driver qos id = podPath driver qos' id') : id = id' :=
  (sanitizeCgroupPath_inj hid hid' (congrArg sanitizeCgroupPath h)).2

variable {pod pod' : Pod} {task task' : KubernetesTask}

/-- A path of a task, its own or that of a container, leads into the directory of the pod. -/
theorem Describes.path (h : Describes driver pod task) :
    ∃ qos folder, bare folder = bare task.taskId ∧ '/' ∉ folder.toList ∧
      task.cgroupPath = podPath driver qos folder ∧
      ∀ path ∈ task.cgroupPath :: task.subcgroupsPaths, path = podPath driver qos folder ∨
        ∃ part, '/' ∉ part.toList ∧ path = podPath driver qos folder ++ "/" ++ part := by
  obtain ⟨qos, folder, ids, -, hbare, hslash, hpath, hsubs, -, hids⟩ := h.paths
  refine ⟨qos, folder, hbare, hslash, hpath, fun path hin => ?_⟩
  obtain rfl | hin := List.mem_cons.mp hin
  · exact .inl hpath
  · rw [hsubs] at hin
    obtain ⟨id, hid, rfl⟩ := List.mem_map.mp hin
    exact .inr ⟨_, not_mem_containerLeaf driver (hids id hid), rfl⟩

/-- Two tasks with a path in common are of pods with the same uid, but for dashes and underscores. -/
theorem bare_eq_of_mem (h : Describes driver pod task) (h' : Describes driver pod' task') {path : String}
    (hin : path ∈ task.cgroupPath :: task.subcgroupsPaths)
    (hin' : path ∈ task'.cgroupPath :: task'.subcgroupsPaths) : bare task.taskId = bare task'.taskId := by
  obtain ⟨qos, folder, hbare, hslash, -, hpaths⟩ := h.path
  obtain ⟨qos', folder', hbare', hslash', -, hpaths'⟩ := h'.path
  have hsame : podPath driver qos folder = podPath driver qos' folder' := by
    obtain hpath | ⟨part, hpart, hpath⟩ := hpaths path hin
    · obtain hpath' | ⟨part', hpart', hpath'⟩ := hpaths' path hin'
      · exact hpath.symm.trans hpath'
      · have hcut := append_slash_inj (not_mem_leaf driver qos hslash) hpart' (hpath.symm.trans hpath')
        exact absurd hcut.1 parent_ne_podPath
    · obtain hpath' | ⟨part', hpart', hpath'⟩ := hpaths' path hin'
      · have hcut := append_slash_inj (not_mem_leaf driver qos' hslash') hpart (hpath'.symm.trans hpath)
        exact absurd hcut.1 parent_ne_podPath
      · exact (append_slash_inj hpart hpart' (hpath.symm.trans hpath')).1
  rw [← hbare, ← hbare', podPath_inj hslash hslash' hsame]

theorem bare_eq_of_name (h : Describes driver pod task) (h' : Describes driver pod' task')
    (hname : task.toTask.containerName = task'.toTask.containerName) :
    bare task.taskId = bare task'.taskId := by
  obtain ⟨qos, folder, hbare, hslash, hpath, -⟩ := h.path
  obtain ⟨qos', folder', hbare', hslash', hpath', -⟩ := h'.path
  rw [Task.containerName, Task.containerName, hpath, hpath'] at hname
  rw [← hbare, ← hbare', (sanitizeCgroupPath_inj hslash hslash' hname).2]

/-- No two pods have the same uid, not even without dashes and underscores. -/
def Distinct (pods : List Pod) : Prop :=
  pods.Pairwise fun pod pod' => ∀ uid ∈ pod.uid, ∀ uid' ∈ pod'.uid, bare uid ≠ bare uid'

/-- Tasks of different pods are apart. -/
theorem apart_of_describes {pods : List Pod} {tasks : List KubernetesTask} (hdistinct : Distinct pods)
    (h : List.Forall₂ (Describes driver) pods tasks) : Apart (tasks.map KubernetesTask.toTask) := by
  have hpairwise : tasks.Pairwise fun task task' => bare task.taskId ≠ bare task'.taskId := by
    induction h with
    | nil => exact .nil
    | @cons pod task pods tasks hdescribes hrest ih =>
      obtain ⟨hfirst, hothers⟩ := List.pairwise_cons.mp hdistinct
      refine List.pairwise_cons.mpr ⟨fun task' htask' => ?_, ih hothers⟩
      obtain ⟨pod', hpod', hdescribes'⟩ := forall₂_exists_left hrest htask'
      exact hfirst pod' hpod' _ hdescribes.uid _ hdescribes'.uid
  have hpod : ∀ task ∈ tasks, ∃ pod, Describes driver pod task := fun task htask => by
    obtain ⟨pod, -, hdescribes⟩ := forall₂_exists_left h htask
    exact ⟨pod, hdescribes⟩
  have hbare : (tasks.map fun task => bare task.taskId).Nodup := List.pairwise_map.mpr hpairwise
  -- whatever tells the uids apart tells the tasks apart
  have hnodup : ∀ f : KubernetesTask → String, (∀ task ∈ tasks, ∀ task' ∈ tasks, f task = f task' →
      bare task.taskId = bare task'.taskId) → (tasks.map f).Nodup := fun f hf =>
    List.pairwise_map.mpr (hpairwise.imp_of_mem fun htask htask' hne he => hne (hf _ htask _ htask' he))
  have hcgroups : ∀ task : KubernetesTask, ∀ path ∈ task.toTask.cgroups,
      path ∈ task.cgroupPath :: task.subcgroupsPaths := by
    intro task path hpath
    rw [Task.cgroups] at hpath
    split at hpath
    · exact List.mem_singleton.mp hpath ▸ List.mem_cons_self
    · exact List.mem_cons_of_mem _ hpath
  refine ⟨?_, ?_, ?_, fun t ht t' ht' path hpath hpath' => ?_⟩
  · rw [List.map_map]
    exact hnodup _ fun task _ task' _ he => congrArg bare he
  · rw [List.map_map]
    refine hnodup _ fun task htask task' htask' he => ?_
    obtain ⟨pod, hdescribes⟩ := hpod task htask
    obtain ⟨pod', hdescribes'⟩ := hpod task' htask'
    have hsame : task.cgroupPath = task'.cgroupPath := he
    exact bare_eq_of_mem hdescribes hdescribes' List.mem_cons_self (hsame ▸ List.mem_cons_self)
  · rw [List.map_map]
    refine hnodup _ fun task htask task' htask' he => ?_
    obtain ⟨pod, hdescribes⟩ := hpod task htask
    obtain ⟨pod', hdescribes'⟩ := hpod task' htask'
    exact bare_eq_of_name hdescribes hdescribes' he
  · obtain ⟨task, htask, rfl⟩ := List.mem_map.mp ht
    obtain ⟨task', htask', rfl⟩ := List.mem_map.mp ht'
    obtain ⟨pod, hdescribes⟩ := hpod task htask
    obtain ⟨pod', hdescribes'⟩ := hpod task' htask'
    have he := bare_eq_of_mem hdescribes hdescribes' (hcgroups task path hpath) (hcgroups task' path hpath')
    rw [List.inj_on_of_nodup_map hbare htask htask' he]

end Apart

namespace KubernetesNode

variable {node : KubernetesNode} {cgroups : CpuCgroups}
  {request : String → Except RequestException (List Pod)}
  {pods : List Pod} {tasks : List KubernetesTask}

theorem getTasks_describes (hpods : node.requestPods request = .ok pods) (hplain : ∀ pod ∈ pods, pod.Plain)
    (h : node.getTasks cgroups request = .ok tasks) :
    List.Forall₂ (Describes node.cgroupDriver)
      (pods.filter fun pod => node.Watches pod ∧ pod.Ready) tasks := by
  rw [getTasks, hpods] at h
  dsimp only at h
  split at h
  · cases h
  · exact tasksOf_ok hplain h

end KubernetesNode

/-! ## When the tasks are found -/

/-- What the orchestrator tells of every pod that runs here. -/
structure Pod.Answered (pod : Pod) : Prop where
  qos : ∃ qosClass, pod.qosClass = some qosClass ∧ QosClass.hasValue qosClass.toLower = true
  podNamespace : ∃ podNamespace, pod.podNamespace = some podNamespace
  name : ∃ name, pod.name = some name
  uid : ∃ uid, pod.uid = some uid
  ids : ∀ container ∈ pod.containerStatuses.getD [], container.ready = true →
    ∃ id, KubernetesNode.idOf container = .ok id
  states : ∀ container ∈ pod.containerStatuses.getD [], container.ready = false →
    KubernetesNode.logState container = .ok ()
  resources : ∃ resources, calculatePodResources pod.containers = .ok resources

namespace KubernetesNode

variable {node : KubernetesNode} {cgroups : CpuCgroups} {pod : Pod} {qos uid : String}

variable (node cgroups) in
/-- There is a directory for the pod, with dashes or without. Those of systemd are not looked for. -/
def HasDirectory (qos uid : String) : Prop :=
  node.cgroupDriver = .CGROUPFS →
    (let folder := if qos = QosClass.GUARANTEED.value then "" else qos
     cgroups (CgroupSubsystem.CPU ++ pathJoin "/kubepods" [folder, "pod" ++ uid]) = true ∨
      cgroups (CgroupSubsystem.CPU ++ pathJoin "/kubepods" [folder, "pod" ++ Str.replace '-' "" uid]) = true)

variable (node cgroups) in
/-- The directory of the pod is there, if its first container is ready and it is so looked for. -/
def Settled (pod : Pod) : Prop :=
  ∀ container rest qosClass uid, pod.containerStatuses.getD [] = container :: rest → container.ready = true →
    pod.qosClass = some qosClass → pod.uid = some uid → node.HasDirectory cgroups qosClass.toLower uid

theorem buildCgroupPath_of_directory (h : node.HasDirectory cgroups qos uid) (id : String) :
    ∃ path, buildCgroupPath cgroups node.cgroupDriver qos (some uid) id = .ok path := by
  unfold HasDirectory at h
  cases hdriver : node.cgroupDriver with
  | SYSTEMD => exact ⟨_, rfl⟩
  | CGROUPFS =>
    have hdir := h hdriver
    simp only at hdir
    simp only [buildCgroupPath]
    by_cases hpod : cgroups (CgroupSubsystem.CPU ++ pathJoin "/kubepods"
        [if qos = QosClass.GUARANTEED.value then "" else qos, "pod" ++ uid]) = true
    · rw [if_pos hpod]
      exact ⟨_, rfl⟩
    · rw [if_neg hpod, if_pos (hdir.resolve_left hpod)]
      exact ⟨_, rfl⟩

theorem buildCgroupPath_of_not_directory (h : ¬ node.HasDirectory cgroups qos uid) (id : String) :
    buildCgroupPath cgroups node.cgroupDriver qos (some uid) id = .error (.MissingCgroupException uid) := by
  obtain ⟨hdriver, hnot⟩ := Classical.not_imp.mp h
  obtain ⟨hpod, hcutted⟩ := not_or.mp hnot
  simp only [hdriver, buildCgroupPath]
  rw [if_neg hpod, if_neg hcutted]

/-- With the directory there the loop over the containers returns. -/
theorem containersCgroups_returns {containers : List ContainerStatus}
    (hdir : node.HasDirectory cgroups qos uid)
    (hids : ∀ container ∈ containers, container.ready = true → ∃ id, idOf container = .ok id)
    (hstates : ∀ container ∈ containers, container.ready = false → logState container = .ok ()) :
    ∃ paths?, node.containersCgroups cgroups qos (some uid) containers = .ok paths? := by
  induction containers with
  | nil => exact ⟨_, rfl⟩
  | cons container rest ih =>
    rw [containersCgroups]
    split
    · rename_i hready
      obtain ⟨id, hid⟩ := hids container List.mem_cons_self hready
      obtain ⟨path, hpath⟩ := buildCgroupPath_of_directory hdir id
      obtain ⟨paths?, hrest⟩ := ih (fun c hc => hids c (List.mem_cons_of_mem _ hc))
        fun c hc => hstates c (List.mem_cons_of_mem _ hc)
      rw [hid, except_ok_bind, hpath, except_ok_bind, hrest, except_ok_bind]
      exact ⟨_, rfl⟩
    · rename_i hready
      rw [hstates container List.mem_cons_self (Bool.eq_false_iff.mpr hready)]
      exact ⟨none, rfl⟩

variable (node cgroups) in
/-- A pod is read, unless its directory is looked for and not there. -/
theorem readPod_run (hanswered : pod.Answered) (hwatched : pod.containerStatuses.getD [] ≠ []) :
    (node.Settled cgroups pod → ∃ task?, node.readPod cgroups pod = .ok task?) ∧
      (¬ node.Settled cgroups pod → ∃ uid, pod.uid = some uid ∧
        node.readPod cgroups pod = .error (.MissingCgroupException uid)) := by
  obtain ⟨qosClass, hqos, hvalue⟩ := hanswered.qos
  obtain ⟨podNamespace, hnamespace⟩ := hanswered.podNamespace
  obtain ⟨name, hname⟩ := hanswered.name
  obtain ⟨uid, huid⟩ := hanswered.uid
  obtain ⟨resources, hresources⟩ := hanswered.resources
  have hread : node.readPod cgroups pod = (do
      match ← containersCgroups node cgroups qosClass.toLower (some uid) (pod.containerStatuses.getD []) with
      | none => pure none
      | some subcgroupsPaths =>
        let resources ← (Except.ok resources : Except KubeExc _)
        let cgroupPath ← buildCgroupPath cgroups node.cgroupDriver qosClass.toLower (some uid) ""
        pure (some {
          taskId := uid
          cgroupPath := cgroupPath
          subcgroupsPaths := subcgroupsPaths
          labels := labelsOf pod qosClass.toLower
          name := podNamespace ++ "/" ++ name
          qos := qosClass.toLower
          resources := resources })) := by
    rw [readPod, hqos, hnamespace, hname]
    dsimp only
    rw [if_pos hvalue, hresources, huid]
    rfl
  by_cases hdir : node.HasDirectory cgroups qosClass.toLower uid
  · obtain ⟨paths?, hpaths⟩ := containersCgroups_returns hdir hanswered.ids hanswered.states
    obtain ⟨path, hpath⟩ := buildCgroupPath_of_directory hdir ""
    have hsettled : node.Settled cgroups pod := by
      intro container rest qosClass' uid' _ _ hqos' huid'
      rw [hqos] at hqos'
      rw [huid] at huid'
      cases hqos'
      cases huid'
      exact hdir
    refine ⟨fun _ => ?_, fun hnot => absurd hsettled hnot⟩
    rw [hread, hpaths, except_ok_bind]
    cases paths? with
    | none => exact ⟨none, rfl⟩
    | some paths =>
      dsimp only
      rw [except_ok_bind, hpath, except_ok_bind]
      exact ⟨_, rfl⟩
  · cases hcontainers : pod.containerStatuses.getD [] with
    | nil => exact absurd hcontainers hwatched
    | cons container rest =>
      cases hready : container.ready with
      | true =>
        have hnot : ¬ node.Settled cgroups pod := fun hsettled =>
          hdir (hsettled container rest qosClass uid hcontainers hready hqos huid)
        refine ⟨fun hsettled => absurd hsettled hnot, fun _ => ⟨uid, huid, ?_⟩⟩
        obtain ⟨id, hid⟩ := hanswered.ids container (hcontainers ▸ List.mem_cons_self) hready
        rw [hread, hcontainers, containersCgroups, if_pos hready, hid, except_ok_bind,
          buildCgroupPath_of_not_directory hdir]
        rfl
      | false =>
        have hsettled : node.Settled cgroups pod := by
          intro container' rest' qosClass' uid' hcontainers' hready' _ _
          rw [hcontainers] at hcontainers'
          cases hcontainers'
          rw [hready] at hready'
          cases hready'
        refine ⟨fun _ => ?_, fun hnot => absurd hsettled hnot⟩
        have hstate := hanswered.states container (hcontainers ▸ List.mem_cons_self) hready
        rw [hread, hcontainers, containersCgroups, if_neg (by simp [hready]), hstate]
        exact ⟨none, rfl⟩

theorem tasksOf_run {pods : List Pod} (hanswered : ∀ pod ∈ pods, pod.Answered) :
    ((∃ tasks, node.tasksOf cgroups pods = .ok tasks) ↔
      ∀ pod ∈ pods, node.Watches pod → node.Settled cgroups pod) ∧
    ∀ e, node.tasksOf cgroups pods = .error e → ∃ pod ∈ pods, ∃ uid, pod.uid = some uid ∧
      e = .MissingCgroupException uid := by
  induction pods with
  | nil => exact ⟨iff_of_true ⟨[], rfl⟩ fun _ h => absurd h List.not_mem_nil, fun e h => (nomatch h)⟩
  | cons pod pods ih =>
    obtain ⟨hreturns, hraises⟩ := ih fun p hp => hanswered p (List.mem_cons_of_mem _ hp)
    rw [List.forall_mem_cons]
    by_cases hwatches : node.Watches pod
    · obtain ⟨hsettled, hmissing⟩ := readPod_run node cgroups
        (hanswered pod List.mem_cons_self) hwatches.1
      by_cases hpod : node.Settled cgroups pod
      · obtain ⟨task?, htask⟩ := hsettled hpod
        rw [tasksOf, if_pos hwatches, htask, except_ok_bind]
        constructor
        · rw [← hreturns]
          constructor
          · rintro ⟨tasks, htasks⟩
            obtain ⟨tasks', htasks', -⟩ := except_bind_ok_iff.mp htasks
            exact ⟨fun _ => hpod, tasks', htasks'⟩
          · rintro ⟨-, tasks, htasks⟩
            rw [htasks]
            exact ⟨_, rfl⟩
        · intro e he
          obtain he | ⟨tasks, -, he⟩ := except_bind_error_iff.mp he
          · obtain ⟨pod', hpod', hmissing'⟩ := hraises e he
            exact ⟨pod', List.mem_cons_of_mem _ hpod', hmissing'⟩
          · cases he
      · obtain ⟨uid, huid, hmissing⟩ := hmissing hpod
        rw [tasksOf, if_pos hwatches, hmissing]
        refine ⟨iff_of_false (fun ⟨tasks, h⟩ => (nomatch h)) fun h => hpod (h.1 hwatches), fun e he => ?_⟩
        cases he
        exact ⟨pod, List.mem_cons_self, uid, huid, rfl⟩
    · rw [tasksOf, if_neg hwatches]
      refine ⟨hreturns.trans ⟨fun h => ⟨fun hw => absurd hw hwatches, h⟩, fun h => h.2⟩, fun e he => ?_⟩
      obtain ⟨pod', hpod', hmissing⟩ := hraises e he
      exact ⟨pod', List.mem_cons_of_mem _ hpod', hmissing⟩

variable {request : String → Except RequestException (List Pod)} {pods : List Pod}

/-- A single pod whose directory is gone ends the discovery of all, and not by the exception that makes the
agent skip an iteration. -/
theorem getTasks_returns_iff (hpods : node.requestPods request = .ok pods)
    (hnode : node.kubeletEnabled = true ∨ node.nodeIp ≠ none) (hanswered : ∀ pod ∈ pods, pod.Answered) :
    ((∃ tasks, node.getTasks cgroups request = .ok tasks) ↔
      ∀ pod ∈ pods, node.Watches pod → node.Settled cgroups pod) ∧
    ∀ e, node.getTasks cgroups request = .error e → ∃ pod ∈ pods, ∃ uid, pod.uid = some uid ∧
      e = .MissingCgroupException uid := by
  have hnot : ¬ (node.kubeletEnabled = false ∧ node.nodeIp = none) := by
    rintro ⟨hoff, hnone⟩
    obtain hon | hsome := hnode
    · rw [hoff] at hon
      cases hon
    · exact hsome hnone
  have hget : node.getTasks cgroups request = node.tasksOf cgroups pods := by
    rw [getTasks, hpods]
    exact if_neg hnot
  rw [hget]
  exact tasksOf_run hanswered

section

/-- A ready pod of one container. -/
def burstable (uid : String) : Pod where
  containerStatuses := some [⟨true, some ["running"], some "docker://c1"⟩]
  hostIP := none
  qosClass := some "Burstable"
  uid := some uid
  name := some "p"
  podNamespace := some "default"
  labels := none
  containers := []

def kubelet : KubernetesNode := ⟨.CGROUPFS, true, none, ["default"]⟩

/-- The directory of the pod has no dashes. -/
def cgroupsOfPod : CpuCgroups := fun path => path = "/sys/fs/cgroup/cpu/kubepods/burstable/podab"

/-- Its process has no mon group yet. -/
def hostOfPod : Host :=
  { SmallHost.host [] with
    resctrl := { (SmallHost.host []).resctrl with
      procs := Dict.ofItems [(7, {
        cgroup := "/kubepods/burstable/podab/c1"
        leader := true
        ctrlGroup := ""
        monGroup := none })] }
    cgroups := Dict.ofItems [("/kubepods/burstable/podab", {}), ("/kubepods/burstable/podab/c1", {})] }

theorem plain_burstable : ∀ pod ∈ [burstable "a-b"], pod.Plain := by
  intro pod hpod
  rw [List.mem_singleton.mp hpod]
  refine ⟨fun uid huid => ?_, fun container hcontainer id hid => ?_, List.nodup_singleton _⟩
  · cases huid
    decide
  · rw [List.mem_singleton.mp hcontainer] at hid
    have hc1 : idOf ⟨true, some ["running"], some "docker://c1"⟩ = .ok "c1" := by rfl
    rw [hc1] at hid
    cases hid
    exact ⟨by decide, by decide⟩

theorem answered_burstable : ∀ pod ∈ [burstable "a-b"], pod.Answered := by
  intro pod hpod
  rw [List.mem_singleton.mp hpod]
  refine ⟨⟨_, rfl, by decide +kernel⟩, ⟨_, rfl⟩, ⟨_, rfl⟩, ⟨_, rfl⟩, fun container hcontainer _ => ?_,
    fun container hcontainer hready => ?_, ⟨_, rfl⟩⟩
  · rw [List.mem_singleton.mp hcontainer]
    exact ⟨"c1", rfl⟩
  · rw [List.mem_singleton.mp hcontainer] at hready
    cases hready

def requestOfPod : String → Except RequestException (List Pod) := fun _ => .ok [burstable "a-b"]

/-- The task that is found. -/
def tasksOfPod : List KubernetesTask :=
  match kubelet.getTasks cgroupsOfPod requestOfPod with
  | .ok tasks => tasks
  | .error _ => []

theorem getTasks_burstable : kubelet.getTasks cgroupsOfPod requestOfPod = .ok tasksOfPod := by
  obtain ⟨tasks, htasks⟩ := except_exists_of_isOk
    (x := kubelet.getTasks cgroupsOfPod requestOfPod) (by decide +kernel)
  rw [tasksOfPod, htasks]

theorem distinct_burstable : Distinct [burstable "a-b"] := List.pairwise_singleton _ _

theorem getTasks_returns_iff_burstable :
    ((∃ tasks, kubelet.getTasks cgroupsOfPod requestOfPod = .ok tasks) ↔
      ∀ pod ∈ [burstable "a-b"], kubelet.Watches pod → kubelet.Settled cgroupsOfPod pod) ∧
    ∀ e, kubelet.getTasks cgroupsOfPod requestOfPod = .error e → ∃ pod ∈ [burstable "a-b"], ∃ uid,
      pod.uid = some uid ∧ e = .MissingCgroupException uid :=
  getTasks_returns_iff rfl (.inl rfl) answered_burstable

end

end KubernetesNode

end Wca.Kubernetes
