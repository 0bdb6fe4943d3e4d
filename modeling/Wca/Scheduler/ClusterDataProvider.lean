import Wca.Scheduler.DataProviders
import Mathlib.Data.List.Flatten

/-!
# Apps counts of a cluster

`getAppsCounts` joins two answers of the API, the nodes and the pods of the monitored namespaces,
by the names of the nodes. `CountsOnce` says that each pod of an app is counted once: on its worker
node, or among the unassigned.
-/

namespace Wca.Scheduler

open Py

abbrev Namespace := String

abbrev Labels := Dict String String

/-- What is read of a node of the API. -/
structure KubeNode where
  name : NodeName
  /-- `metadata` may be without any -/
  labels : Option Labels

/-- What is read of a pod of the API. -/
structure KubePod where
  name : TaskName
  /-- `metadata` may be without any -/
  labels : Option Labels
  /-- there once the pod is scheduled -/
  nodeName : Option NodeName
  /-- there once the node took the pod -/
  hostIP : Option String

/-- The answers of the API. -/
structure Kubeapi where
  monitoredNamespaces : List Namespace
  nodes : List KubeNode
  pods : Namespace → List KubePod

/-- `metadata['labels']`. -/
def labelsItem : Option Labels → Except Exc Labels
  | some labels => .ok labels
  | none => .error (.builtin .KeyError)

/-- A string that is true: it is there, and it is not empty. -/
def truthy (s : Option String) : Option String := s.filter (· ≠ "")

def MASTER_LABEL : String := "node-role.kubernetes.io/master"

namespace KubeNode

/-- A node without labels is not known to be a master. -/
def IsWorker (node : KubeNode) : Prop := ∀ labels, node.labels = some labels → MASTER_LABEL ∉ labels

instance (node : KubeNode) : Decidable node.IsWorker :=
  match h : node.labels with
  | none => .isTrue fun labels hl => by rw [h] at hl; cases hl
  | some labels =>
    decidable_of_iff (MASTER_LABEL ∉ labels)
      ⟨fun hm l hl => by rw [h] at hl; cases hl; exact hm, fun hw => hw labels h⟩

end KubeNode

namespace KubePod

/-- The app of a pod. -/
def app (pod : KubePod) : Option AppName := truthy (pod.labels.bind (·.get? "app"))

/-- The node a pod is assigned to: `node and host_ip`. -/
def assigned (pod : KubePod) : Option NodeName :=
  if (truthy pod.hostIP).isSome then truthy pod.nodeName else none

/-- The node a pod is scheduled to, whether or not it runs there already. -/
def scheduled (pod : KubePod) : Option NodeName := truthy pod.nodeName

end KubePod

/-- The apps on the nodes, and how many pods of an app are unassigned. -/
abbrev AppsCounts := Dict NodeName Apps × Dict AppName Nat

namespace ClusterDataProvider

/-- One more node of the list comprehension of `node_names`. -/
def addName (names : List NodeName) (node : KubeNode) : Except Exc (List NodeName) := do
  let labels ← labelsItem node.labels
  pure (if MASTER_LABEL ∉ labels then names ++ [node.name] else names)

/-- The names of the nodes that are not masters. -/
def nodeNames (nodes : List KubeNode) : Except Exc (List NodeName) := nodes.foldlM addName []

/-- The pod goes with the tasks of its app on the node. -/
def assign (counts : AppsCounts) (app : AppName) (name : TaskName) (node : NodeName) :
    Except Exc AppsCounts := do
  let apps ← counts.1.item node
  let tasks := (apps.get? app).getD []
  pure (counts.1.set node (apps.set app (tasks ++ [name])), counts.2)

/-- One pod more of its app is unassigned. -/
def leaveUnassigned (counts : AppsCounts) (app : AppName) : AppsCounts :=
  (counts.1, counts.2.set app ((counts.2.get? app).getD 0 + 1))

/-- One turn of the loop over the pods. -/
def countPod (counts : AppsCounts) (pod : KubePod) : Except Exc AppsCounts := do
  let labels ← labelsItem pod.labels
  match truthy (labels.get? "app") with
  | none => pure counts
  | some app =>
    match pod.assigned with
    | none => pure (leaveUnassigned counts app)
    | some node => assign counts app pod.name node

def getAppsCounts (kubeapi : Kubeapi) : Except Exc AppsCounts := do
  let names ← nodeNames kubeapi.nodes
  let assignedApps : Dict NodeName Apps := .ofItems (names.map fun name => (name, ∅))
  kubeapi.monitoredNamespaces.foldlM
    (fun counts ns => (kubeapi.pods ns).foldlM countPod counts) (assignedApps, ∅)

/-! ## What is counted -/

/-- The pods of an app that have the place. -/
def podsAt (place : KubePod → Option NodeName) (pods : List KubePod) (node : Option NodeName)
    (app : AppName) : List KubePod :=
  pods.filter fun pod => pod.app = some app ∧ place pod = node

/-- The pods of the monitored namespaces, a namespace that is monitored twice once. -/
def monitored (kubeapi : Kubeapi) : List KubePod :=
  kubeapi.monitoredNamespaces.dedup.flatMap kubeapi.pods

/-- The pods in the order the loops meet them. -/
def listed (kubeapi : Kubeapi) : List KubePod :=
  kubeapi.monitoredNamespaces.flatMap kubeapi.pods

/-- The names of the worker nodes. -/
def workers (nodes : List KubeNode) : List NodeName :=
  (nodes.filter fun node => node.IsWorker).map (·.name)

/-- The counts of the pods on the named nodes, by the place a pod has. -/
structure Counted (place : KubePod → Option NodeName) (names : List NodeName)
    (pods : List KubePod) (counts : AppsCounts) : Prop where
  nodes : ∀ node, node ∈ counts.1 ↔ node ∈ names
  tasks : ∀ node apps, counts.1.get? node = some apps → ∀ app,
    ((apps.get? app).getD []).Perm ((podsAt place pods (some node) app).map (·.name))
  noneEmpty : ∀ node apps, counts.1.get? node = some apps → ∀ app, apps.get? app ≠ some []
  unassigned : ∀ app, (counts.2.get? app).getD 0 = (podsAt place pods none app).length
  noneZero : ∀ app, counts.2.get? app ≠ some 0

/-- The counts come back, with each pod of an app once: on its worker node, or unassigned. -/
def CountsOnce (place : KubePod → Option NodeName) (kubeapi : Kubeapi) : Prop :=
  ∃ counts, getAppsCounts kubeapi = .ok counts ∧
    Counted place (workers kubeapi.nodes) (monitored kubeapi) counts

variable {kubeapi : Kubeapi} {place place' : KubePod → Option NodeName} {names : List NodeName}
  {pods pods' pre : List KubePod} {pod : KubePod} {counts r : AppsCounts} {node : Option NodeName}
  {app : AppName}

/-! ## The nodes -/

theorem labelsItem_ok_iff {labels : Option Labels} {l : Labels} :
    labelsItem labels = .ok l ↔ labels = some l := by
  cases labels with
  | none => simp [labelsItem]
  | some l' => simp [labelsItem]

theorem workers_cons {n : KubeNode} {nodes : List KubeNode} :
    workers (n :: nodes) = (if n.IsWorker then [n.name] else []) ++ workers nodes := by
  by_cases h : n.IsWorker <;> simp [workers, h]

theorem addName_ok_iff {names names' : List NodeName} {n : KubeNode} :
    addName names n = .ok names' ↔
      n.labels.isSome ∧ names' = names ++ if n.IsWorker then [n.name] else [] := by
  rw [addName, except_bind_ok_iff]
  simp only [labelsItem_ok_iff, except_pure, Except.ok.injEq]
  cases h : n.labels with
  | none => simp
  | some labels =>
    have hw : n.IsWorker ↔ MASTER_LABEL ∉ labels :=
      ⟨fun hn => hn labels h, fun hm l hl => by rw [h] at hl; cases hl; exact hm⟩
    simp only [Option.some.injEq, exists_eq_left', Option.isSome_some, true_and, hw]
    by_cases hm : MASTER_LABEL ∈ labels
    · simpa [hm] using eq_comm
    · simpa [hm] using eq_comm

theorem foldlM_addName_ok_iff {nodes : List KubeNode} {names names' : List NodeName} :
    nodes.foldlM addName names = .ok names' ↔
      (∀ n ∈ nodes, n.labels.isSome) ∧ names' = names ++ workers nodes := by
  induction nodes generalizing names with
  | nil => simpa [workers] using eq_comm
  | cons n nodes ih =>
    rw [List.foldlM_cons, except_bind_ok_iff, List.forall_mem_cons, workers_cons]
    simp only [addName_ok_iff, ih]
    constructor
    · intro ⟨names'', ⟨hn, hnames⟩, hall, hr⟩
      exact ⟨⟨hn, hall⟩, by rw [hr, hnames, List.append_assoc]⟩
    · intro ⟨⟨hn, hall⟩, hr⟩
      exact ⟨_, ⟨hn, rfl⟩, hall, by rw [hr, List.append_assoc]⟩

theorem nodeNames_ok_iff {nodes : List KubeNode} :
    nodeNames nodes = .ok names ↔ (∀ n ∈ nodes, n.labels.isSome) ∧ names = workers nodes :=
  foldlM_addName_ok_iff

/-! ## One pod -/

/-- What a turn does: nothing, one more unassigned, or one more task on a node that is there. -/
theorem countPod_ok_iff : countPod counts pod = .ok r ↔ pod.labels.isSome ∧
    ((pod.app = none ∧ r = counts) ∨
      (∃ app, pod.app = some app ∧ pod.assigned = none ∧ r = leaveUnassigned counts app) ∨
      ∃ app node, pod.app = some app ∧ pod.assigned = some node ∧
        assign counts app pod.name node = .ok r) := by
  rw [countPod, except_bind_ok_iff]
  simp only [labelsItem_ok_iff, KubePod.app]
  cases h : pod.labels with
  | none => simp
  | some labels =>
    simp only [Option.some.injEq, exists_eq_left', Option.isSome_some, true_and, Option.bind_some]
    cases ha : truthy (labels.get? "app") with
    | none => simpa using eq_comm
    | some app =>
      cases hn : pod.assigned with
      | none => simpa using eq_comm
      | some node => simp

theorem assign_ok_iff {name : TaskName} {n : NodeName} : assign counts app name n = .ok r ↔
    ∃ apps, counts.1.get? n = some apps ∧
      r = (counts.1.set n (apps.set app ((apps.get? app).getD [] ++ [name])), counts.2) := by
  rw [assign, except_bind_ok_iff]
  simp only [liftM_ok_iff, Dict.item_ok_iff, except_pure, Except.ok.injEq]
  exact exists_congr fun apps => and_congr_right fun _ => eq_comm

/-! ## What one more pod changes -/

theorem podsAt_concat : podsAt place (pre ++ [pod]) node app =
    podsAt place pre node app ++ if pod.app = some app ∧ place pod = node then [pod] else [] := by
  by_cases h : pod.app = some app ∧ place pod = node
  · simp [podsAt, h]
  · simp only [podsAt, List.filter_append, if_neg h]
    simp [h]

theorem podsAt_concat_of_ne (h : pod.app = some app → place pod ≠ node) :
    podsAt place (pre ++ [pod]) node app = podsAt place pre node app := by
  rw [podsAt_concat, if_neg fun hp => h hp.1 hp.2, List.append_nil]

theorem podsAt_concat_of (ha : pod.app = some app) (hp : place pod = node) :
    podsAt place (pre ++ [pod]) node app = podsAt place pre node app ++ [pod] := by
  rw [podsAt_concat, if_pos ⟨ha, hp⟩]

/-- A pod without an app is not counted. -/
theorem Counted.skip (h : Counted place names pre counts) (ha : pod.app = none) :
    Counted place names (pre ++ [pod]) counts := by
  have hsame : ∀ node app, podsAt place (pre ++ [pod]) node app = podsAt place pre node app :=
    fun node app => podsAt_concat_of_ne fun h => by rw [ha] at h; cases h
  refine ⟨h.nodes, fun n apps hn app => ?_, h.noneEmpty, fun app => ?_, h.noneZero⟩
  · rw [hsame]
    exact h.tasks n apps hn app
  · rw [hsame]
    exact h.unassigned app

/-- A pod without a place is one more unassigned pod of its app. -/
theorem Counted.leaveUnassigned (h : Counted place names pre counts) (ha : pod.app = some app)
    (hp : place pod = none) :
    Counted place names (pre ++ [pod]) (leaveUnassigned counts app) := by
  refine ⟨h.nodes, fun n apps hn app' => ?_, h.noneEmpty, fun app' => ?_, fun app' => ?_⟩
  · rw [podsAt_concat_of_ne fun _ hn' => by rw [hp] at hn'; cases hn']
    exact h.tasks n apps hn app'
  · rw [ClusterDataProvider.leaveUnassigned, Dict.get?_set]
    split
    · next he =>
      rw [he, podsAt_concat_of ha hp, List.length_append, ← h.unassigned app]
      rfl
    · next he =>
      rw [podsAt_concat_of_ne fun ha' => by rw [ha] at ha'; cases ha'; exact absurd rfl he]
      exact h.unassigned app'
  · rw [ClusterDataProvider.leaveUnassigned, Dict.get?_set]
    split
    · simp
    · exact h.noneZero app'

/-- A pod with a place is one more task of its app there. -/
theorem Counted.assign (h : Counted place names pre counts) {n : NodeName}
    (ha : pod.app = some app) (hp : place pod = some n)
    (hr : assign counts app pod.name n = .ok r) : Counted place names (pre ++ [pod]) r := by
  obtain ⟨apps, hn, rfl⟩ := assign_ok_iff.mp hr
  have hmem : n ∈ counts.1 := Dict.mem_def.mpr (Dict.mem_keys_iff_get?.mpr ⟨apps, hn⟩)
  refine ⟨fun n' => ?_, fun n' apps' hn' app' => ?_, fun n' apps' hn' app' => ?_, fun app' => ?_,
    h.noneZero⟩
  · rw [← h.nodes, Dict.mem_def, Dict.mem_def, Dict.mem_keys_set]
    exact or_iff_right_of_imp fun he => he ▸ hmem
  · rw [Dict.get?_set] at hn'
    split at hn'
    · next he =>
      cases hn'
      rw [he, Dict.get?_set]
      split
      · next he' =>
        rw [he', podsAt_concat_of ha hp, List.map_append]
        exact (h.tasks n apps hn app).append_right [pod.name]
      · next he' =>
        rw [podsAt_concat_of_ne fun ha' => by rw [ha] at ha'; cases ha'; exact absurd rfl he']
        exact h.tasks n apps hn app'
    · next he =>
      rw [podsAt_concat_of_ne fun _ hn'' => by rw [hp] at hn''; cases hn''; exact absurd rfl he]
      exact h.tasks n' apps' hn' app'
  · rw [Dict.get?_set] at hn'
    split at hn'
    · cases hn'
      rw [Dict.get?_set]
      split
      · simp
      · exact h.noneEmpty n apps hn app'
    · exact h.noneEmpty n' apps' hn' app'
  · rw [podsAt_concat_of_ne fun _ hn' => by rw [hp] at hn'; cases hn']
    exact h.unassigned app'

theorem Counted.countPod (h : Counted KubePod.assigned names pre counts)
    (hr : countPod counts pod = .ok r) : Counted KubePod.assigned names (pre ++ [pod]) r := by
  obtain ⟨_, ⟨ha, rfl⟩ | ⟨app, ha, hp, rfl⟩ | ⟨app, n, ha, hp, hr⟩⟩ := countPod_ok_iff.mp hr
  · exact h.skip ha
  · exact h.leaveUnassigned ha hp
  · exact h.assign ha hp hr

/-! ## All the pods -/

/-- The turn of the pod does not raise. -/
def Countable (names : List NodeName) (pod : KubePod) : Prop :=
  pod.labels.isSome ∧ (pod.app.isSome → ∀ n, pod.assigned = some n → n ∈ names)

theorem countPod_returns_iff (h : ∀ n, n ∈ counts.1 ↔ n ∈ names) :
    (∃ r, countPod counts pod = .ok r) ↔ Countable names pod := by
  simp only [countPod_ok_iff, assign_ok_iff]
  constructor
  · intro h'
    obtain ⟨r, hl, hcase⟩ := h'
    refine ⟨hl, fun hs n hn => ?_⟩
    obtain ⟨ha, _⟩ | ⟨app, _, hp, _⟩ | ⟨app, n', _, hp, apps, hget, _⟩ := hcase
    · rw [ha] at hs
      cases hs
    · rw [hp] at hn
      cases hn
    · rw [hp] at hn
      cases hn
      exact (h n).mp (Dict.mem_keys_iff_get?.mpr ⟨apps, hget⟩)
  · intro h'
    obtain ⟨hl, hn⟩ := h'
    cases ha : pod.app with
    | none => exact ⟨counts, hl, .inl ⟨rfl, rfl⟩⟩
    | some app =>
      cases hp : pod.assigned with
      | none => exact ⟨_, hl, .inr (.inl ⟨app, rfl, rfl, rfl⟩)⟩
      | some n =>
        have hmem := (h n).mpr (hn (by rw [ha]; rfl) n hp)
        obtain ⟨apps, hget⟩ := Dict.mem_keys_iff_get?.mp hmem
        exact ⟨_, hl, .inr (.inr ⟨app, n, rfl, rfl, apps, hget, rfl⟩)⟩

theorem countPods_returns_iff (h : Counted KubePod.assigned names pre counts) :
    (∃ r, pods.foldlM countPod counts = .ok r) ↔ ∀ pod ∈ pods, Countable names pod := by
  induction pods generalizing counts pre with
  | nil => exact ⟨fun _ pod hp => (nomatch hp), fun _ => ⟨counts, rfl⟩⟩
  | cons pod pods ih =>
    rw [List.forall_mem_cons, ← countPod_returns_iff h.nodes]
    simp only [List.foldlM_cons, except_bind_ok_iff]
    constructor
    · intro ⟨r, counts', hstep, hrest⟩
      exact ⟨⟨counts', hstep⟩, (ih (h.countPod hstep)).mp ⟨r, hrest⟩⟩
    · intro ⟨⟨counts', hstep⟩, hrest⟩
      obtain ⟨r, hr⟩ := (ih (h.countPod hstep)).mpr hrest
      exact ⟨r, counts', hstep, hr⟩

theorem Counted.countPods (h : Counted KubePod.assigned names [] counts)
    (hr : pods.foldlM ClusterDataProvider.countPod counts = .ok r) :
    Counted KubePod.assigned names pods r :=
  except_foldlM_ok hr h fun _ _ _ _ _ _ hpre hstep => hpre.countPod hstep

theorem foldlM_flatMap {l : List Namespace} {f : Namespace → List KubePod} :
    l.foldlM (fun counts ns => (f ns).foldlM countPod counts) counts =
      (l.flatMap f).foldlM countPod counts := by
  induction l generalizing counts with
  | nil => rfl
  | cons ns l ih =>
    rw [List.foldlM_cons, List.flatMap_cons, List.foldlM_append]
    simp only [ih]

theorem get?_ofItems_empty {names : List NodeName} {n : NodeName} {apps : Apps}
    (h : (Dict.ofItems (names.map fun name => (name, (∅ : Apps)))).get? n = some apps) :
    apps = ∅ := by
  obtain ⟨name, _, he⟩ := List.mem_map.mp (Dict.mem_of_get?_ofItems h)
  cases he
  rfl

/-- No pod is counted at the start. -/
theorem counted_nil :
    Counted place names [] (Dict.ofItems (names.map fun name => (name, ∅)), ∅) := by
  refine ⟨fun n => ?_, fun n apps hn app => ?_, fun n apps hn app => ?_, fun app => rfl, fun app => ?_⟩
  · rw [Dict.mem_def, Dict.mem_keys_ofItems]
    simp
  · rw [get?_ofItems_empty hn, Dict.get?_empty]
    exact List.Perm.nil
  · rw [get?_ofItems_empty hn, Dict.get?_empty]
    simp
  · rw [Dict.get?_empty]
    simp

theorem getAppsCounts_ok (h : getAppsCounts kubeapi = .ok counts) :
    Counted KubePod.assigned (workers kubeapi.nodes) (listed kubeapi) counts := by
  rw [getAppsCounts, except_bind_ok_iff] at h
  obtain ⟨names, hnames, h⟩ := h
  obtain ⟨_, rfl⟩ := nodeNames_ok_iff.mp hnames
  rw [foldlM_flatMap] at h
  exact counted_nil.countPods h

theorem getAppsCounts_returns_iff : (∃ counts, getAppsCounts kubeapi = .ok counts) ↔
    (∀ n ∈ kubeapi.nodes, n.labels.isSome) ∧
      ∀ pod ∈ listed kubeapi, Countable (workers kubeapi.nodes) pod := by
  rw [← countPods_returns_iff counted_nil]
  simp only [getAppsCounts, except_bind_ok_iff, nodeNames_ok_iff, foldlM_flatMap, listed]
  constructor
  · intro ⟨counts, names, ⟨hn, hnames⟩, h⟩
    exact ⟨hn, counts, hnames ▸ h⟩
  · intro ⟨hn, counts, h⟩
    exact ⟨counts, _, ⟨hn, rfl⟩, h⟩

/-! ## Pods that are met twice -/

/-- No namespace with a pod of an app is monitored twice. -/
def MonitoredOnce (kubeapi : Kubeapi) : Prop :=
  ∀ ns ∈ kubeapi.monitoredNamespaces, (∃ pod ∈ kubeapi.pods ns, pod.app.isSome) →
    kubeapi.monitoredNamespaces.count ns = 1

theorem filter_flatMap_dedup {p : KubePod → Bool} {f : Namespace → List KubePod}
    {l : List Namespace} (h : ∀ ns ∈ l, (∃ pod ∈ f ns, p pod) → l.count ns = 1) :
    (l.dedup.flatMap f).filter p = (l.flatMap f).filter p := by
  induction l with
  | nil => rfl
  | cons ns l ih =>
    have htail := ih fun ns' hns hp => by
      have hle := List.count_le_count_cons (a := ns') (b := ns) (l := l)
      have hone := h ns' (List.mem_cons_of_mem ns hns) hp
      have hpos := List.count_pos_iff.mpr hns
      omega
    rw [List.flatMap_cons, List.filter_append, ← htail]
    by_cases hns : ns ∈ l
    · have hnone : (f ns).filter p = [] := by
        rw [List.filter_eq_nil_iff]
        intro pod hpod hp
        have hone := h ns List.mem_cons_self ⟨pod, hpod, hp⟩
        have hpos := List.count_pos_iff.mpr hns
        rw [List.count_cons_self] at hone
        omega
      rw [List.dedup_cons_of_mem hns, hnone, List.nil_append]
    · rw [List.dedup_cons_of_notMem hns, List.flatMap_cons, List.filter_append]

theorem flatMap_dedup_sublist {f : Namespace → List KubePod} {l : List Namespace} :
    (l.dedup.flatMap f).Sublist (l.flatMap f) := (List.dedup_sublist l).flatMap f

theorem countP_flatMap_dedup_lt {p : KubePod → Bool} {f : Namespace → List KubePod}
    {l : List Namespace} {ns : Namespace} (h : 1 < l.count ns) (hp : pod ∈ f ns) (hpod : p pod) :
    (l.dedup.flatMap f).countP p < (l.flatMap f).countP p := by
  induction l with
  | nil => simp at h
  | cons ns' l ih =>
    have hle := (flatMap_dedup_sublist (f := f) (l := l)).countP_le (p := p)
    rw [List.flatMap_cons, List.countP_append]
    by_cases he : ns' = ns
    · rw [he, List.count_cons_self] at h
      have hmem : ns ∈ l := List.count_pos_iff.mp (by omega)
      have hpos : 0 < (f ns).countP p := List.countP_pos_iff.mpr ⟨pod, hp, hpod⟩
      rw [he, List.dedup_cons_of_mem hmem]
      omega
    · rw [List.count_cons_of_ne he] at h
      have hlt := ih h
      by_cases hmem : ns' ∈ l
      · rw [List.dedup_cons_of_mem hmem]
        omega
      · rw [List.dedup_cons_of_notMem hmem, List.flatMap_cons, List.countP_append]
        omega

/-! ## When each pod is counted once -/

/-- The answers that are counted as they are: what is read is there, the pods of apps that are
assigned are on worker nodes, and no namespace is gone through twice. -/
structure Benign (kubeapi : Kubeapi) : Prop where
  nodeLabels : ∀ n ∈ kubeapi.nodes, n.labels.isSome
  podLabels : ∀ pod ∈ listed kubeapi, pod.labels.isSome
  onWorkers : ∀ pod ∈ listed kubeapi, pod.app.isSome → ∀ n, pod.assigned = some n →
    n ∈ workers kubeapi.nodes
  once : MonitoredOnce kubeapi

/-- A pod of an app that is scheduled runs already. -/
def ScheduledRun (kubeapi : Kubeapi) : Prop :=
  ∀ pod ∈ listed kubeapi, pod.app.isSome → pod.scheduled.isSome → (truthy pod.hostIP).isSome

/-- The place is the node a pod of an app is assigned to. -/
def Agrees (place : KubePod → Option NodeName) (kubeapi : Kubeapi) : Prop :=
  ∀ pod ∈ listed kubeapi, pod.app.isSome → place pod = pod.assigned

theorem returns_of_benign (h : Benign kubeapi) : ∃ counts, getAppsCounts kubeapi = .ok counts :=
  getAppsCounts_returns_iff.mpr
    ⟨h.nodeLabels, fun pod hp => ⟨h.podLabels pod hp, h.onWorkers pod hp⟩⟩

theorem podsAt_of_agrees (h : Agrees place kubeapi) :
    podsAt place (listed kubeapi) node app = podsAt KubePod.assigned (listed kubeapi) node app := by
  refine List.filter_congr fun pod hp => ?_
  by_cases ha : pod.app = some app
  · rw [h pod hp (by rw [ha]; rfl)]
  · simp [ha]

theorem podsAt_monitored (h : MonitoredOnce kubeapi) :
    podsAt place (monitored kubeapi) node app = podsAt place (listed kubeapi) node app := by
  refine filter_flatMap_dedup fun ns hns hp => h ns hns ?_
  obtain ⟨pod, hpod, hp⟩ := hp
  rw [decide_eq_true_eq] at hp
  exact ⟨pod, hpod, by rw [hp.1]; rfl⟩

theorem Counted.of_podsAt (h : Counted place names pods counts)
    (hs : ∀ node app, podsAt place' pods' node app = podsAt place pods node app) :
    Counted place' names pods' counts := by
  refine ⟨h.nodes, fun n apps hn app => ?_, h.noneEmpty, fun app => ?_, h.noneZero⟩
  · rw [hs]
    exact h.tasks n apps hn app
  · rw [hs]
    exact h.unassigned app

/-- The counts tell how many pods of an app have a place. -/
theorem Counted.length_eq (h : Counted place names pods counts)
    (h' : Counted place' names pods' counts) (node : Option NodeName) (app : AppName)
    (hn : ∀ n, node = some n → n ∈ names) :
    (podsAt place pods node app).length = (podsAt place' pods' node app).length := by
  cases node with
  | none => rw [← h.unassigned, h'.unassigned]
  | some n =>
    obtain ⟨apps, hget⟩ := Dict.mem_keys_iff_get?.mp ((h.nodes n).mpr (hn n rfl))
    have hperm := (h.tasks n apps hget app).symm.trans (h'.tasks n apps hget app)
    simpa using hperm.length_eq

theorem countsOnce_of_benign (ha : Agrees place kubeapi) (h : Benign kubeapi) :
    CountsOnce place kubeapi := by
  obtain ⟨counts, hcounts⟩ := returns_of_benign h
  refine ⟨counts, hcounts, (getAppsCounts_ok hcounts).of_podsAt fun node app => ?_⟩
  rw [podsAt_monitored h.once, podsAt_of_agrees ha]

theorem monitoredOnce_of_countsOnce (ha : Agrees place kubeapi) (h : CountsOnce place kubeapi) :
    MonitoredOnce kubeapi := by
  obtain ⟨counts, hcounts, hcounted⟩ := h
  have hlisted := getAppsCounts_ok hcounts
  have hret := getAppsCounts_returns_iff.mp ⟨counts, hcounts⟩
  intro ns hns ⟨pod, hpod, happ⟩
  have hpos := List.count_pos_iff.mpr hns
  refine Nat.le_antisymm (not_lt.mp fun hlt => ?_) hpos
  obtain ⟨app, happ'⟩ := Option.isSome_iff_exists.mp happ
  have hmem : pod ∈ listed kubeapi := List.mem_flatMap.mpr ⟨ns, hns, hpod⟩
  have heq := hcounted.length_eq hlisted (place pod) app fun n hn =>
    (hret.2 pod hmem).2 happ n (ha pod hmem happ ▸ hn)
  rw [← podsAt_of_agrees ha, podsAt, podsAt, ← List.countP_eq_length_filter,
    ← List.countP_eq_length_filter] at heq
  have hlt' := countP_flatMap_dedup_lt
    (p := fun pod' => pod'.app = some app ∧ place pod' = place pod) hlt hpod (by simp [happ'])
  rw [listed, monitored] at heq
  omega

theorem countsOnce_iff_benign (ha : Agrees place kubeapi) :
    CountsOnce place kubeapi ↔ Benign kubeapi := by
  refine ⟨fun h => ?_, countsOnce_of_benign ha⟩
  have honce := monitoredOnce_of_countsOnce ha h
  obtain ⟨counts, hcounts, _⟩ := h
  have hret := getAppsCounts_returns_iff.mp ⟨counts, hcounts⟩
  exact ⟨hret.1, fun pod hp => (hret.2 pod hp).1, fun pod hp => (hret.2 pod hp).2, honce⟩

theorem agrees_scheduled_iff : Agrees KubePod.scheduled kubeapi ↔ ScheduledRun kubeapi := by
  refine forall₂_congr fun pod _ => forall_congr' fun _ => ?_
  rw [KubePod.assigned, KubePod.scheduled]
  cases hn : truthy pod.nodeName with
  | none => simp
  | some n => cases truthy pod.hostIP <;> simp

/-- Of the pods that are not assigned, those that are not scheduled. -/
theorem podsAt_scheduled : podsAt KubePod.scheduled pods none app =
    (podsAt KubePod.assigned pods none app).filter fun pod => pod.scheduled = none := by
  rw [podsAt, podsAt, List.filter_filter]
  refine List.filter_congr fun pod _ => ?_
  by_cases hs : pod.scheduled = none
  · have hp : pod.assigned = none := by
      rw [KubePod.scheduled] at hs
      simp [KubePod.assigned, hs]
    simp [hs, hp]
  · simp [hs]

/-- Where a scheduled pod does not run yet it is among the unassigned. -/
theorem scheduledRun_of_countsOnce (h : CountsOnce KubePod.scheduled kubeapi) :
    ScheduledRun kubeapi := by
  obtain ⟨counts, hcounts, hcounted⟩ := h
  intro pod hpod happ hs
  by_contra hip
  obtain ⟨app, happ'⟩ := Option.isSome_iff_exists.mp happ
  have heq := hcounted.length_eq (getAppsCounts_ok hcounts) none app
    fun n hn => nomatch hn
  have hle : (podsAt KubePod.scheduled (monitored kubeapi) none app).length ≤
      (podsAt KubePod.scheduled (listed kubeapi) none app).length :=
    (flatMap_dedup_sublist.filter _).length_le
  have hlt : (podsAt KubePod.scheduled (listed kubeapi) none app).length <
      (podsAt KubePod.assigned (listed kubeapi) none app).length := by
    rw [podsAt_scheduled, List.length_filter_lt_length_iff_exists]
    refine ⟨pod, List.mem_filter.mpr ⟨hpod, ?_⟩, ?_⟩
    · simp [happ', KubePod.assigned, hip]
    · simpa [Option.isSome_iff_ne_none] using hs
  omega

/-- Each pod of an app is counted once, as assigned if it is on a node that has it, just when the
answers are benign; the pods that are scheduled are told apart from the others just when
none of them waits for its node. -/
theorem countsOnce_iff :
    (CountsOnce KubePod.assigned kubeapi ↔ Benign kubeapi) ∧
      (CountsOnce KubePod.scheduled kubeapi ↔ Benign kubeapi ∧ ScheduledRun kubeapi) := by
  refine ⟨countsOnce_iff_benign fun _ _ _ => rfl, fun h => ?_, fun ⟨h, hr⟩ => ?_⟩
  · have hr := scheduledRun_of_countsOnce h
    exact ⟨(countsOnce_iff_benign (agrees_scheduled_iff.mpr hr)).mp h, hr⟩
  · exact countsOnce_of_benign (agrees_scheduled_iff.mpr hr) h

/-- A node that is a master, and one that is not. -/
def twoNodes : List KubeNode :=
  [⟨"master", some (.ofItems [(MASTER_LABEL, "")])⟩, ⟨"worker", some (.ofItems [("pmem", "no")])⟩]

/-- A pod of a daemon set runs on the master too, with the label of its app. -/
def daemonSet : Kubeapi where
  monitoredNamespaces := ["default"]
  nodes := twoNodes
  pods _ := [⟨"exporter-1", some (.ofItems [("app", "exporter")]), some "worker", some "10.0.0.2"⟩,
    ⟨"exporter-2", some (.ofItems [("app", "exporter")]), some "master", some "10.0.0.1"⟩]

theorem daemonSet_raises : getAppsCounts daemonSet = .error (.builtin .KeyError) ∧
    ¬CountsOnce KubePod.assigned daemonSet ∧ ¬CountsOnce KubePod.scheduled daemonSet := by
  have hraises : getAppsCounts daemonSet = .error (.builtin .KeyError) := by rfl
  refine ⟨hraises, fun ⟨counts, h, _⟩ => ?_, fun ⟨counts, h, _⟩ => ?_⟩
  · rw [hraises] at h
    cases h
  · rw [hraises] at h
    cases h

end ClusterDataProvider
end Wca.Scheduler
