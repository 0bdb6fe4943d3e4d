import Wca.Scheduler.ClusterSimulator
import Mathlib.Algebra.BigOperators.Ring.List

/-!
# Nodes are not over-committed

What the tasks on a node take together is its `load`. The check of `perform_assignment` keeps it
below what the node has, and everything else the simulator does with its tasks only gives back.
-/

namespace Wca.Scheduler

open Py ResourceType Resources

namespace Node

/-- The tasks assigned to the node. -/
def onNode (self : Node) (tasks : List Task) : List Task :=
  tasks.filter (·.assignment = some self)

theorem mem_onNode {self : Node} {tasks : List Task} {t : Task} :
    t ∈ self.onNode tasks ↔ t ∈ tasks ∧ t.assignment = some self := by
  rw [onNode, List.mem_filter, decide_eq_true_eq]

theorem onNode_append {self : Node} {tasks tasks' : List Task} :
    self.onNode (tasks ++ tasks') = self.onNode tasks ++ self.onNode tasks' := List.filter_append _ _

theorem onNode_singleton_of {self : Node} {t : Task} (h : t.assignment = some self) :
    self.onNode [t] = [t] := by
  simp [onNode, h]

theorem onNode_singleton_of_not {self : Node} {t : Task} (h : t.assignment ≠ some self) :
    self.onNode [t] = [] := by
  simp [onNode, h]

/-- What the tasks on the node take from it in a dimension. -/
def load (self : Node) (ratio : ℚ) (tasks : List Task) (d : ResourceType) : ℚ :=
  ((self.onNode tasks).map fun t => demand ratio t.requested d).sum

/-- The part of the load that one task makes. -/
def share (self : Node) (ratio : ℚ) (t : Task) (d : ResourceType) : ℚ :=
  if t.assignment = some self then demand ratio t.requested d else 0

theorem share_of_on {self : Node} {ratio : ℚ} {t : Task} {d : ResourceType}
    (h : t.assignment = some self) : self.share ratio t d = demand ratio t.requested d := if_pos h

theorem share_of_not_on {self : Node} {ratio : ℚ} {t : Task} {d : ResourceType}
    (h : t.assignment ≠ some self) : self.share ratio t d = 0 := if_neg h

theorem share_nonneg {self : Node} {ratio : ℚ} {t : Task} {d : ResourceType} (hratio : 0 ≤ ratio)
    (ht : t.requested.NonNeg) : 0 ≤ self.share ratio t d := by
  by_cases h : t.assignment = some self
  · rw [share_of_on h]
    exact ht.demand hratio d
  · rw [share_of_not_on h]

@[simp] theorem load_nil {self : Node} {ratio : ℚ} {d : ResourceType} : self.load ratio [] d = 0 := rfl

@[simp] theorem load_cons {self : Node} {ratio : ℚ} {t : Task} {tasks : List Task} {d : ResourceType} :
    self.load ratio (t :: tasks) d = self.share ratio t d + self.load ratio tasks d := by
  unfold load onNode share
  by_cases h : t.assignment = some self
  · simp [h]
  · simp [h]

theorem load_append {self : Node} {ratio : ℚ} {tasks tasks' : List Task} {d : ResourceType} :
    self.load ratio (tasks ++ tasks') d = self.load ratio tasks d + self.load ratio tasks' d := by
  rw [load, onNode_append, List.map_append, List.sum_append]
  rfl

/-- What is left of the node's resources. -/
def free (self : Node) (ratio : ℚ) (tasks : List Task) : Resources :=
  self.initial.map fun d v => v - self.load ratio tasks d

private theorem map_map_sub {x : Resources} {f g : ResourceType → ℚ} :
    Dict.map (fun d v => v - g d) (x.map fun d v => v - f d) = x.map fun d v => v - (f d + g d) := by
  refine Dict.ext ?_
  rw [Dict.items_map, Dict.items_map, Dict.items_map, List.map_map]
  refine List.map_congr_left fun p _ => ?_
  rw [Function.comp_apply, sub_sub]

private theorem map_sub_zero {x : Resources} {f : ResourceType → ℚ} (h : ∀ d, f d = 0) :
    (x.map fun d v => v - f d) = x := by
  refine Dict.ext ?_
  simp [h]

/-- The request of a task can be taken off: the dimensions are the same, and the two of the memory
bandwidth have a ratio. -/
structure Subtractable (x : Resources) (ratio : ℚ) (b : Resources) : Prop where
  keys : x.SameKeys b
  ratio : x.HasMembw → ratio ≠ 0

theorem subtractAepAware_iff {x b r : Resources} {ratio : ℚ} :
    x.subtractAepAware b ratio = .ok r ↔
      Subtractable x ratio b ∧ r = x.map fun d v => v - demand ratio b d := by
  rw [subtractAepAware_ok_iff, ← and_assoc]
  exact and_congr_left' ⟨fun h => ⟨h.1, h.2⟩, fun h => ⟨h.keys, h.ratio⟩⟩

theorem subtractable_map {x b : Resources} {ratio : ℚ} {f : ResourceType → ℚ → ℚ} :
    Subtractable (x.map f) ratio b ↔ Subtractable x ratio b := by
  have h : SameKeys (x.map f) x := sameKeys_map
  constructor
  · intro hs
    exact ⟨h.symm.trans hs.keys, fun hb => hs.ratio (h.hasMembw.mpr hb)⟩
  · intro hs
    exact ⟨h.trans hs.keys, fun hb => hs.ratio (h.hasMembw.mp hb)⟩

theorem subtractTask_ok_iff {self : Node} {ratio : ℚ} (hratio : self.getMembwReadWriteRatio = .ok ratio)
    {x r : Resources} {t : Task} :
    self.subtractTask x t = .ok r ↔
      (t.assignment = some self → Subtractable x ratio t.requested) ∧
        r = x.map fun d v => v - self.share ratio t d := by
  unfold subtractTask share
  by_cases h : t.assignment = some self
  · simp only [h, if_true, hratio, except_ok_bind, subtractAepAware_iff, forall_const]
  · simp only [h, if_false, except_pure, IsEmpty.forall_iff, true_and, map_sub_zero (fun _ => rfl),
      Except.ok.injEq, eq_comm]

private theorem foldlM_subtractTask {self : Node} {ratio : ℚ}
    (hratio : self.getMembwReadWriteRatio = .ok ratio) {tasks : List Task} {x r : Resources} :
    tasks.foldlM self.subtractTask x = .ok r ↔
      (∀ t ∈ self.onNode tasks, Subtractable x ratio t.requested) ∧
        r = x.map fun d v => v - self.load ratio tasks d := by
  induction tasks generalizing x with
  | nil =>
    have hx : (x.map fun d v => v - self.load ratio [] d) = x := map_sub_zero fun _ => load_nil
    rw [hx]
    simp [onNode, eq_comm]
  | cons t tasks ih =>
    have hon : (∀ t' ∈ self.onNode (t :: tasks), Subtractable x ratio t'.requested) ↔
        (t.assignment = some self → Subtractable x ratio t.requested) ∧
          ∀ t' ∈ self.onNode tasks, Subtractable x ratio t'.requested := by
      simp only [mem_onNode, List.mem_cons, and_imp, forall_eq_or_imp]
    simp only [List.foldlM_cons, except_bind_ok_iff, subtractTask_ok_iff hratio, ih, hon, load_cons]
    constructor
    · rintro ⟨_, ⟨ht, rfl⟩, htasks, rfl⟩
      simp only [subtractable_map] at htasks
      exact ⟨⟨ht, htasks⟩, map_map_sub⟩
    · rintro ⟨⟨ht, htasks⟩, rfl⟩
      refine ⟨_, ⟨ht, rfl⟩, ?_, map_map_sub.symm⟩
      simpa only [subtractable_map] using htasks

/-- The check answers whether nothing is missing once the request is taken off what is left. -/
theorem validateAssignment_ok_iff {self : Node} {tasks : List Task} {newTask : Task} {b : Bool} :
    self.validateAssignment tasks newTask = .ok b ↔
      ∃ ratio, self.getMembwReadWriteRatio = .ok ratio ∧
        (∀ t ∈ self.onNode tasks, Subtractable self.initial ratio t.requested) ∧
        Subtractable self.initial ratio newTask.requested ∧
        b = bool (self.initial.map fun d v =>
          v - (self.load ratio tasks d + demand ratio newTask.requested d)) := by
  cases hratio : self.getMembwReadWriteRatio with
  | error e =>
    simp only [validateAssignment, hratio, except_bind_ok_iff, except_error_bind, reduceCtorEq,
      and_false, false_and, exists_false]
  | ok ratio =>
    simp only [validateAssignment, calculateUnassigned, except_bind_ok_iff, hratio,
      foldlM_subtractTask hratio, subtractAepAware_iff, Except.ok.injEq, exists_eq_left']
    constructor
    · rintro ⟨_, ⟨htasks, rfl⟩, _, ⟨hnew, rfl⟩, hb⟩
      rw [subtractable_map] at hnew
      rw [map_map_sub] at hb
      exact ⟨htasks, hnew, (Except.ok.inj hb).symm⟩
    · rintro ⟨htasks, hnew, rfl⟩
      refine ⟨_, ⟨htasks, rfl⟩, _, ⟨subtractable_map.mpr hnew, rfl⟩, ?_⟩
      rw [map_map_sub]
      rfl

theorem getMembwReadWriteRatio_ok_iff {self : Node} {ratio : ℚ} :
    self.getMembwReadWriteRatio = .ok ratio ↔
      (self.initial.HasMembw → self.initial.amount MEMBW_WRITE ≠ 0 ∧
        ratio = self.initial.amount MEMBW_READ / self.initial.amount MEMBW_WRITE) ∧
      (¬self.initial.HasMembw → ratio = 1) := by
  unfold getMembwReadWriteRatio
  by_cases h : self.initial.HasMembw
  · simp [h, truediv_ok_iff]
  · simp [h, eq_comm]

/-- Both bandwidths of the node are positive, if it has them. -/
def PositiveMembw (self : Node) : Prop :=
  self.initial.HasMembw →
    0 < self.initial.amount MEMBW_READ ∧ 0 < self.initial.amount MEMBW_WRITE

theorem PositiveMembw.ratio_pos {self : Node} (h : self.PositiveMembw) {ratio : ℚ}
    (hratio : self.getMembwReadWriteRatio = .ok ratio) : 0 < ratio := by
  obtain ⟨hboth, hnot⟩ := getMembwReadWriteRatio_ok_iff.mp hratio
  by_cases hb : self.initial.HasMembw
  · rw [(hboth hb).2]
    exact div_pos (h hb).1 (h hb).2
  · rw [hnot hb]
    exact one_pos

theorem PositiveMembw.exists_ratio {self : Node} (h : self.PositiveMembw) :
    ∃ ratio, self.getMembwReadWriteRatio = .ok ratio := by
  by_cases hb : self.initial.HasMembw
  · exact ⟨_, getMembwReadWriteRatio_ok_iff.mpr
      ⟨fun _ => ⟨(h hb).2.ne', rfl⟩, fun hnot => absurd hb hnot⟩⟩
  · exact ⟨1, getMembwReadWriteRatio_ok_iff.mpr ⟨fun h' => absurd h' hb, fun _ => rfl⟩⟩

/-! ## What changes of the tasks do to the load -/

theorem load_modify {self : Node} {ratio : ℚ} {tasks : List Task} {i : Nat} {t : Task}
    {f : Task → Task} {d : ResourceType} (h : tasks[i]? = some t) :
    self.load ratio (tasks.modify i f) d =
      self.load ratio tasks d - self.share ratio t d + self.share ratio (f t) d := by
  induction tasks generalizing i with
  | nil => cases h
  | cons t' tasks ih =>
    cases i with
    | zero =>
      cases h
      rw [List.modify_zero_cons, load_cons, load_cons]
      ring
    | succ i =>
      rw [List.getElem?_cons_succ] at h
      rw [List.modify_succ_cons, load_cons, load_cons, ih h]
      ring

theorem load_map_le {self : Node} {ratio : ℚ} {tasks : List Task} {f : Task → Task}
    {d : ResourceType} (h : ∀ t ∈ tasks, self.share ratio (f t) d ≤ self.share ratio t d) :
    self.load ratio (tasks.map f) d ≤ self.load ratio tasks d := by
  induction tasks with
  | nil => exact le_refl _
  | cons t tasks ih =>
    rw [List.map_cons, load_cons, load_cons]
    exact add_le_add (h t List.mem_cons_self) (ih fun t' ht' => h t' (List.mem_cons_of_mem _ ht'))

end Node

/-- The task is where it was, or nowhere. -/
structure Task.GivesBack (t t' : Task) : Prop where
  requested : t'.requested = t.requested
  assignment : t'.assignment = t.assignment ∨ t'.assignment = none

theorem Task.givesBack_update (t : Task) : t.GivesBack t.update := by
  unfold Task.update
  split
  · dsimp only
    split
    · exact ⟨rfl, .inr rfl⟩
    · exact ⟨rfl, .inl rfl⟩
  · exact ⟨rfl, .inl rfl⟩

theorem Task.name_update (t : Task) : t.update.name = t.name := by
  unfold Task.update
  split
  · dsimp only
    split
    · rfl
    · rfl
  · rfl

theorem Task.GivesBack.share_le {t t' : Task} (h : t.GivesBack t') {node : Node} {ratio : ℚ}
    {d : ResourceType} (hratio : 0 ≤ ratio) (ht : t.requested.NonNeg) :
    node.share ratio t' d ≤ node.share ratio t d := by
  rcases h.assignment with ha | ha
  · rw [Node.share, ha, h.requested]
    exact le_refl _
  · rw [Node.share_of_not_on (by simp [ha])]
    exact Node.share_nonneg hratio ht

theorem mem_modify {tasks : List Task} {i : Nat} {f : Task → Task} {t' : Task}
    (h : t' ∈ tasks.modify i f) : t' ∈ tasks ∨ ∃ t, tasks[i]? = some t ∧ t' = f t := by
  obtain ⟨j, hj⟩ := List.mem_iff_getElem?.mp h
  rw [List.getElem?_modify, Option.map_eq_map, Option.map_eq_some_iff] at hj
  obtain ⟨t, ht, rfl⟩ := hj
  split
  · next hij => exact .inr ⟨t, hij ▸ ht, rfl⟩
  · exact .inl (List.mem_of_getElem? ht)

/-- The tasks on the node, once there are any, take less than it has, up to the tolerance. -/
def Committed (node : Node) (tasks : List Task) : Prop :=
  ∀ ratio, node.getMembwReadWriteRatio = .ok ratio → (∃ t ∈ tasks, t.assignment = some node) →
    ∀ d ∈ node.initial, node.load ratio tasks d < node.initial.amount d + 1 / 10000

section Committed

variable {node : Node} {tasks : List Task}

theorem committed_nil : Committed node [] := fun _ _ ⟨_, ht, _⟩ => (nomatch ht)

/-- The bound stays where the load goes down and no task comes to the node. -/
theorem Committed.mono {tasks' : List Task} (h : Committed node tasks)
    (hload : ∀ ratio, node.getMembwReadWriteRatio = .ok ratio → ∀ d,
      node.load ratio tasks' d ≤ node.load ratio tasks d)
    (hon : (∃ t ∈ tasks', t.assignment = some node) → ∃ t ∈ tasks, t.assignment = some node) :
    Committed node tasks' := by
  intro ratio hratio hex d hd
  exact (hload ratio hratio d).trans_lt (h ratio hratio (hon hex) d hd)

/-- A task that is nowhere changes nothing. -/
theorem Committed.append (h : Committed node tasks) {t : Task} (ht : t.assignment = none) :
    Committed node (tasks ++ [t]) := by
  refine h.mono (fun ratio _ d => ?_) ?_
  · simp [Node.load_append, Node.share, ht]
  · rintro ⟨t', ht', ha⟩
    rcases List.mem_append.mp ht' with hmem | hmem
    · exact ⟨t', hmem, ha⟩
    · rw [List.mem_singleton.mp hmem, ht] at ha
      cases ha

variable (hpos : node.PositiveMembw) (hreq : ∀ t ∈ tasks, t.requested.NonNeg)

include hpos hreq

theorem Committed.map (h : Committed node tasks) {f : Task → Task}
    (hf : ∀ t : Task, t.GivesBack (f t)) :
    Committed node (tasks.map f) := by
  refine h.mono (fun ratio hratio d => ?_) ?_
  · exact Node.load_map_le fun t ht => (hf t).share_le (hpos.ratio_pos hratio).le (hreq t ht)
  · rintro ⟨t', ht', ha⟩
    obtain ⟨t, ht, rfl⟩ := List.mem_map.mp ht'
    rcases (hf t).assignment with hs | hn
    · exact ⟨t, ht, hs ▸ ha⟩
    · rw [hn] at ha
      cases ha

theorem Committed.modify (h : Committed node tasks) {i : Nat} {f : Task → Task}
    (hf : ∀ t : Task, t.GivesBack (f t)) : Committed node (tasks.modify i f) := by
  cases hi : tasks[i]? with
  | none =>
    rw [List.modify_eq_self (List.getElem?_eq_none_iff.mp hi)]
    exact h
  | some t =>
    have ht : t ∈ tasks := List.mem_of_getElem? hi
    refine h.mono (fun ratio hratio d => ?_) ?_
    · have hshare : node.share ratio (f t) d ≤ node.share ratio t d :=
        (hf t).share_le (hpos.ratio_pos hratio).le (hreq t ht)
      rw [Node.load_modify hi]
      linarith
    · rintro ⟨t', ht', ha⟩
      rcases mem_modify ht' with hmem | ⟨t₀, ht₀, rfl⟩
      · exact ⟨t', hmem, ha⟩
      · rcases (hf t₀).assignment with hs | hn
        · exact ⟨t₀, List.mem_of_getElem? ht₀, hs ▸ ha⟩
        · rw [hn] at ha
          cases ha

/-- A task that passed the check is assigned. Where it was before, it leaves its share. -/
theorem Committed.assign (h : Committed node tasks) {i : Nat} {t : Task} {node' : Node}
    (hi : tasks[i]? = some t) (hfits : node'.validateAssignment tasks t = .ok true) :
    Committed node (tasks.modify i fun task => { task with assignment := some node' }) := by
  have hleft : ∀ ratio, node.getMembwReadWriteRatio = .ok ratio → ∀ d,
      0 ≤ node.share ratio t d := fun ratio hratio d =>
    Node.share_nonneg (hpos.ratio_pos hratio).le (hreq t (List.mem_of_getElem? hi))
  by_cases hnode : node' = node
  · subst hnode
    intro ratio hratio _ d hd
    obtain ⟨ratio', hratio', -, -, hbool⟩ := Node.validateAssignment_ok_iff.mp hfits
    cases hratio.symm.trans hratio'
    have hroom := bool_iff.mp hbool.symm d (mem_map.mpr hd)
    have hshare := hleft ratio hratio d
    rw [amount_map hd] at hroom
    have hon : ({ t with assignment := some node' } : Task).assignment = some node' := rfl
    rw [Node.load_modify hi, Node.share_of_on hon]
    linarith
  · have hother : ({ t with assignment := some node' } : Task).assignment ≠ some node :=
      fun ha => hnode (Option.some.inj ha)
    refine h.mono (fun ratio hratio d => ?_) ?_
    · have hshare := hleft ratio hratio d
      rw [Node.load_modify hi, Node.share_of_not_on hother]
      linarith
    · rintro ⟨t', ht', ha⟩
      rcases mem_modify ht' with hmem | ⟨t₀, -, rfl⟩
      · exact ⟨t', hmem, ha⟩
      · exact absurd (Option.some.inj ha) hnode

end Committed

/-! ## Every step keeps the bounds -/

/-- Amounts that a task may request from the nodes: none negative, in the dimensions of each. -/
structure Requestable (nodes : List Node) (r : Resources) : Prop where
  nonNeg : r.NonNeg
  keys : ∀ node ∈ nodes, node.initial.SameKeys r

/-- A simulator without rough assignments whose nodes are within their bounds. -/
structure Accounted (nodes : List Node) (sim : ClusterSimulator) : Prop where
  nodes_eq : sim.nodes = nodes
  strict : sim.allowRoughAssignment = false
  requests : ∀ t ∈ sim.tasks, Requestable nodes t.requested
  committed : ∀ node : Node, node.PositiveMembw → Committed node sim.tasks

namespace Accounted

variable {nodes : List Node} {sim : ClusterSimulator}

theorem nonNeg (h : Accounted nodes sim) : ∀ t ∈ sim.tasks, t.requested.NonNeg := fun t ht =>
  (h.requests t ht).nonNeg

theorem requests_setTask (h : Accounted nodes sim) {i : Nat} {f : Task → Task}
    (hf : ∀ t, (f t).requested = t.requested) :
    ∀ t ∈ (sim.setTask i f).tasks, Requestable nodes t.requested := by
  intro t' ht'
  rcases mem_modify ht' with hmem | ⟨t, ht, rfl⟩
  · exact h.requests t' hmem
  · rw [hf]
    exact h.requests t (List.mem_of_getElem? ht)

theorem append (h : Accounted nodes sim) {t : Task} (ht : t.assignment = none)
    (hreq : Requestable nodes t.requested) : Accounted nodes { sim with tasks := sim.tasks ++ [t] } where
  nodes_eq := h.nodes_eq
  strict := h.strict
  requests := fun t' ht' => (List.mem_append.mp ht').elim (h.requests t') fun hmem =>
    List.mem_singleton.mp hmem ▸ hreq
  committed := fun node hpos => (h.committed node hpos).append ht

theorem unassign (h : Accounted nodes sim) (i : Nat) :
    Accounted nodes (sim.setTask i fun task => { task with assignment := none }) where
  nodes_eq := h.nodes_eq
  strict := h.strict
  requests := h.requests_setTask fun _ => rfl
  committed := fun node hpos =>
    (h.committed node hpos).modify hpos h.nonNeg fun _ => ⟨rfl, .inr rfl⟩

theorem assign (h : Accounted nodes sim) {i : Nat} {t : Task} {node : Node}
    (hi : sim.tasks[i]? = some t) (hfits : node.validateAssignment sim.tasks t = .ok true) :
    Accounted nodes (sim.setTask i fun task => { task with assignment := some node }) where
  nodes_eq := h.nodes_eq
  strict := h.strict
  requests := h.requests_setTask fun _ => rfl
  committed := fun node' hpos => (h.committed node' hpos).assign hpos h.nonNeg hi hfits

theorem updateTasksLife (h : Accounted nodes sim) : Accounted nodes sim.updateTasksLife where
  nodes_eq := h.nodes_eq
  strict := h.strict
  requests := by
    intro t' ht'
    obtain ⟨t, ht, rfl⟩ := List.mem_map.mp ht'
    rw [t.givesBack_update.requested]
    exact h.requests t ht
  committed := fun node hpos =>
    (h.committed node hpos).map hpos h.nonNeg fun t => t.givesBack_update

end Accounted

namespace ClusterSimulator

variable {σ : Type} {nodes : List Node}

theorem keeps_performAssignment {i : Nat} {node : Node} :
    Keeps (fun s => Accounted nodes s.1) (performAssignment i node : Run σ Bool) := by
  intro s h
  unfold performAssignment simulator
  simp only [wp_bind, wp_get, wp_pure]
  refine wp_task (fun t ht => ?_) fun _ => h
  rw [wp_bind, wp_liftM]
  refine ⟨fun fits hfits => ?_, fun _ _ => h⟩
  cases fits with
  | true => exact h.assign ht hfits
  | false =>
    rw [h.strict]
    exact h

/-- A new task as it arrives: unassigned and without a node of its own. -/
structure Arrives (nodes : List Node) (t : Task) : Prop where
  assignment : t.assignment = none
  nodeName : t.nodeName = none
  requested : Requestable nodes t.requested

theorem keeps_handleNewTask {t : Task} (h : Arrives nodes t) :
    Keeps (fun s => Accounted nodes s.1) (handleNewTask t : Run σ (Option Nat)) := by
  unfold handleNewTask
  rw [h.nodeName]
  refine keeps_simulator.bind fun self => Keeps.bind ?_ fun _ => keeps_pure
  exact keeps_modifySimulator fun _ hsim => Accounted.append hsim h.assignment h.requested

theorem keeps_scheduleTask {algorithm : Algorithm σ} {i : Nat} :
    Keeps (fun s => Accounted nodes s.1) (scheduleTask algorithm i) := by
  refine keeps_task.bind fun t => keeps_callScheduler.bind fun node => ?_
  cases node with
  | none => exact keeps_pure
  | some node => exact keeps_performAssignment

theorem invariant_accounted (algorithm : Algorithm σ) :
    Invariant algorithm (Arrives nodes) (Accounted nodes) where
  handleNewTask := fun _ h => keeps_handleNewTask h
  scheduleTask := fun _ => keeps_scheduleTask
  unassign := fun _ => keeps_simulator.bind fun _ => keeps_liftM.bind fun i =>
    keeps_modifySimulator fun _ hsim => Accounted.unassign hsim i
  updateTasksLife := fun _ hsim => hsim.updateTasksLife

/-- A new simulator without tasks and without rough assignments. -/
def strictStart (nodes : List Node) (retryScheduling : Bool) (a : σ) : ClusterSimulator × σ :=
  (.create [] nodes false retryScheduling, a)

theorem Reaches.accounted {algorithm : Algorithm σ} {retryScheduling : Bool} {a : σ}
    {s : ClusterSimulator × σ}
    (h : Reaches algorithm (Arrives nodes) (strictStart nodes retryScheduling a) s) :
    Accounted nodes s.1 :=
  (invariant_accounted algorithm).reaches h
    ⟨rfl, rfl, fun _ ht => (nomatch ht), fun _ _ => committed_nil⟩

end ClusterSimulator

namespace Node

/-- What the tasks on the node request in a dimension. -/
def requestedSum (self : Node) (tasks : List Task) (d : ResourceType) : ℚ :=
  ((self.onNode tasks).map fun t => t.requested.amount d).sum

variable {self : Node} {ratio : ℚ} {tasks : List Task}

theorem load_of_ne {d : ResourceType} (hr : d ≠ MEMBW_READ) (hw : d ≠ MEMBW_WRITE) :
    self.load ratio tasks d = self.requestedSum tasks d :=
  congrArg List.sum (List.map_congr_left fun _ _ => demand_of_ne hr hw)

theorem load_read (h : ∀ t ∈ self.onNode tasks, t.requested.HasMembw) :
    self.load ratio tasks MEMBW_READ =
      self.requestedSum tasks MEMBW_READ + ratio * self.requestedSum tasks MEMBW_WRITE := by
  unfold load requestedSum
  rw [← List.sum_map_mul_left, ← List.sum_map_add]
  refine congrArg List.sum (List.map_congr_left fun t ht => ?_)
  rw [demand_read (h t ht), mul_comm]

theorem load_write (h : ∀ t ∈ self.onNode tasks, t.requested.HasMembw) :
    self.load ratio tasks MEMBW_WRITE =
      self.requestedSum tasks MEMBW_WRITE + self.requestedSum tasks MEMBW_READ / ratio := by
  unfold load requestedSum
  rw [div_eq_mul_inv, ← List.sum_map_mul_right, ← List.sum_map_add]
  refine congrArg List.sum (List.map_congr_left fun t ht => ?_)
  rw [demand_write (h t ht), div_eq_mul_inv]

theorem requestedSum_of_none {d : ResourceType} (h : ¬∃ t ∈ tasks, t.assignment = some self) :
    self.requestedSum tasks d = 0 := by
  have hon : self.onNode tasks = [] :=
    List.filter_eq_nil_iff.mpr fun t ht ha => h ⟨t, ht, of_decide_eq_true ha⟩
  rw [requestedSum, hon]
  rfl

end Node

namespace ClusterSimulator

variable {σ : Type} {nodes : List Node}

/-- Whatever the algorithm answers, the tasks on a node never request more than it has, up to the
tolerance. A node that lacks even that on its own is within no bound until it gets a task. -/
theorem not_overcommitted {algorithm : Algorithm σ} {retryScheduling : Bool} {a : σ}
    {s : ClusterSimulator × σ}
    (h : Reaches algorithm (Arrives nodes) (strictStart nodes retryScheduling a) s)
    (hpos : ∀ node ∈ nodes, node.PositiveMembw) {node : Node} (hnode : node ∈ s.1.nodes) :
    (∀ d ∈ node.initial, d ≠ MEMBW_READ → d ≠ MEMBW_WRITE →
      ((∃ t ∈ s.1.tasks, t.assignment = some node) ∨ -(1 / 10000) < node.initial.amount d) →
      node.requestedSum s.1.tasks d < node.initial.amount d + 1 / 10000) ∧
    (node.initial.HasMembw → ∀ ratio,
      ratio = node.initial.amount MEMBW_READ / node.initial.amount MEMBW_WRITE →
      node.requestedSum s.1.tasks MEMBW_READ + ratio * node.requestedSum s.1.tasks MEMBW_WRITE <
          node.initial.amount MEMBW_READ + 1 / 10000 ∧
        node.requestedSum s.1.tasks MEMBW_WRITE + node.requestedSum s.1.tasks MEMBW_READ / ratio <
          node.initial.amount MEMBW_WRITE + 1 / 10000) := by
  have hsim := h.accounted
  have hmem : node ∈ nodes := hsim.nodes_eq ▸ hnode
  obtain ⟨ratio, hratio⟩ := (hpos node hmem).exists_ratio
  have hbound := hsim.committed node (hpos node hmem) ratio hratio
  by_cases hex : ∃ t ∈ s.1.tasks, t.assignment = some node
  · refine ⟨fun d hd hr hw _ => ?_, fun hboth ratio' hratio' => ?_⟩
    · have hload : node.load ratio s.1.tasks d = node.requestedSum s.1.tasks d :=
        Node.load_of_ne hr hw
      exact hload ▸ hbound hex d hd
    · have hmembw : ∀ t ∈ node.onNode s.1.tasks, t.requested.HasMembw := fun t ht =>
        ((hsim.requests t (Node.mem_onNode.mp ht).1).keys node hmem).hasMembw.mp hboth
      rw [hratio', ← ((Node.getMembwReadWriteRatio_ok_iff.mp hratio).1 hboth).2,
        ← Node.load_read hmembw, ← Node.load_write hmembw]
      exact ⟨hbound hex _ hboth.1, hbound hex _ hboth.2⟩
  · have hzero : ∀ d, node.requestedSum s.1.tasks d = 0 := fun d => Node.requestedSum_of_none hex
    simp only [hzero, hex, false_or, mul_zero, zero_div, add_zero]
    refine ⟨fun d _ _ _ hd => by linarith, fun hboth ratio' _ => ?_⟩
    have := hpos node hmem hboth
    constructor
    · linarith
    · linarith

/-- One task of the small cluster is assigned, and the node keeps within its bounds. -/
theorem not_overcommitted_small : ∃ s : ClusterSimulator × Unit,
    Reaches SmallCluster.anyNode (Arrives [SmallCluster.node])
        (strictStart [SmallCluster.node] false ()) s ∧
      SmallCluster.node.requestedSum s.1.tasks CPU = 2 ∧
      SmallCluster.node.requestedSum s.1.tasks CPU < SmallCluster.node.initial.amount CPU + 1 / 10000 ∧
      SmallCluster.node.requestedSum s.1.tasks MEMBW_READ +
          2 * SmallCluster.node.requestedSum s.1.tasks MEMBW_WRITE <
        SmallCluster.node.initial.amount MEMBW_READ + 1 / 10000 := by
  have hrun : returnsSuch (fun n s => n = 1 ∧ s.1.nodes = [SmallCluster.node] ∧
        SmallCluster.node.requestedSum s.1.tasks CPU = 2 ∧
        s.1.tasks.any (·.assignment = some SmallCluster.node))
      ((iterate SmallCluster.anyNode [SmallCluster.task]).run
        (strictStart [SmallCluster.node] false ())) = true := by
    decide +kernel
  obtain ⟨n, s, hs, h⟩ := exists_of_returnsSuch hrun
  simp only [Bool.decide_and, Bool.and_eq_true, decide_eq_true_eq, List.any_eq_true] at h
  obtain ⟨-, hnodes, hsum, hon⟩ := h
  have harrives : ∀ t ∈ [SmallCluster.task], Arrives [SmallCluster.node] t := by
    intro t ht
    cases List.mem_singleton.mp ht
    exact ⟨rfl, rfl, by unfold NonNeg; decide +kernel, by decide +kernel⟩
  have hreaches := Reaches.returns Reaches.start harrives hs
  have hpos : ∀ node ∈ [SmallCluster.node], node.PositiveMembw := by
    unfold Node.PositiveMembw
    decide +kernel
  obtain ⟨hdims, hmembw⟩ := not_overcommitted hreaches hpos (hnodes ▸ List.mem_singleton_self _)
  exact ⟨s, hreaches, hsum, hdims CPU (by decide) (by decide) (by decide) (.inl hon),
    (hmembw (by decide) 2 (by decide +kernel)).1⟩

/-- A node with less than nothing to give. -/
theorem overcommitted_debtor : ∃ (node : Node) (s : ClusterSimulator × Unit),
    Reaches SmallCluster.anyNode (Arrives [node]) (strictStart [node] false ()) s ∧ node ∈ s.1.nodes ∧ node.PositiveMembw ∧
      CPU ∈ node.initial ∧
      ¬node.requestedSum s.1.tasks CPU < node.initial.amount CPU + 1 / 10000 := by
  refine ⟨⟨"node_0", .ofItems [(CPU, -1), (MEM, 8)]⟩, _, Reaches.start, List.mem_singleton_self _,
    ?_, by decide, by decide +kernel⟩
  unfold Node.PositiveMembw
  decide +kernel

end ClusterSimulator

end Wca.Scheduler
