import Wca.Scheduler.ClusterSimulator

/-!
# The end of a task's life

A task that outlives its duration is unassigned. It stays so in every run in which no iteration
tries the unassigned tasks again while such a task is among them (`neverAssignedAgain`): an
iteration that does picks it, as it does not tell why a task is unassigned.
-/

namespace Wca.Scheduler

open Py ClusterSimulator

/-- It was assigned for longer than its duration. -/
def Task.Finished (t : Task) : Prop := 0 < t.lifeTime ∧ ∃ d, t.duration = some d ∧ d < t.lifeTime

/-- At the end of its life a task is unassigned, and at no other moment does it become finished. -/
theorem Task.update_finished_iff {t : Task} (h0 : 0 ≤ t.lifeTime) (h : ¬ t.Finished) :
    t.update.Finished ↔ t.assignment ≠ none ∧ t.update.assignment = none := by
  unfold Task.update
  cases ha : t.assignment with
  | none =>
    rw [Option.isSome_none, if_neg Bool.false_ne_true]
    exact ⟨fun hf => absurd hf h, fun hne => absurd rfl hne.1⟩
  | some node =>
    rw [Option.isSome_some, if_pos rfl]
    dsimp only
    split
    · case isTrue hd =>
      obtain ⟨d, hd, hlt⟩ := Option.any_eq_true _ _ |>.mp hd
      exact ⟨fun _ => ⟨Option.some_ne_none node, rfl⟩,
        fun _ => ⟨Int.lt_add_one_of_le h0, d, hd, of_decide_eq_true hlt⟩⟩
    · case isFalse hd =>
      constructor
      · rintro ⟨-, d, hdur, hlt⟩
        exact absurd (Option.any_eq_true _ _ |>.mpr ⟨d, hdur, decide_eq_true hlt⟩) hd
      · rintro ⟨-, hnone⟩
        exact absurd hnone (Option.some_ne_none node)

theorem Task.update_of_unassigned {t : Task} (h : t.assignment = none) : t.update = t := by
  rw [Task.update, h, Option.isSome_none, if_neg Bool.false_ne_true]

/-- After an update a finished task is unassigned. -/
theorem Task.update_assignment_of_finished {t : Task} (h : t.update.Finished) :
    t.update.assignment = none := by
  unfold Task.update at h ⊢
  cases ha : t.assignment with
  | none =>
    rw [Option.isSome_none, if_neg Bool.false_ne_true]
    exact ha
  | some node =>
    rw [ha, Option.isSome_some, if_pos rfl] at h
    rw [Option.isSome_some, if_pos rfl]
    dsimp only at h ⊢
    split
    · rfl
    · case isFalse hd =>
      rw [if_neg hd] at h
      obtain ⟨-, d, hdur, hlt⟩ := h
      exact absurd (Option.any_eq_true _ _ |>.mpr ⟨d, hdur, decide_eq_true hlt⟩) hd

namespace ClusterSimulator

variable {σ : Type} {algorithm : Algorithm σ}

/-! ## Parts of an iteration -/

theorem getElem?_setTask {sim : ClusterSimulator} {i j : ℕ} {f : Task → Task} :
    (sim.setTask j f).tasks[i]? = (sim.tasks[i]?).map fun t => if j = i then f t else t := by
  rw [setTask, List.getElem?_modify]
  rfl

section Keeps

variable {I : ClusterSimulator → Prop}

/-- Scheduling changes the assignment of its task and counts it. -/
theorem keeps_scheduleTask_of {j : ℕ}
    (hassign : ∀ sim node, I sim → I (sim.setTask j fun t => { t with assignment := some node }))
    (hcount : ∀ sim d, I sim → I { sim with roughAssignmentsPerNode := d }) :
    Keeps (fun s => I s.1) (scheduleTask algorithm j) := by
  refine keeps_task.bind fun t => keeps_callScheduler.bind fun node => ?_
  cases node with
  | none => exact keeps_pure
  | some node =>
    refine keeps_simulator.bind fun self => keeps_task.bind fun t => keeps_liftM.bind fun fits => ?_
    refine Keeps.ite ?_ keeps_pure
    refine (keeps_modifySimulator fun sim hsim => hassign sim node hsim).bind fun _ => ?_
    refine Keeps.bind (Keeps.doIf ?_) fun _ => keeps_pure
    exact keeps_liftM.bind fun rough => keeps_modifySimulator fun sim hsim => hcount sim _ hsim

theorem keeps_unassign_of {taskName : TaskName}
    (h : ∀ sim i, I sim → I (sim.setTask i fun t => { t with assignment := none })) :
    Keeps (fun s => I s.1) (unassign taskName : Run σ PUnit) :=
  keeps_simulator.bind fun _ => keeps_liftM.bind fun i => keeps_modifySimulator fun sim hsim => h sim i hsim

theorem keeps_scheduleTasks_of {l : List ℕ}
    (h : ∀ j ∈ l, Keeps (fun s => I s.1) (scheduleTask algorithm j)) :
    Keeps (fun s => I s.1) (scheduleTasks algorithm l) := by
  induction l with
  | nil => exact keeps_pure
  | cons j l ih =>
    exact (h j List.mem_cons_self).bind fun _ =>
      (ih fun k hk => h k (List.mem_cons_of_mem j hk)).bind fun _ => keeps_pure

theorem keeps_assignOrReschedule_of {newTasks : List Task} {l : List ℕ}
    (h : ∀ j ∈ l, Keeps (fun s => I s.1) (scheduleTask algorithm j))
    (hunassign : ∀ sim i, I sim → I (sim.setTask i fun t => { t with assignment := none })) :
    Keeps (fun s => I s.1) (assignOrReschedule algorithm newTasks l) := by
  refine Keeps.ite (keeps_scheduleTasks_of h) (Keeps.bind (Keeps.doIf ?_) fun _ => keeps_pure)
  exact keeps_simulator.bind fun _ => keeps_ask.bind fun _ =>
    keeps_forM fun name _ => keeps_unassign_of hunassign

end Keeps

/-! ### New tasks -/

/-- New tasks, as they are made, come after those there are. -/
structure Extends (sim sim' : ClusterSimulator) : Prop where
  tasks : ∃ added, sim'.tasks = sim.tasks ++ added ∧ ∀ t ∈ added, t.lifeTime = 0
  retryScheduling : sim'.retryScheduling = sim.retryScheduling

theorem Extends.refl (sim : ClusterSimulator) : Extends sim sim :=
  ⟨⟨[], (List.append_nil _).symm, fun _ ht => absurd ht List.not_mem_nil⟩, rfl⟩

theorem Extends.trans {sim₁ sim₂ sim₃ : ClusterSimulator} (h₁ : Extends sim₁ sim₂)
    (h₂ : Extends sim₂ sim₃) : Extends sim₁ sim₃ := by
  obtain ⟨added₁, htasks₁, hnew₁⟩ := h₁.tasks
  obtain ⟨added₂, htasks₂, hnew₂⟩ := h₂.tasks
  refine ⟨⟨added₁ ++ added₂, ?_, ?_⟩, h₂.retryScheduling.trans h₁.retryScheduling⟩
  · rw [htasks₂, htasks₁, List.append_assoc]
  · exact fun t ht => (List.mem_append.mp ht).elim (hnew₁ t) (hnew₂ t)

theorem Extends.getElem? {sim sim' : ClusterSimulator} (h : Extends sim sim') {i : ℕ} {t : Task}
    (ht : sim.tasks[i]? = some t) : sim'.tasks[i]? = some t := by
  obtain ⟨added, htasks, -⟩ := h.tasks
  obtain ⟨hlt, -⟩ := List.getElem?_eq_some_iff.mp ht
  rw [htasks, List.getElem?_append_left hlt, ht]

theorem Extends.length_le {sim sim' : ClusterSimulator} (h : Extends sim sim') :
    sim.tasks.length ≤ sim'.tasks.length := by
  obtain ⟨added, htasks, -⟩ := h.tasks
  rw [htasks, List.length_append]
  exact Nat.le_add_right _ _

/-- A task that was not there is not finished. -/
theorem Extends.not_finished {sim sim' : ClusterSimulator} (h : Extends sim sim') {i : ℕ} {t : Task}
    (hi : sim.tasks.length ≤ i) (ht : sim'.tasks[i]? = some t) : ¬ t.Finished := by
  obtain ⟨added, htasks, hnew⟩ := h.tasks
  rw [htasks, List.getElem?_append_right hi] at ht
  intro hfinished
  have hzero := hnew t (List.mem_of_getElem? ht)
  exact absurd hfinished.1 (by rw [hzero]; exact lt_irrefl 0)

theorem modify_append_length {α : Type} (l : List α) (a : α) (f : α → α) :
    (l ++ [a]).modify l.length f = l ++ [f a] := by
  induction l with
  | nil => rfl
  | cons b l ih => rw [List.cons_append, List.length_cons, List.modify_succ_cons, ih, List.cons_append]

theorem wp_handleNewTask {t : Task} (h0 : t.lifeTime = 0) (s : ClusterSimulator × σ) :
    wp (handleNewTask t : Run σ (Option ℕ)) (fun i s' => Extends s.1 s'.1 ∧
        (∀ j, i = some j → s.1.tasks.length ≤ j) ∧ (t.nodeName = none ↔ i ≠ none))
      (fun _ s' => Extends s.1 s'.1) s := by
  have happend : Extends s.1 { s.1 with tasks := s.1.tasks ++ [t] } :=
    ⟨⟨[t], rfl, fun t' ht' => by rw [List.mem_singleton.mp ht', h0]⟩, rfl⟩
  unfold handleNewTask simulator modifySimulator
  simp only [wp_bind, wp_get, wp_pure, wp_modify]
  cases hname : t.nodeName with
  | none =>
    exact ⟨happend, fun j hj => (Option.some.inj hj).le, fun _ => Option.some_ne_none _, fun _ => rfl⟩
  | some nodeName =>
    simp only [wp_bind]
    refine wp_liftExcept.mpr ⟨fun node _ => ?_, fun _ _ => happend⟩
    refine ⟨⟨⟨[{ t with assignment := some node, nodeName := none }], ?_, ?_⟩, rfl⟩, ?_, ?_⟩
    · exact modify_append_length s.1.tasks t _
    · intro t' ht'
      rw [List.mem_singleton.mp ht']
      exact h0
    · exact fun j hj => absurd hj.symm (Option.some_ne_none j)
    · exact ⟨fun hnone => absurd hnone (Option.some_ne_none nodeName), fun hne => absurd rfl hne⟩

/-- Where the new tasks are. -/
theorem wp_handleNew {newTasks : List Task} (h0 : ∀ t ∈ newTasks, t.lifeTime = 0)
    (s : ClusterSimulator × σ) :
    wp (handleNew newTasks : Run σ (List ℕ)) (fun new s' => Extends s.1 s'.1 ∧
        (∀ j ∈ new, s.1.tasks.length ≤ j) ∧ ((∃ t ∈ newTasks, t.nodeName = none) ↔ new ≠ []))
      (fun _ s' => Extends s.1 s'.1) s := by
  induction newTasks generalizing s with
  | nil =>
    refine ⟨.refl _, fun j hj => absurd hj List.not_mem_nil, ?_, fun hne => absurd rfl hne⟩
    rintro ⟨t, ht, -⟩
    exact absurd ht List.not_mem_nil
  | cons t newTasks ih =>
    obtain ⟨ht, hrest⟩ := List.forall_mem_cons.mp h0
    unfold handleNew
    rw [wp_bind]
    refine (wp_handleNewTask ht s).mono ?_ fun _ _ h => h
    rintro i s₁ ⟨hext₁, hi, hsome⟩
    rw [wp_bind]
    refine (ih hrest s₁).mono ?_ fun _ _ h => hext₁.trans h
    rintro new s₂ ⟨hext₂, hnew, hne⟩
    refine ⟨hext₁.trans hext₂, fun j hj => ?_, ?_, fun happend => ?_⟩
    · rcases List.mem_append.mp hj with hj | hj
      · exact hi j (Option.mem_toList.mp hj)
      · exact hext₁.length_le.trans (hnew j hj)
    · rintro ⟨t', ht', hnone⟩
      rcases List.mem_cons.mp ht' with rfl | ht'
      · obtain ⟨j, hj⟩ := Option.ne_none_iff_exists'.mp (hsome.mp hnone)
        rw [hj]
        exact List.cons_ne_nil _ _
      · exact List.append_ne_nil_of_right_ne_nil _ (hne.mp ⟨t', ht', hnone⟩)
    · cases i with
      | none =>
        obtain ⟨t', ht', hnone⟩ := hne.mpr happend
        exact ⟨t', List.mem_cons_of_mem t ht', hnone⟩
      | some j => exact ⟨t, List.mem_cons_self, hsome.mpr (Option.some_ne_none j)⟩

/-! ## Runs -/

/-- The states that calls of `iterate` lead to, each with new tasks that are allowed in its state. -/
inductive Runs (algorithm : Algorithm σ) (allowed : ClusterSimulator → List Task → Prop)
    (start : ClusterSimulator × σ) : ClusterSimulator × σ → Prop
  | start : Runs algorithm allowed start start
  | returns {s s' newTasks n} : Runs algorithm allowed start s → allowed s.1 newTasks →
      (iterate algorithm newTasks).run s = .ok n s' → Runs algorithm allowed start s'
  | raises {s s' newTasks e} : Runs algorithm allowed start s → allowed s.1 newTasks →
      (iterate algorithm newTasks).run s = .error e s' → Runs algorithm allowed start s'

/-- The tasks are as they are made. -/
def Fresh (newTasks : List Task) : Prop := ∀ t ∈ newTasks, t.lifeTime = 0

/-- If unassigned tasks are tried again at all, there is a new one to be assigned, or none of those
there are is finished. -/
def Spares (sim : ClusterSimulator) (newTasks : List Task) : Prop :=
  sim.retryScheduling = true →
    (∃ t ∈ newTasks, t.nodeName = none) ∨ ∀ t ∈ sim.tasks, ¬ t.Finished

/-- In an iteration, the turn of the task at a position comes and leaves it with a node. -/
def AssignedIn (algorithm : Algorithm σ) (newTasks : List Task) (s : ClusterSimulator × σ)
    (i : ℕ) : Prop :=
  ∃ new s₁ pre post n s₂ s₃ t, (handleNew newTasks).run s = .ok new s₁ ∧
    s₁.1.unassignedTasks new = pre ++ i :: post ∧ (scheduleTasks algorithm pre).run s₁ = .ok n s₂ ∧
    ((∃ assigned, (scheduleTask algorithm i).run s₂ = .ok assigned s₃) ∨
      ∃ e, (scheduleTask algorithm i).run s₂ = .error e s₃) ∧
    s₃.1.tasks[i]? = some t ∧ t.assignment ≠ none

/-- In every run, a task that is finished is unassigned, stays as it is, and is not assigned. -/
def NeverAssignedAgain (algorithm : Algorithm σ) (allowed : ClusterSimulator → List Task → Prop)
    (start : ClusterSimulator × σ) : Prop :=
  ∀ s s' i t, Runs algorithm allowed start s → s.1.tasks[i]? = some t → t.Finished →
    Runs algorithm allowed s s' →
    t.assignment = none ∧ s'.1.tasks[i]? = some t ∧
      ∀ newTasks, allowed s'.1 newTasks → ¬ AssignedIn algorithm newTasks s' i

section Runs

variable {newTasks : List Task} {s s₁ : ClusterSimulator × σ} {new : List ℕ}

/-- No finished task is among those that an iteration tries to assign. -/
theorem not_finished_of_tried (hspares : Spares s.1 newTasks) (hext : Extends s.1 s₁.1)
    (hnew : ∀ j ∈ new, s.1.tasks.length ≤ j)
    (hne : (∃ t ∈ newTasks, t.nodeName = none) ↔ new ≠ []) {i : ℕ}
    (hi : i ∈ s₁.1.unassignedTasks new) {t : Task} (ht : s₁.1.tasks[i]? = some t) : ¬ t.Finished := by
  unfold unassignedTasks at hi
  split at hi
  · case isTrue hretry =>
    obtain ⟨hnil, hretry⟩ := hretry
    rcases hspares (hext.retryScheduling ▸ hretry) with hsome | hall
    · exact absurd hnil (hne.mp hsome)
    · rcases lt_or_ge i s.1.tasks.length with hlt | hge
      · have hold := hext.getElem? (List.getElem?_eq_getElem hlt)
        rw [ht] at hold
        rw [Option.some.inj hold]
        exact hall _ (List.getElem_mem hlt)
      · exact hext.not_finished hge ht
  · exact hext.not_finished (hnew i hi) ht

/-- A finished task is not assigned in an iteration that spares it. -/
theorem not_assignedIn (hfresh : Fresh newTasks) (hspares : Spares s.1 newTasks) {i : ℕ} {t : Task}
    (ht : s.1.tasks[i]? = some t) (hfinished : t.Finished) : ¬ AssignedIn algorithm newTasks s i := by
  rintro ⟨new, s₁, pre, post, n, s₂, s₃, t', hhandle, htried, -⟩
  obtain ⟨hext, hnew, hne⟩ := (wp_handleNew hfresh s).ok hhandle
  have hi : i ∈ s₁.1.unassignedTasks new := htried ▸ List.mem_append_right _ List.mem_cons_self
  exact not_finished_of_tried hspares hext hnew hne hi (hext.getElem? ht) hfinished

/-- What an iteration keeps: it holds after the new tasks are taken in, scheduling an unfinished
task keeps it, and so do unassigning and the end of the iteration. -/
theorem wp_iterate_of {I : ClusterSimulator → Prop} (hfresh : Fresh newTasks)
    (hspares : Spares s.1 newTasks) (hhandle : ∀ sim, Extends s.1 sim → I sim)
    (hassign : ∀ sim j node, (∀ t, sim.tasks[j]? = some t → ¬ t.Finished) → I sim →
      I (sim.setTask j fun t => { t with assignment := some node }))
    (hcount : ∀ sim d, I sim → I { sim with roughAssignmentsPerNode := d })
    (hunassign : ∀ sim j, I sim → I (sim.setTask j fun t => { t with assignment := none }))
    (hupdate : ∀ sim, I sim → I sim.updateTasksLife) :
    wp (iterate algorithm newTasks) (fun _ s' => I s'.1) (fun _ s' => I s'.1) s := by
  unfold iterate
  rw [wp_bind]
  refine (wp_handleNew hfresh s).mono ?_ fun _ s' hext => hhandle s'.1 hext
  rintro new s₁ ⟨hext, hnew, hne⟩
  rw [wp_bind, simulator, wp_bind, wp_get, wp_pure, wp_bind]
  -- beside the invariant, the tasks that are tried stay unfinished
  have hkeeps : Keeps (fun s => I s.1 ∧ ∀ j ∈ s₁.1.unassignedTasks new, ∀ t,
      s.1.tasks[j]? = some t → ¬ t.Finished)
      (assignOrReschedule algorithm newTasks (s₁.1.unassignedTasks new)) := by
    have hset : ∀ (sim : ClusterSimulator) (k : ℕ) (a : Option Node),
        (∀ j ∈ s₁.1.unassignedTasks new, ∀ t, sim.tasks[j]? = some t → ¬ t.Finished) →
        ∀ j ∈ s₁.1.unassignedTasks new, ∀ t,
          (sim.setTask k fun t => { t with assignment := a }).tasks[j]? = some t → ¬ t.Finished := by
      intro sim k a hall j hj t ht
      rw [getElem?_setTask] at ht
      obtain ⟨t', ht', rfl⟩ := Option.map_eq_some_iff.mp ht
      have hnot := hall j hj t' ht'
      split
      · exact hnot
      · exact hnot
    apply @keeps_assignOrReschedule_of σ algorithm (fun sim => I sim ∧
      ∀ j ∈ s₁.1.unassignedTasks new, ∀ t, sim.tasks[j]? = some t → ¬ t.Finished)
    · intro j hj
      apply @keeps_scheduleTask_of σ algorithm (fun sim => I sim ∧
        ∀ j ∈ s₁.1.unassignedTasks new, ∀ t, sim.tasks[j]? = some t → ¬ t.Finished)
      · exact fun sim node h => ⟨hassign sim j node (h.2 j hj) h.1, hset sim j _ h.2⟩
      · exact fun sim d h => ⟨hcount sim d h.1, h.2⟩
    · exact fun sim j h => ⟨hunassign sim j h.1, hset sim j _ h.2⟩
  have hstart : I s₁.1 ∧ ∀ j ∈ s₁.1.unassignedTasks new, ∀ t,
      s₁.1.tasks[j]? = some t → ¬ t.Finished :=
    ⟨hhandle s₁.1 hext, fun j hj t ht => not_finished_of_tried hspares hext hnew hne hj ht⟩
  refine (hkeeps s₁ hstart).mono ?_ fun _ s' h => h.1
  rintro n s₂ ⟨hI, -⟩
  exact hupdate s₂.1 hI

/-- The record of a finished task does not change. -/
theorem iterate_keeps_finished (hfresh : Fresh newTasks) (hspares : Spares s.1 newTasks) {i : ℕ}
    {t : Task} (ht : s.1.tasks[i]? = some t) (hfinished : t.Finished) (hnone : t.assignment = none) :
    wp (iterate algorithm newTasks) (fun _ s' => s'.1.tasks[i]? = some t)
      (fun _ s' => s'.1.tasks[i]? = some t) s := by
  apply @wp_iterate_of σ algorithm newTasks s (fun sim => sim.tasks[i]? = some t) hfresh hspares
  · exact fun sim hext => hext.getElem? ht
  · intro sim j node hnot h
    rw [getElem?_setTask, h, Option.map_some, if_neg]
    rintro rfl
    exact hnot t h hfinished
  · exact fun sim d h => h
  · intro sim j h
    rw [getElem?_setTask, h, Option.map_some]
    split
    · rw [← hnone]
    · rfl
  · intro sim h
    rw [updateTasksLife, List.getElem?_map, h, Option.map_some, Task.update_of_unassigned hnone]

/-- The finished tasks are unassigned. -/
def Settled (sim : ClusterSimulator) : Prop :=
  ∀ (i : ℕ) (t : Task), sim.tasks[i]? = some t → t.Finished → t.assignment = none

theorem iterate_keeps_settled (hfresh : Fresh newTasks) (hspares : Spares s.1 newTasks)
    (h : Settled s.1) :
    wp (iterate algorithm newTasks) (fun _ s' => Settled s'.1) (fun _ s' => Settled s'.1) s := by
  apply @wp_iterate_of σ algorithm newTasks s Settled hfresh hspares
  · intro sim hext i t ht hfinished
    rcases lt_or_ge i s.1.tasks.length with hlt | hge
    · have hold := hext.getElem? (List.getElem?_eq_getElem hlt)
      rw [ht] at hold
      exact h i t (by rw [List.getElem?_eq_getElem hlt, Option.some.inj hold]) hfinished
    · exact absurd hfinished (hext.not_finished hge ht)
  · intro sim j node hnot hsim i t ht hfinished
    rw [getElem?_setTask] at ht
    obtain ⟨t', ht', rfl⟩ := Option.map_eq_some_iff.mp ht
    split at hfinished
    · case isTrue hj =>
      subst hj
      exact absurd hfinished (hnot t' ht')
    · case isFalse hj =>
      rw [if_neg hj]
      exact hsim i t' ht' hfinished
  · exact fun sim d hsim => hsim
  · intro sim j hsim i t ht hfinished
    rw [getElem?_setTask] at ht
    obtain ⟨t', ht', rfl⟩ := Option.map_eq_some_iff.mp ht
    split at hfinished
    · case isTrue hj => rw [if_pos hj]
    · case isFalse hj =>
      rw [if_neg hj]
      exact hsim i t' ht' hfinished
  · intro sim _ i t ht hfinished
    rw [updateTasksLife, List.getElem?_map] at ht
    obtain ⟨t', -, rfl⟩ := Option.map_eq_some_iff.mp ht
    exact Task.update_assignment_of_finished hfinished

end Runs

/-- In every run whose iterations spare the finished tasks, none of them is assigned again. -/
theorem neverAssignedAgain {start : ClusterSimulator × σ} (hstart : Fresh start.1.tasks) :
    NeverAssignedAgain algorithm (fun sim newTasks => Fresh newTasks ∧ Spares sim newTasks) start := by
  intro s s' i t hrun ht hfinished hlater
  have hsettled : Settled s.1 := by
    clear ht hlater
    induction hrun with
    | start =>
      intro i t ht hfinished
      have hzero := hstart t (List.mem_of_getElem? ht)
      exact absurd hfinished.1 (by rw [hzero]; exact lt_irrefl 0)
    | returns _ hallowed hiterate ih => exact (iterate_keeps_settled hallowed.1 hallowed.2 ih).ok hiterate
    | raises _ hallowed hiterate ih =>
      exact (iterate_keeps_settled hallowed.1 hallowed.2 ih).error hiterate
  have hnone := hsettled i t ht hfinished
  have hsame : s'.1.tasks[i]? = some t := by
    induction hlater with
    | start => exact ht
    | returns _ hallowed hiterate ih =>
      exact (iterate_keeps_finished hallowed.1 hallowed.2 ih hfinished hnone).ok hiterate
    | raises _ hallowed hiterate ih =>
      exact (iterate_keeps_finished hallowed.1 hallowed.2 ih hfinished hnone).error hiterate
  exact ⟨hnone, hsame, fun newTasks hallowed =>
    not_assignedIn hallowed.1 hallowed.2 hsame hfinished⟩

/-! ### One task on a small cluster -/

/-- The task ends its life in the iteration in which it comes. -/
def shortTask : Task := { SmallCluster.task with duration := some 0 }

def smallStart (retryScheduling : Bool) : ClusterSimulator × Unit :=
  (.create [] [SmallCluster.node] true retryScheduling, ())

/-- The cluster after that iteration. -/
def smallEnd (retryScheduling : Bool) : ClusterSimulator × Unit :=
  ({ (smallStart retryScheduling).1 with tasks := [{ shortTask with lifeTime := 1 }] }, ())

theorem iterate_shortTask (retryScheduling : Bool) :
    ∃ n, (iterate SmallCluster.anyNode [shortTask]).run (smallStart retryScheduling) =
      .ok n (smallEnd retryScheduling) := by
  have hrun : ∀ retryScheduling, returnsSuch (fun _ s => s.1 = (smallEnd retryScheduling).1)
      ((iterate SmallCluster.anyNode [shortTask]).run (smallStart retryScheduling)) = true := by
    decide +kernel
  obtain ⟨n, s, hs, hend⟩ := exists_of_returnsSuch (hrun retryScheduling)
  have hsame : s = smallEnd retryScheduling := Prod.ext (of_decide_eq_true hend) rfl
  exact ⟨n, by rw [hs, hsame]⟩

theorem finished_shortTask : ({ shortTask with lifeTime := 1 } : Task).Finished :=
  ⟨Int.one_pos, 0, rfl, Int.one_pos⟩

/-- Without another try the task stays unassigned. -/
theorem neverAssignedAgain_small :
    ∃ s : ClusterSimulator × Unit, Runs SmallCluster.anyNode
        (fun sim newTasks => Fresh newTasks ∧ Spares sim newTasks) (smallStart false) s ∧
      s.1.tasks[0]? = some { shortTask with lifeTime := 1 } ∧
      ¬ AssignedIn SmallCluster.anyNode [] s 0 := by
  have hfresh : Fresh (smallStart false).1.tasks := fun t ht => absurd ht List.not_mem_nil
  obtain ⟨n, hn⟩ := iterate_shortTask false
  have hrun : Runs SmallCluster.anyNode (fun sim newTasks => Fresh newTasks ∧ Spares sim newTasks)
      (smallStart false) (smallEnd false) :=
    .returns .start ⟨fun t ht => by rw [List.mem_singleton.mp ht]; rfl,
      fun h => absurd h Bool.false_ne_true⟩ hn
  obtain ⟨-, -, hnot⟩ := neverAssignedAgain hfresh _ _ 0 _ hrun rfl finished_shortTask Runs.start
  exact ⟨_, hrun, rfl, hnot [] ⟨fun t ht => absurd ht List.not_mem_nil,
    fun h => absurd h Bool.false_ne_true⟩⟩

/-- With `retry_scheduling` the next iteration assigns the finished task again. -/
theorem assigns_finished :
    ¬ NeverAssignedAgain SmallCluster.anyNode (fun _ newTasks => Fresh newTasks) (smallStart true) := by
  intro h
  obtain ⟨n, hn⟩ := iterate_shortTask true
  have hrun : Runs SmallCluster.anyNode (fun _ newTasks => Fresh newTasks) (smallStart true)
      (smallEnd true) :=
    .returns .start (fun t ht => by rw [List.mem_singleton.mp ht]; rfl) hn
  obtain ⟨-, -, hnot⟩ := h _ _ 0 _ hrun rfl finished_shortTask Runs.start
  have hagain : returnsSuch (fun _ s => s.1.tasks[0]?.any fun t => t.assignment.isSome)
      ((scheduleTask SmallCluster.anyNode 0).run (smallEnd true)) = true := by
    decide +kernel
  obtain ⟨assigned, s, hs, hany⟩ := exists_of_returnsSuch hagain
  obtain ⟨t, ht, hsome⟩ := (Option.any_eq_true _ _).mp hany
  refine hnot [] (fun t ht => absurd ht List.not_mem_nil) ⟨[], smallEnd true, [], [], 0, smallEnd true,
    s, t, rfl, by decide +kernel, rfl, .inl ⟨assigned, hs⟩, ht, ?_⟩
  rw [← Option.isSome_iff_ne_none]
  exact hsome

end ClusterSimulator

end Wca.Scheduler
