import Wca.Runners.Allocation

/-!
# What the manager watches

`syncContainersState` is a function of the tasks it is given and of the containers it knows, apart
from the groups the containers are in: it cleans up the departed containers and keeps the others
(`Keeps`), makes the new ones (`Creates`) and replaces those whose subcgroups changed
(`Refreshes`). Across each of these the containers are accounted for (`Conserves`): one that was
made is either watched or was cleaned up, once.
-/

namespace Wca

open Py

namespace Container

/-- The paths of the subcgroups, in no order. -/
def subcgroupsPaths (self : Container) : Finset String :=
  (self.subcgroups.map Cgroup.cgroupPath).toFinset

/-- A container that has the name its cgroup gives it, on a platform. -/
structure IsNamed (container : Container) (platform : Platform) : Prop where
  name : container.name = sanitizeCgroupPath container.cgroupPath
  platform : container.platform = platform

/-- A container of the cgroup and the subcgroups that a task has. -/
structure MadeFor (container : Container) (task : Task) : Prop where
  cgroupPath : container.cgroupPath = task.cgroupPath
  subcgroupsPaths : container.subcgroupsPaths = task.subcgroupsPaths.toFinset

end Container

open Container

namespace ContainerManager

/-- The containers that are watched, as the objects they are. -/
def idents (self : ContainerManager) : List Nat := self.containers.values.map (·.2.ident)

/-- Every container is under the id and the cgroup path of its task, and no two tasks share one. -/
structure Watches (m : ContainerManager) : Prop where
  taskId : ∀ id task container, m.containers.get? id = some (task, container) → id = task.taskId
  cgroupPath : ∀ id task container, m.containers.get? id = some (task, container) →
    container.cgroupPath = task.cgroupPath
  nodup : (m.containers.values.map (·.1.cgroupPath)).Nodup

/-! ## Accounting for the containers -/

/-- The containers watched or cleaned up are those of before, and those made since. -/
structure Conserves (m m' : ContainerManager) : Prop where
  nextIdent_le : m.nextIdent ≤ m'.nextIdent
  cleanedUp : ∃ l, m'.cleanedUp = m.cleanedUp ++ l
  perm : (m'.cleanedUp ++ m'.idents).Perm
    (m.cleanedUp ++ m.idents ++ List.range' m.nextIdent (m'.nextIdent - m.nextIdent))

theorem Conserves.of_idents_eq {m m' : ContainerManager} (hidents : m'.idents = m.idents)
    (hcleaned : m'.cleanedUp = m.cleanedUp) (hnext : m'.nextIdent = m.nextIdent) :
    Conserves m m' := by
  refine ⟨hnext.ge, ⟨[], ?_⟩, ?_⟩
  · rw [hcleaned, List.append_nil]
  · rw [hidents, hcleaned, hnext, Nat.sub_self, List.range'_zero, List.append_nil]

theorem Conserves.refl (m : ContainerManager) : Conserves m m := .of_idents_eq rfl rfl rfl

theorem Conserves.trans {m₁ m₂ m₃ : ContainerManager} (h : Conserves m₁ m₂)
    (h' : Conserves m₂ m₃) : Conserves m₁ m₃ := by
  obtain ⟨l, hl⟩ := h.cleanedUp
  obtain ⟨l', hl'⟩ := h'.cleanedUp
  refine ⟨h.nextIdent_le.trans h'.nextIdent_le, ⟨l ++ l', ?_⟩, ?_⟩
  · rw [hl', hl, List.append_assoc]
  · have hrange : List.range' m₁.nextIdent (m₂.nextIdent - m₁.nextIdent) ++
        List.range' m₂.nextIdent (m₃.nextIdent - m₂.nextIdent) =
        List.range' m₁.nextIdent (m₃.nextIdent - m₁.nextIdent) := by
      have hstart : m₂.nextIdent = m₁.nextIdent + (m₂.nextIdent - m₁.nextIdent) := by
        have := h.nextIdent_le
        omega
      have hlen : m₂.nextIdent - m₁.nextIdent + (m₃.nextIdent - m₂.nextIdent) =
          m₃.nextIdent - m₁.nextIdent := by
        have := h.nextIdent_le
        have := h'.nextIdent_le
        omega
      rw [← hlen, ← List.range'_append_1, ← hstart]
    rw [← hrange, ← List.append_assoc]
    exact h'.perm.trans (h.perm.append_right _)

/-- From nothing, every container is watched or was cleaned up, and not both. -/
theorem Conserves.nodup {m m' : ContainerManager} (h : Conserves m m')
    (hinit : m.containers = ∅) (hcleaned : m.cleanedUp = []) :
    (m'.cleanedUp ++ m'.idents).Nodup ∧ ∀ i ∈ m'.cleanedUp ++ m'.idents, i < m'.nextIdent := by
  have hidents : m.idents = [] := by rw [idents, hinit]; rfl
  have hperm := h.perm
  rw [hidents, hcleaned, List.append_nil, List.nil_append] at hperm
  refine ⟨hperm.nodup_iff.mpr List.nodup_range', fun i hi => ?_⟩
  obtain ⟨-, hlt⟩ := List.mem_range'_1.mp (hperm.mem_iff.mp hi)
  have := h.nextIdent_le
  omega

/-- A container that is made is one more. -/
theorem Conserves.of_created {m : ContainerManager} {containers : Containers} {cleanedUp : List Nat}
    (h : (cleanedUp ++ containers.values.map (·.2.ident)).Perm
      (m.nextIdent :: (m.cleanedUp ++ m.idents))) (hcleaned : ∃ l, cleanedUp = m.cleanedUp ++ l) :
    Conserves m { m with containers, cleanedUp, nextIdent := m.nextIdent + 1 } := by
  refine ⟨Nat.le_succ _, hcleaned, ?_⟩
  rw [Nat.add_sub_cancel_left, List.range'_one]
  exact h.trans (List.perm_append_singleton _ _).symm

/-! ## Making the new containers -/

theorem subcgroupsPaths_ofItems {paths : List String} {newCgroup : String → Cgroup}
    (h : ∀ path, (newCgroup path).cgroupPath = path) :
    (((Dict.ofItems (paths.map fun path => (path, newCgroup path))).values.map
      Cgroup.cgroupPath).toFinset) = paths.toFinset := by
  have hitem : ∀ p ∈ paths.map fun path => (path, newCgroup path), p.2 = newCgroup p.1 := by
    intro p hp
    obtain ⟨path, -, rfl⟩ := List.mem_map.mp hp
    rfl
  refine Finset.ext fun path => ?_
  rw [List.mem_toFinset, List.mem_toFinset, List.mem_map]
  constructor
  · rintro ⟨cgroup, hcgroup, rfl⟩
    obtain ⟨k, hk⟩ := Dict.mem_values.mp hcgroup
    have hmem := Dict.mem_of_get?_ofItems (Dict.get?_eq_some_iff.mpr hk)
    obtain ⟨path, hpath, he⟩ := List.mem_map.mp hmem
    cases he
    rwa [h]
  · intro hpath
    have hkey : path ∈ (Dict.ofItems (paths.map fun path => (path, newCgroup path))).keys :=
      Dict.mem_keys_ofItems.mpr ⟨newCgroup path, List.mem_map_of_mem hpath⟩
    obtain ⟨cgroup, hcgroup⟩ := Dict.mem_keys.mp hkey
    refine ⟨cgroup, Dict.mem_values.mpr ⟨path, hcgroup⟩, ?_⟩
    have hmem := Dict.mem_of_get?_ofItems (Dict.get?_eq_some_iff.mpr hcgroup)
    exact (congrArg Cgroup.cgroupPath (hitem _ hmem)).trans (h path)

theorem createContainer_ok {task : Task} {n n' : Node} {container : Container}
    (h : (createContainer task).run n = .ok container n') :
    (container.MadeFor task ∧ container.IsNamed n.manager.platform) ∧
      container.ident = n.manager.nextIdent ∧
      n' = { n with manager := { n.manager with nextIdent := n.manager.nextIdent + 1 } } := by
  rw [createContainer, bind_ok_iff] at h
  obtain ⟨_, _, hget, h⟩ := h
  cases hget
  obtain ⟨_, _, hslash, h⟩ := bind_ok_iff.mp h
  obtain ⟨-, rfl⟩ := run_liftM_ok_iff.mp hslash
  obtain ⟨_, _, hslashes, h⟩ := bind_ok_iff.mp h
  obtain ⟨-, rfl⟩ := run_liftM_ok_iff.mp hslashes
  obtain ⟨_, _, hname, h⟩ := bind_ok_iff.mp h
  obtain ⟨-, rfl⟩ := run_liftM_ok_iff.mp hname
  obtain ⟨_, _, hnames, h⟩ := bind_ok_iff.mp h
  obtain ⟨-, rfl⟩ := run_liftM_ok_iff.mp hnames
  obtain ⟨_, _, hset, h⟩ := bind_ok_iff.mp h
  cases hset
  obtain ⟨_, _, hreset, h⟩ := bind_ok_iff.mp h
  obtain ⟨-, rfl⟩ := run_liftM_ok_iff.mp hreset
  cases h
  exact ⟨⟨⟨rfl, subcgroupsPaths_ofItems fun _ => rfl⟩, rfl, rfl⟩, rfl, rfl⟩

theorem createNewContainer_ok {task : Task} {n n' : Node}
    (h : (createNewContainer task).run n = .ok ⟨⟩ n') :
    ∃ container : Container, (container.MadeFor task ∧ container.IsNamed n.manager.platform) ∧
      container.ident = n.manager.nextIdent ∧ n' = { n with manager := { n.manager with
        containers := assign n.manager.containers task container
        nextIdent := n.manager.nextIdent + 1 } } := by
  obtain ⟨container, _, hcreate, h⟩ := bind_ok_iff.mp h
  obtain ⟨hmade, hident, rfl⟩ := createContainer_ok hcreate
  cases h
  exact ⟨container, hmade, hident, rfl⟩

/-- The new containers come after those that are there, each under the id of its task. -/
structure Creates (tasks : List Task) (m m' : ContainerManager) : Prop where
  items : ∃ l, m'.containers.items = m.containers.items ++ l ∧ l.map (·.2.1) = tasks ∧
    ∀ p ∈ l, p.1 = p.2.1.taskId ∧ p.2.2.MadeFor p.2.1 ∧ m.nextIdent ≤ p.2.2.ident
  conserves : Conserves m m'

theorem idents_set (m : ContainerManager) (id : TaskId) (task : Task) (container : Container) :
    ((m.containers.set id (task, container)).values.map (·.2.ident)).Perm
      (container.ident :: ((m.containers.erase id).values.map (·.2.ident))) := by
  rw [Dict.values, Dict.values, List.map_map, List.map_map]
  exact Dict.perm_items_set.map _

theorem createNewContainers_ok {tasks : List Task} {n n' : Node}
    (hids : (tasks.map Task.taskId).Nodup)
    (hnew : ∀ task ∈ tasks, task.taskId ∉ n.manager.containers.keys)
    (h : (forM tasks createNewContainer).run n = .ok ⟨⟩ n') :
    Creates tasks n.manager n'.manager := by
  induction tasks generalizing n with
  | nil =>
    cases h
    refine ⟨⟨[], (List.append_nil _).symm, rfl, ?_⟩, .refl _⟩
    exact fun p hp => absurd hp List.not_mem_nil
  | cons task tasks ih =>
    obtain ⟨t, hcreate, h⟩ := forM_cons_ok_iff.mp h
    obtain ⟨container, ⟨hmade, -⟩, hident, rfl⟩ := createNewContainer_ok hcreate
    rw [List.map_cons, List.nodup_cons] at hids
    have hkey := hnew task List.mem_cons_self
    have hset : (assign n.manager.containers task container).items =
        n.manager.containers.items ++ [(task.taskId, task, container)] := by
      rw [assign, Dict.get?_eq_none_iff.mpr hkey, Dict.items_set_of_not_mem hkey]
      rfl
    have hnew' : ∀ task' ∈ tasks,
        task'.taskId ∉ (assign n.manager.containers task container).keys := by
      intro task' htask' hmem
      obtain he | hmem := Dict.mem_keys_set.mp hmem
      · exact hids.1 (he ▸ List.mem_map_of_mem htask')
      · exact hnew task' (List.mem_cons_of_mem _ htask') hmem
    obtain ⟨⟨l, hl, htasks, hentry⟩, hconserves⟩ := ih hids.2 hnew' h
    refine ⟨⟨(task.taskId, task, container) :: l, ?_, ?_, ?_⟩, ?_⟩
    · rw [hl, hset, List.append_assoc, List.singleton_append]
    · rw [List.map_cons, htasks]
    · refine List.forall_mem_cons.mpr ⟨⟨rfl, hmade, hident.ge⟩, fun p hp => ?_⟩
      obtain ⟨hid, hfor, hle⟩ := hentry p hp
      exact ⟨hid, hfor, (Nat.le_succ _).trans hle⟩
    · refine Conserves.trans (.of_created ?_ ⟨[], (List.append_nil _).symm⟩) hconserves
      rw [Dict.values, hset, List.map_append, List.map_append, ← hident, ← List.append_assoc]
      exact List.perm_append_singleton _ _

/-! ## Cleaning up -/

theorem cleanupContainer_ok {container : Container} {n n' : Node}
    (h : (cleanupContainer container).run n = .ok ⟨⟩ n') :
    n'.manager = { n.manager with cleanedUp := n.manager.cleanedUp ++ [container.ident] } := by
  obtain ⟨_, _, hcleanup, h⟩ := bind_ok_iff.mp h
  obtain ⟨_, -, rfl⟩ := zoom_ok_iff.mp hcleanup
  cases h
  rfl

theorem cleanupContainers_ok {containers : List Container} {n n' : Node}
    (h : (forM containers cleanupContainer).run n = .ok ⟨⟩ n') :
    n'.manager = { n.manager with
      cleanedUp := n.manager.cleanedUp ++ containers.map Container.ident } := by
  induction containers generalizing n with
  | nil =>
    cases h
    rw [List.map_nil, List.append_nil]
  | cons container containers ih =>
    obtain ⟨t, hcleanup, h⟩ := forM_cons_ok_iff.mp h
    rw [ih h, cleanupContainer_ok hcleanup, List.map_cons, List.append_assoc, List.singleton_append]

/-! ## Replacing the containers whose subcgroups changed -/

/-- A container that has the subcgroups of its task. -/
def Fits (self : ContainerManager) (id : TaskId) : Prop :=
  ∀ task container, self.containers.get? id = some (task, container) →
    container.subcgroupsPaths = task.subcgroupsPaths.toFinset

/-- Each task has the container it had, unless another one was made for it, and those that had the
subcgroups of their tasks are as they were. -/
structure Refreshes (m m' : ContainerManager) : Prop where
  tasks : ∀ id, (m'.containers.get? id).map Prod.fst = (m.containers.get? id).map Prod.fst
  values : m'.containers.values.map Prod.fst = m.containers.values.map Prod.fst
  container : ∀ id task container, m'.containers.get? id = some (task, container) →
    m.containers.get? id = some (task, container) ∨
      container.MadeFor task ∧ m.nextIdent ≤ container.ident
  fits : ∀ id, m.Fits id → m'.containers.get? id = m.containers.get? id
  conserves : Conserves m m'

theorem Refreshes.refl (m : ContainerManager) : Refreshes m m :=
  ⟨fun _ => rfl, rfl, fun _ _ _ h => .inl h, fun _ _ => rfl, .refl m⟩

theorem Fits.of_get? {m m' : ContainerManager} {id : TaskId} (h : m.Fits id)
    (hget : m'.containers.get? id = m.containers.get? id) : m'.Fits id := by
  intro task container hc
  exact h task container (hget ▸ hc)

theorem Refreshes.trans {m₁ m₂ m₃ : ContainerManager} (h : Refreshes m₁ m₂)
    (h' : Refreshes m₂ m₃) : Refreshes m₁ m₃ := by
  refine ⟨fun id => (h'.tasks id).trans (h.tasks id), h'.values.trans h.values,
    fun id task container hc => ?_, fun id hid => ?_, h.conserves.trans h'.conserves⟩
  · obtain hc | ⟨hmade, hle⟩ := h'.container id task container hc
    · exact h.container id task container hc
    · exact .inr ⟨hmade, h.conserves.nextIdent_le.trans hle⟩
  · have hget := h.fits id hid
    exact (h'.fits id (hid.of_get? hget)).trans hget

theorem Refreshes.task {m m' : ContainerManager} (h : Refreshes m m') {id : TaskId} {task : Task}
    {container : Container} (hget : m'.containers.get? id = some (task, container)) :
    ∃ container', m.containers.get? id = some (task, container') := by
  have htask := h.tasks id
  rw [hget] at htask
  obtain ⟨⟨task', container'⟩, hget', he⟩ := Option.map_eq_some_iff.mp htask.symm
  cases he
  exact ⟨container', hget'⟩

theorem Watches.refreshes {m m' : ContainerManager} (hw : m.Watches) (h : Refreshes m m') :
    m'.Watches := by
  refine ⟨fun id task container hget => ?_, fun id task container hget => ?_, ?_⟩
  · obtain ⟨container', hget'⟩ := h.task hget
    exact hw.taskId id task container' hget'
  · obtain hget | ⟨hmade, -⟩ := h.container id task container hget
    · exact hw.cgroupPath id task container hget
    · exact hmade.cgroupPath
  · have hpaths := congrArg (List.map Task.cgroupPath) h.values
    rw [List.map_map, List.map_map] at hpaths
    exact hpaths ▸ hw.nodup

/-- A new container in place of one that does not fit and has been cleaned up. -/
theorem Refreshes.of_replaced {m : ContainerManager} {id : TaskId} {task : Task}
    {container container' : Container} (hget : m.containers.get? id = some (task, container))
    (hne : task.subcgroupsPaths.toFinset ≠ container.subcgroupsPaths)
    (hmade : container'.MadeFor task) (hident : container'.ident = m.nextIdent) :
    Refreshes m { m with
      containers := m.containers.set id (task, container')
      cleanedUp := m.cleanedUp ++ [container.ident]
      nextIdent := m.nextIdent + 1 } := by
  refine ⟨fun id' => ?_, ?_, fun id' task' container'' hc => ?_, fun id' hid' => ?_, ?_⟩
  · rw [Dict.get?_set]
    split
    · case isTrue he => rw [he, hget, Option.map_some, Option.map_some]
    · rfl
  · have hkey := Dict.mem_keys_iff_get?.mpr ⟨_, hget⟩
    rw [Dict.values, Dict.items_set_of_mem hkey, Dict.values, List.map_map, List.map_map,
      List.map_map]
    refine List.map_congr_left fun p hp => ?_
    dsimp only [Function.comp_apply]
    split
    · case isTrue he =>
      obtain ⟨id', task', container''⟩ := p
      cases he
      rw [Dict.get?_eq_some_iff.mpr hp] at hget
      cases hget
      rfl
    · rfl
  · rw [Dict.get?_set] at hc
    split at hc
    · cases hc
      exact .inr ⟨hmade, hident.ge⟩
    · exact .inl hc
  · refine Dict.get?_set_of_ne fun he => ?_
    subst he
    exact hne (hid' task container hget).symm
  · refine .of_created ?_ ⟨[container.ident], rfl⟩
    have hidents : m.idents.Perm
        (container.ident :: (m.containers.erase id).values.map (·.2.ident)) := by
      rw [idents, Dict.values, Dict.values, List.map_map, List.map_map]
      exact (Dict.perm_items_of_get? hget).map _
    have hafter := (idents_set m id task container').append_left
      (m.cleanedUp ++ [container.ident])
    refine hafter.trans (.trans ?_ ((hidents.append_left m.cleanedUp).cons m.nextIdent).symm)
    rw [hident, List.append_assoc, List.singleton_append]
    exact ((List.Perm.swap _ _ _).append_left m.cleanedUp).trans List.perm_middle

theorem refreshContainer_ok {id : TaskId} {n n' : Node} (hw : n.manager.Watches)
    (h : (refreshContainer id).run n = .ok ⟨⟩ n') :
    Refreshes n.manager n'.manager ∧ n'.manager.Fits id := by
  obtain ⟨_, _, hget, h⟩ := bind_ok_iff.mp h
  cases hget
  split at h
  · case h_1 hnone =>
    cases h
    refine ⟨.refl _, fun task container hc => ?_⟩
    rw [hnone] at hc
    cases hc
  · case h_2 task container hsome =>
    obtain ⟨hne, h⟩ | ⟨heq, rfl⟩ := doIf_ok_iff.mp h
    · obtain ⟨_, t, hcleanup, hcreate⟩ := bind_ok_iff.mp h
      have hclean := cleanupContainer_ok hcleanup
      obtain ⟨container', ⟨hmade, -⟩, hident, rfl⟩ := createNewContainer_ok hcreate
      have hset : assign t.manager.containers task container' =
          n.manager.containers.set id (task, container') := by
        rw [assign, hclean, ← hw.taskId id task container hsome, hsome]
        rfl
      rw [hclean] at hident
      have hrefresh := Refreshes.of_replaced hsome hne hmade hident
      rw [hset, hclean]
      refine ⟨hrefresh, fun task' container'' hc => ?_⟩
      cases Dict.get?_set_self.symm.trans hc
      exact hmade.subcgroupsPaths
    · refine ⟨.refl _, fun task' container' hc => ?_⟩
      rw [hsome] at hc
      cases hc
      exact (not_not.mp heq).symm

theorem refreshContainers_ok {ids : List TaskId} {n n' : Node} (hw : n.manager.Watches)
    (h : (forM ids refreshContainer).run n = .ok ⟨⟩ n') :
    Refreshes n.manager n'.manager ∧ ∀ id ∈ ids, n'.manager.Fits id := by
  induction ids generalizing n with
  | nil =>
    cases h
    exact ⟨.refl _, fun id hid => absurd hid List.not_mem_nil⟩
  | cons id ids ih =>
    obtain ⟨t, hhead, h⟩ := forM_cons_ok_iff.mp h
    obtain ⟨hrefresh, hfits⟩ := refreshContainer_ok hw hhead
    obtain ⟨hrefresh', hfits'⟩ := ih (hw.refreshes hrefresh) h
    refine ⟨hrefresh.trans hrefresh', List.forall_mem_cons.mpr ⟨?_, hfits'⟩⟩
    exact hfits.of_get? (hrefresh'.fits id hfits)

/-! ## Keeping the known containers -/

/-- The containers of a task's cgroup. -/
def knownItems (known : Containers) (task : Task) : List (TaskId × Task × Container) :=
  known.items.filter fun item => task.cgroupPath = item.2.1.cgroupPath

theorem knownItems_eq {known : Containers} (h : (known.values.map (·.1.cgroupPath)).Nodup)
    (task : Task) : knownItems known task = [] ∨ ∃ item, knownItems known task = [item] := by
  have hsub : (knownItems known task).Sublist known.items := List.filter_sublist
  have hpath : ∀ item ∈ knownItems known task, task.cgroupPath = item.2.1.cgroupPath :=
    fun item hitem => of_decide_eq_true (List.mem_filter.mp hitem).2
  rw [Dict.values, List.map_map] at h
  have hnd := h.sublist (hsub.map _)
  cases hl : knownItems known task with
  | nil => exact .inl rfl
  | cons item l =>
    refine .inr ⟨item, ?_⟩
    cases l with
    | nil => rfl
    | cons item' l =>
      rw [hl] at hnd hpath
      have hne := (List.nodup_cons.mp hnd).1
      refine absurd ?_ hne
      have hitem := hpath item List.mem_cons_self
      have hitem' := hpath item' (List.mem_cons_of_mem _ List.mem_cons_self)
      rw [Function.comp_apply, ← hitem, hitem']
      exact List.mem_cons_self

theorem map_knownItems {known : Containers} (h : (known.values.map (·.1.cgroupPath)).Nodup)
    (task : Task) : (knownItems known task).map (fun _ => task) =
      if task.cgroupPath ∈ known.values.map (·.1.cgroupPath) then [task] else [] := by
  have hmem : task.cgroupPath ∈ known.values.map (·.1.cgroupPath) ↔ knownItems known task ≠ [] := by
    rw [Dict.values, List.map_map, List.mem_map, knownItems, ne_eq, List.filter_eq_nil_iff]
    simp only [Function.comp_apply, decide_eq_true_eq, not_forall, not_not, exists_prop]
    exact exists_congr fun _ => and_congr_right fun _ => eq_comm
  obtain hl | ⟨item, hl⟩ := knownItems_eq h task
  · rw [if_neg fun hm => hmem.mp hm hl, hl, List.map_nil]
  · rw [if_pos (hmem.mpr (hl ▸ List.cons_ne_nil item [])), hl, List.map_singleton]

theorem keptContainers_items {tasks : List Task} {known : Containers}
    (hids : (tasks.map Task.taskId).Nodup)
    (h : (known.values.map (·.1.cgroupPath)).Nodup) :
    (keptContainers tasks known).items = tasks.flatMap fun task =>
      (knownItems known task).map fun item => (task.taskId, task, item.2.2) := by
  suffices hgo : ∀ (tasks : List Task) (containers : Containers), (tasks.map Task.taskId).Nodup →
      (∀ task ∈ tasks, task.taskId ∉ containers.keys) →
      (tasks.foldl (fun containers task => known.items.foldl (fun containers item =>
        if task.cgroupPath = item.2.1.cgroupPath then assign containers task item.2.2
        else containers) containers) containers).items =
      containers.items ++ tasks.flatMap fun task =>
        (knownItems known task).map fun item => (task.taskId, task, item.2.2) by
    exact hgo tasks ∅ hids fun _ _ => List.not_mem_nil
  intro tasks
  induction tasks with
  | nil => exact fun containers _ _ => (List.append_nil _).symm
  | cons task tasks ih =>
    intro containers hids hnew
    rw [List.map_cons, List.nodup_cons] at hids
    obtain ⟨hkey, hnew⟩ := List.forall_mem_cons.mp hnew
    have hinner : known.items.foldl (fun containers item =>
        if task.cgroupPath = item.2.1.cgroupPath then assign containers task item.2.2
        else containers) containers =
        (knownItems known task).foldl (fun containers item => assign containers task item.2.2)
          containers := by
      simp only [knownItems, List.foldl_filter, decide_eq_true_eq]
    rw [List.foldl_cons, hinner, List.flatMap_cons]
    obtain hl | ⟨item, hl⟩ := knownItems_eq h task
    · rw [hl, List.foldl_nil, List.map_nil, List.nil_append]
      exact ih containers hids.2 hnew
    · rw [hl, List.foldl_cons, List.foldl_nil, List.map_singleton]
      have hset : (assign containers task item.2.2).items =
          containers.items ++ [(task.taskId, task, item.2.2)] := by
        rw [assign, Dict.get?_eq_none_iff.mpr hkey, Dict.items_set_of_not_mem hkey]
        rfl
      rw [ih _ hids.2 fun task' htask' hmem => ?_, hset, List.append_assoc]
      obtain he | hmem := Dict.mem_keys_set.mp hmem
      · exact hids.1 (he ▸ List.mem_map_of_mem htask')
      · exact hnew task' htask' hmem

/-- The known containers of the cgroups that tasks have, task by task. -/
theorem flatMap_knownItems_perm {tasks : List Task} {known : Containers}
    (hpaths : (tasks.map Task.cgroupPath).Nodup) :
    (tasks.flatMap (knownItems known)).Perm
      (known.items.filter fun item => item.2.1.cgroupPath ∈ tasks.map Task.cgroupPath) := by
  induction tasks with
  | nil =>
    rw [List.flatMap_nil, List.filter_eq_nil_iff.mpr fun item _ => by simp]
  | cons task tasks ih =>
    rw [List.map_cons, List.nodup_cons] at hpaths
    rw [List.flatMap_cons]
    refine ((ih hpaths.2).append_left _).trans (.trans (.of_eq ?_) (List.filter_append_perm
      (fun item => decide (task.cgroupPath = item.2.1.cgroupPath)) _))
    rw [List.filter_filter, List.filter_filter, knownItems]
    refine congrArg₂ _ (List.filter_congr fun item _ => ?_) (List.filter_congr fun item _ => ?_)
    · simp only [List.map_cons, List.mem_cons, eq_comm]
      by_cases he : task.cgroupPath = item.2.1.cgroupPath <;> simp [he]
    · by_cases he : task.cgroupPath = item.2.1.cgroupPath
      · have hnot := hpaths.1
        rw [he] at hnot
        simp only [he, decide_eq_false hnot, decide_true, Bool.not_true, Bool.false_and]
      · simp [he, Ne.symm he]

/-- Each task has the container its cgroup had, and the containers of the other cgroups are cleaned
up. -/
structure Keeps (tasks : List Task) (m m' : ContainerManager) : Prop where
  get?_iff : ∀ id task container, m'.containers.get? id = some (task, container) ↔
    id = task.taskId ∧ task ∈ tasks ∧ ∃ id' known,
      m.containers.get? id' = some (known, container) ∧ task.cgroupPath = known.cgroupPath
  values : m'.containers.values.map Prod.fst =
    tasks.filter fun task => task.cgroupPath ∈ m.containers.values.map (·.1.cgroupPath)
  conserves : Conserves m m'

theorem Watches.cgroupPath_eq {m : ContainerManager} (hw : m.Watches) {p : TaskId × Task × Container}
    (hp : p ∈ m.containers.items) : p.2.2.cgroupPath = p.2.1.cgroupPath :=
  hw.cgroupPath p.1 p.2.1 p.2.2 (Dict.get?_eq_some_iff.mpr hp)

theorem keeps {tasks : List Task} {m m' : ContainerManager} (hw : m.Watches)
    (hids : (tasks.map Task.taskId).Nodup) (hpaths : (tasks.map Task.cgroupPath).Nodup)
    (h : m' = { m with
      containers := keptContainers tasks m.containers
      cleanedUp := m.cleanedUp ++ (findNewAndDeadTasks tasks
        (m.containers.values.map Prod.snd)).2.map Container.ident }) :
    Keeps tasks m m' := by
  subst h
  have hitems := keptContainers_items hids hw.nodup
  refine ⟨fun id task container => ?_, ?_, le_rfl, ⟨_, rfl⟩, ?_⟩
  · rw [Dict.get?_eq_some_iff, hitems, List.mem_flatMap]
    constructor
    · rintro ⟨task', htask', hmem⟩
      obtain ⟨item, hitem, he⟩ := List.mem_map.mp hmem
      cases he
      obtain ⟨hknown, hpath⟩ := List.mem_filter.mp hitem
      exact ⟨rfl, htask', item.1, item.2.1, Dict.get?_eq_some_iff.mpr hknown, of_decide_eq_true hpath⟩
    · rintro ⟨rfl, htask, id', known, hknown, hpath⟩
      refine ⟨task, htask, List.mem_map.mpr ⟨(id', known, container), ?_, rfl⟩⟩
      exact List.mem_filter.mpr ⟨Dict.get?_eq_some_iff.mp hknown, decide_eq_true hpath⟩
  · rw [Dict.values, hitems, List.map_map, List.map_flatMap]
    clear hitems hids hpaths
    induction tasks with
    | nil => rfl
    | cons task tasks ih =>
      rw [List.flatMap_cons, ih, List.map_map, List.filter_cons]
      refine (congrArg (· ++ _) (map_knownItems hw.nodup task)).trans ?_
      simp only [decide_eq_true_eq]
      split <;> rfl
  · have hkept : (keptContainers tasks m.containers).values.map (·.2.ident) =
        (tasks.flatMap (knownItems m.containers)).map (·.2.2.ident) := by
      rw [Dict.values, hitems, List.map_map, List.map_flatMap, List.map_flatMap]
      exact congrArg (fun f => List.flatMap f tasks) (funext fun task => List.map_map)
    have hdead : (findNewAndDeadTasks tasks (m.containers.values.map Prod.snd)).2.map Container.ident =
        (m.containers.items.filter fun item =>
          !decide (item.2.1.cgroupPath ∈ tasks.map Task.cgroupPath)).map (·.2.2.ident) := by
      dsimp only [findNewAndDeadTasks, Dict.values]
      rw [List.map_map, List.filter_map, List.map_map]
      refine congrArg _ (List.filter_congr fun item hitem => ?_)
      simp only [Function.comp_apply, hw.cgroupPath_eq hitem, decide_not]
    rw [Nat.sub_self, List.range'_zero, List.append_nil, List.append_assoc]
    refine List.Perm.append_left _ ?_
    rw [idents, hkept, hdead, idents, Dict.values, List.map_map, ← List.map_append]
    refine List.Perm.map _ (List.perm_append_comm.trans ?_)
    exact ((flatMap_knownItems_perm hpaths).append_right _).trans (List.filter_append_perm _ _)

/-! ## Putting the containers into their groups -/

/-- What is left of a manager without the groups its containers are in. -/
def withoutResgroups (self : ContainerManager) : ContainerManager :=
  { self with containers := self.containers.map fun _ p => (p.1, { p.2 with resgroup := none }) }

theorem values_withoutResgroups (m : ContainerManager) :
    m.withoutResgroups.containers.values.map Prod.fst = m.containers.values.map Prod.fst := by
  rw [withoutResgroups, Dict.values, Dict.items_map, Dict.values, List.map_map, List.map_map,
    List.map_map]
  rfl

theorem idents_withoutResgroups (m : ContainerManager) : m.withoutResgroups.idents = m.idents := by
  rw [withoutResgroups, idents, Dict.values, Dict.items_map, idents, Dict.values, List.map_map,
    List.map_map, List.map_map]
  rfl

section WithoutResgroups

variable {m m' : ContainerManager} (h : m'.withoutResgroups = m.withoutResgroups)

include h

theorem values_of_withoutResgroups :
    m'.containers.values.map Prod.fst = m.containers.values.map Prod.fst := by
  rw [← values_withoutResgroups, h, values_withoutResgroups]

theorem idents_of_withoutResgroups : m'.idents = m.idents := by
  rw [← idents_withoutResgroups, h, idents_withoutResgroups]

theorem conserves_of_withoutResgroups : Conserves m m' :=
  .of_idents_eq (idents_of_withoutResgroups h) (congrArg (fun m => m.cleanedUp) h)
    (congrArg (fun m => m.nextIdent) h)

theorem get?_of_withoutResgroups {id : TaskId} {task : Task} {container : Container}
    (hget : m.containers.get? id = some (task, container)) :
    ∃ resgroup, m'.containers.get? id = some (task, { container with resgroup }) := by
  have hmap := congrArg (fun m => m.containers.get? id) h
  dsimp only [withoutResgroups] at hmap
  rw [Dict.get?_map, Dict.get?_map, hget, Option.map_some] at hmap
  obtain ⟨⟨task', container'⟩, hget', he⟩ := Option.map_eq_some_iff.mp hmap
  obtain ⟨htask, hcontainer⟩ := Prod.mk.inj he
  refine ⟨container'.resgroup, hget'.trans (congrArg some (Prod.ext htask ?_))⟩
  exact congrArg (fun c : Container => { c with resgroup := container'.resgroup }) hcontainer

theorem Watches.of_withoutResgroups (hw : m.Watches) : m'.Watches := by
  refine ⟨fun id task container hget => ?_, fun id task container hget => ?_, ?_⟩
  · obtain ⟨resgroup, hget'⟩ := get?_of_withoutResgroups h.symm hget
    exact hw.taskId id task _ hget'
  · obtain ⟨resgroup, hget'⟩ := get?_of_withoutResgroups h.symm hget
    have hpath := hw.cgroupPath id task { container with resgroup } hget'
    exact hpath
  · have hpaths := congrArg (List.map Task.cgroupPath) (values_of_withoutResgroups h)
    rw [List.map_map, List.map_map] at hpaths
    exact hpaths ▸ hw.nodup

end WithoutResgroups

theorem syncContainer_ok {groups : Dict String String} {id : TaskId} {n n' : Node}
    (hw : n.manager.Watches) (h : (syncContainer groups id).run n = .ok ⟨⟩ n') :
    n'.manager.withoutResgroups = n.manager.withoutResgroups := by
  obtain ⟨_, _, hget, h⟩ := bind_ok_iff.mp h
  cases hget
  split at h
  · cases h
    rfl
  · case h_2 task container hsome =>
    obtain ⟨_, t, hassign, hsync⟩ := bind_ok_iff.mp h
    cases hassign
    obtain ⟨_, -, rfl⟩ := zoom_ok_iff.mp hsync
    rw [hw.taskId id task container hsome] at hsome
    dsimp only [withoutResgroups]
    rw [assign, hsome, Option.map_some, Option.getD_some, Dict.map_set_of_get? hsome]
    split <;> rfl

theorem syncContainers_ok {groups : Dict String String} {ids : List TaskId} {n n' : Node}
    (hw : n.manager.Watches) (h : (forM ids (syncContainer groups)).run n = .ok ⟨⟩ n') :
    n'.manager.withoutResgroups = n.manager.withoutResgroups := by
  induction ids generalizing n with
  | nil =>
    cases h
    rfl
  | cons id ids ih =>
    obtain ⟨t, hhead, h⟩ := forM_cons_ok_iff.mp h
    have hsame := syncContainer_ok hw hhead
    exact (ih (hw.of_withoutResgroups hsame) h).trans hsame

theorem sweepResctrl_ok {groups : Dict String String} {n n' : Node}
    (h : sweepResctrl.run n = .ok groups n') : n'.manager = n.manager := by
  obtain ⟨_, _, hget, h⟩ := bind_ok_iff.mp h
  cases hget
  split at h
  · cases h
    rfl
  · obtain ⟨_, t₁, hassert, h₁⟩ := bind_ok_iff.mp h
    obtain ⟨-, ht₁⟩ := run_liftM_ok_iff.mp hassert
    obtain ⟨relation, t₂, hread, h₂⟩ := bind_ok_iff.mp h₁
    obtain ⟨-, ht₂⟩ := run_liftM_ok_iff.mp hread
    obtain ⟨_, t₃, hclean, h₃⟩ := bind_ok_iff.mp h₂
    obtain ⟨r, -, ht₃⟩ := zoom_ok_iff.mp hclean
    obtain ⟨_, t₄, hget, h₄⟩ := bind_ok_iff.mp h₃
    cases hget
    obtain ⟨relation', t₅, hread', h₅⟩ := bind_ok_iff.mp h₄
    obtain ⟨-, ht₅⟩ := run_liftM_ok_iff.mp hread'
    cases h₅
    rw [ht₅, ht₃, ht₂, ht₁]

/-! ## A call -/

/-- Each task has a container of its cgroup: one that was known, or one made for it. -/
structure Covers (tasks : List Task) (m m' : ContainerManager) : Prop where
  perm : (m'.containers.values.map Prod.fst).Perm tasks
  container : ∀ id task container, m'.containers.get? id = some (task, container) →
    id = task.taskId ∧ container.cgroupPath = task.cgroupPath ∧
      ((∃ id' known, m.containers.get? id' = some (known, container)) ∨
        m.nextIdent ≤ container.ident)
  known : ∀ id known container, m.containers.get? id = some (known, container) → ∀ task ∈ tasks,
    task.cgroupPath = container.cgroupPath →
      m'.containers.get? task.taskId = some (task, container)
  conserves : Conserves m m'

theorem Keeps.not_mem_keys {tasks : List Task} {m m' : ContainerManager} (hw : m.Watches)
    (hids : (tasks.map Task.taskId).Nodup) (h : Keeps tasks m m') :
    ∀ task ∈ (findNewAndDeadTasks tasks (m.containers.values.map Prod.snd)).1,
      task.taskId ∉ m'.containers.keys := by
  intro task htask hkey
  obtain ⟨htask, hnew⟩ := List.mem_filter.mp htask
  obtain ⟨⟨task', container⟩, hget⟩ := Dict.mem_keys_iff_get?.mp hkey
  obtain ⟨hid, htask', id', known, hknown, hpath⟩ := (h.get?_iff _ _ _).mp hget
  have he := List.inj_on_of_nodup_map hids htask htask' hid
  refine of_decide_eq_true hnew ?_
  rw [he, hpath, ← hw.cgroupPath id' known container hknown, List.map_map]
  exact List.mem_map_of_mem (Dict.mem_values.mpr ⟨id', Dict.get?_eq_some_iff.mp hknown⟩)

theorem Keeps.covers {tasks : List Task} {m m₁ m₂ : ContainerManager} (hw : m.Watches)
    (h : Keeps tasks m m₁)
    (hnew : Creates (findNewAndDeadTasks tasks (m.containers.values.map Prod.snd)).1 m₁ m₂) :
    Covers tasks m m₂ := by
  obtain ⟨⟨l, hl, htasks, hentry⟩, hconserves⟩ := hnew
  refine ⟨?_, fun id task container hget => ?_, fun id known container hget task htask hpath => ?_,
    h.conserves.trans hconserves⟩
  · have hvalues : m₂.containers.values.map Prod.fst =
        m₁.containers.values.map Prod.fst ++ l.map (·.2.1) := by
      dsimp only [Dict.values]
      rw [hl, List.map_append, List.map_append]
      exact congrArg _ List.map_map
    have hpaths : (m.containers.values.map Prod.snd).map Container.cgroupPath =
        m.containers.values.map (·.1.cgroupPath) := by
      rw [Dict.values, List.map_map, List.map_map, List.map_map]
      exact List.map_congr_left fun item hitem => hw.cgroupPath_eq hitem
    rw [hvalues, h.values, htasks, findNewAndDeadTasks, hpaths]
    simp only [decide_not]
    exact List.filter_append_perm _ _
  · rw [Dict.get?_eq_some_iff, hl, List.mem_append, ← Dict.get?_eq_some_iff] at hget
    obtain hget | hmem := hget
    · obtain ⟨hid, -, id', known, hknown, hpath⟩ := (h.get?_iff _ _ _).mp hget
      exact ⟨hid, (hw.cgroupPath id' known container hknown).trans hpath.symm,
        .inl ⟨id', known, hknown⟩⟩
    · obtain ⟨hid, hmade, hle⟩ := hentry _ hmem
      exact ⟨hid, hmade.cgroupPath, .inr (h.conserves.nextIdent_le.trans hle)⟩
  · rw [Dict.get?_eq_some_iff, hl, List.mem_append, ← Dict.get?_eq_some_iff]
    rw [hw.cgroupPath id known container hget] at hpath
    exact .inl ((h.get?_iff _ _ _).mpr ⟨rfl, htask, id, known, hget, hpath⟩)

theorem Covers.watches {tasks : List Task} {m m' : ContainerManager} (h : Covers tasks m m')
    (hpaths : (tasks.map Task.cgroupPath).Nodup) : m'.Watches := by
  refine ⟨fun id task container hget => (h.container id task container hget).1,
    fun id task container hget => (h.container id task container hget).2.1, ?_⟩
  have hperm := h.perm.map Task.cgroupPath
  rw [List.map_map] at hperm
  exact hperm.nodup_iff.mpr hpaths

theorem mem_idents {m : ContainerManager} {i : Nat} :
    i ∈ m.idents ↔ ∃ id task container, m.containers.get? id = some (task, container) ∧
      container.ident = i := by
  rw [idents, List.mem_map]
  constructor
  · rintro ⟨⟨task, container⟩, hmem, rfl⟩
    obtain ⟨id, hmem⟩ := Dict.mem_values.mp hmem
    exact ⟨id, task, container, Dict.get?_eq_some_iff.mpr hmem, rfl⟩
  · rintro ⟨id, task, container, hget, rfl⟩
    exact ⟨_, Dict.mem_values.mpr ⟨id, Dict.get?_eq_some_iff.mp hget⟩, rfl⟩

/-- No two containers are the same object. -/
theorem container_eq {m : ContainerManager} (hnd : m.idents.Nodup) {id id' : TaskId}
    {task task' : Task} {container container' : Container}
    (h : m.containers.get? id = some (task, container))
    (h' : m.containers.get? id' = some (task', container'))
    (hident : container.ident = container'.ident) : container = container' := by
  rw [idents, Dict.values, List.map_map] at hnd
  have he := List.inj_on_of_nodup_map hnd (Dict.get?_eq_some_iff.mp h) (Dict.get?_eq_some_iff.mp h')
    hident
  cases he
  rfl

/-- What a call does: the tasks are those given, each container is that of its task, and those kept
are the ones whose task is there with the same subcgroups. -/
structure Syncs (tasks : List Task) (m m' : ContainerManager) : Prop where
  perm : (m'.containers.values.map Prod.fst).Perm tasks
  container : ∀ id task container, m'.containers.get? id = some (task, container) →
    id = task.taskId ∧ container.MadeFor task
  kept : ∀ id known container, m.containers.get? id = some (known, container) →
    (container.ident ∈ m'.idents ↔ ∃ task ∈ tasks, task.cgroupPath = container.cgroupPath ∧
      task.subcgroupsPaths.toFinset = container.subcgroupsPaths)
  conserves : Conserves m m'

theorem Covers.syncs {tasks : List Task} {m m₁ m₂ : ContainerManager} (h : Covers tasks m m₁)
    (hnd : m.idents.Nodup) (hlt : ∀ i ∈ m.idents, i < m.nextIdent) (hrefresh : Refreshes m₁ m₂)
    (hfits : ∀ id ∈ m₁.containers.keys, m₂.Fits id) : Syncs tasks m m₂ := by
  have hfits' : ∀ id task container, m₂.containers.get? id = some (task, container) →
      container.subcgroupsPaths = task.subcgroupsPaths.toFinset := by
    intro id task container hget
    obtain ⟨container', hget'⟩ := hrefresh.task hget
    exact hfits id (Dict.mem_keys_iff_get?.mpr ⟨_, hget'⟩) task container hget
  refine ⟨?_, fun id task container hget => ?_, fun id known container hget => ⟨?_, ?_⟩,
    h.conserves.trans hrefresh.conserves⟩
  · rw [hrefresh.values]
    exact h.perm
  · obtain ⟨container', hget'⟩ := hrefresh.task hget
    refine ⟨(h.container id task container' hget').1, ?_, hfits' id task container hget⟩
    obtain hold | ⟨hmade, -⟩ := hrefresh.container id task container hget
    · exact (h.container id task container hold).2.1
    · exact hmade.cgroupPath
  · intro hmem
    -- a container of that identity is no new one, so it is the known one
    have hold := hlt _ (mem_idents.mpr ⟨id, known, container, hget, rfl⟩)
    obtain ⟨id', task, container', hget', hident⟩ := mem_idents.mp hmem
    have hget₁ : m₁.containers.get? id' = some (task, container') := by
      refine (hrefresh.container id' task container' hget').resolve_right ?_
      rintro ⟨-, hle⟩
      have := h.conserves.nextIdent_le
      omega
    obtain ⟨-, hpath, hfrom⟩ := h.container id' task container' hget₁
    obtain ⟨id'', known', hknown⟩ := hfrom.resolve_right (by omega)
    obtain rfl := container_eq hnd hknown hget hident
    refine ⟨task, ?_, hpath.symm, (hfits' id' task _ hget').symm⟩
    refine h.perm.mem_iff.mp (List.mem_map.mpr ⟨(task, container'), ?_, rfl⟩)
    exact Dict.mem_values.mpr ⟨id', Dict.get?_eq_some_iff.mp hget₁⟩
  · rintro ⟨task, htask, hpath, hsubs⟩
    have hget₁ := h.known id known container hget task htask hpath
    have hfit : m₁.Fits task.taskId := by
      intro task' container' hget'
      cases hget₁.symm.trans hget'
      exact hsubs.symm
    rw [← hrefresh.fits task.taskId hfit] at hget₁
    exact mem_idents.mpr ⟨task.taskId, task, container, hget₁, rfl⟩

theorem Syncs.of_withoutResgroups {tasks : List Task} {m m₁ m₂ : ContainerManager}
    (h : Syncs tasks m m₁) (heq : m₂.withoutResgroups = m₁.withoutResgroups) :
    Syncs tasks m m₂ := by
  refine ⟨?_, fun id task container hget => ?_, fun id known container hget => ?_,
    h.conserves.trans (conserves_of_withoutResgroups heq)⟩
  · rw [values_of_withoutResgroups heq]
    exact h.perm
  · obtain ⟨resgroup, hget'⟩ := get?_of_withoutResgroups heq.symm hget
    obtain ⟨hid, hmade⟩ := h.container id task _ hget'
    exact ⟨hid, hmade.cgroupPath, hmade.subcgroupsPaths⟩
  · rw [idents_of_withoutResgroups heq]
    exact h.kept id known container hget

/-- The phases of a call, with the nodes that lie between them. -/
structure Phases (tasks : List Task) (n n₁ n₂ n₃ n₄ n' : Node) (groups : Dict String String) :
    Prop where
  cleanup : (forM (findNewAndDeadTasks tasks (n.manager.containers.values.map Prod.snd)).2
    cleanupContainer).run n = .ok ⟨⟩ n₁
  sweep : sweepResctrl.run { n₁ with manager := { n₁.manager with
    containers := keptContainers tasks n₁.manager.containers } } = .ok groups n₂
  create : (forM (findNewAndDeadTasks tasks (n.manager.containers.values.map Prod.snd)).1
    createNewContainer).run n₂ = .ok ⟨⟩ n₃
  refresh : (forM n₃.manager.containers.keys refreshContainer).run n₃ = .ok ⟨⟩ n₄
  sync : (forM n₃.manager.containers.keys (syncContainer groups)).run n₄ = .ok ⟨⟩ n'

theorem syncContainersState_phases {tasks : List Task} {n n' : Node}
    (h : (syncContainersState tasks).run n = .ok ⟨⟩ n') :
    ∃ n₁ n₂ n₃ n₄ groups, Phases tasks n n₁ n₂ n₃ n₄ n' groups := by
  obtain ⟨_, _, hget, h⟩ := bind_ok_iff.mp h
  cases hget
  obtain ⟨_, n₁, hcleanup, h₁⟩ := bind_ok_iff.mp h
  obtain ⟨_, _, hmodify, h₂⟩ := bind_ok_iff.mp h₁
  cases hmodify
  obtain ⟨groups, n₂, hsweep, h₃⟩ := bind_ok_iff.mp h₂
  obtain ⟨_, n₃, hcreate, h₄⟩ := bind_ok_iff.mp h₃
  obtain ⟨_, _, hget, h₅⟩ := bind_ok_iff.mp h₄
  cases hget
  obtain ⟨_, n₄, hrefresh, hsync⟩ := bind_ok_iff.mp h₅
  exact ⟨n₁, n₂, n₃, n₄, groups, hcleanup, hsweep, hcreate, hrefresh, hsync⟩

namespace Phases

variable {tasks : List Task} {n n₁ n₂ n₃ n₄ n' : Node} {groups : Dict String String}

theorem keeps (h : Phases tasks n n₁ n₂ n₃ n₄ n' groups) (hw : n.manager.Watches)
    (hids : (tasks.map Task.taskId).Nodup) (hpaths : (tasks.map Task.cgroupPath).Nodup) :
    Keeps tasks n.manager n₂.manager := by
  apply ContainerManager.keeps hw hids hpaths
  rw [sweepResctrl_ok h.sweep]
  dsimp only
  rw [cleanupContainers_ok h.cleanup]

theorem covers (h : Phases tasks n n₁ n₂ n₃ n₄ n' groups) (hw : n.manager.Watches)
    (hids : (tasks.map Task.taskId).Nodup) (hpaths : (tasks.map Task.cgroupPath).Nodup) :
    Covers tasks n.manager n₃.manager := by
  have hkeeps := h.keeps hw hids hpaths
  exact hkeeps.covers hw (createNewContainers_ok (hids.sublist (List.filter_sublist.map _))
    (hkeeps.not_mem_keys hw hids) h.create)

end Phases

theorem syncContainersState_ok {tasks : List Task} {n n' : Node} (hw : n.manager.Watches)
    (hnd : n.manager.idents.Nodup) (hlt : ∀ i ∈ n.manager.idents, i < n.manager.nextIdent)
    (hids : (tasks.map Task.taskId).Nodup) (hpaths : (tasks.map Task.cgroupPath).Nodup)
    (h : (syncContainersState tasks).run n = .ok ⟨⟩ n') : Syncs tasks n.manager n'.manager := by
  obtain ⟨n₁, n₂, n₃, n₄, groups, hphases⟩ := syncContainersState_phases h
  have hcovers := hphases.covers hw hids hpaths
  have hw₃ := hcovers.watches hpaths
  obtain ⟨hrefreshes, hfits⟩ := refreshContainers_ok hw₃ hphases.refresh
  have hsyncs := hcovers.syncs hnd hlt hrefreshes hfits
  exact hsyncs.of_withoutResgroups (syncContainers_ok (hw₃.refreshes hrefreshes) hphases.sync)

theorem Syncs.watches {tasks : List Task} {m m' : ContainerManager} (h : Syncs tasks m m')
    (hpaths : (tasks.map Task.cgroupPath).Nodup) : m'.Watches := by
  refine ⟨fun id task container hget => (h.container id task container hget).1,
    fun id task container hget => (h.container id task container hget).2.cgroupPath, ?_⟩
  have hperm := h.perm.map Task.cgroupPath
  rw [List.map_map] at hperm
  exact hperm.nodup_iff.mpr hpaths

/-! ## Runs -/

/-- The first calls of a run, from a manager that watches nothing. Before each of them anything may
have happened to the file systems, and to the groups that the containers are in. -/
structure Calls (tasks : ℕ → List Task) (node : ℕ → Node) (k : ℕ) : Prop where
  containers : (node 0).manager.containers = ∅
  cleanedUp : (node 0).manager.cleanedUp = []
  taskIds : ∀ i < k, ((tasks i).map Task.taskId).Nodup
  cgroupPaths : ∀ i < k, ((tasks i).map Task.cgroupPath).Nodup
  call : ∀ i < k, ∃ n, n.manager.withoutResgroups = (node i).manager.withoutResgroups ∧
    (syncContainersState (tasks i)).run n = .ok ⟨⟩ (node (i + 1))

section Calls

variable {tasks : ℕ → List Task} {node : ℕ → Node} {k : ℕ}

theorem Calls.call_ok (h : Calls tasks node k) {i : ℕ} (hi : i < k)
    (hw : (node i).manager.Watches) (hc : Conserves (node 0).manager (node i).manager) :
    Syncs (tasks i) (node i).manager (node (i + 1)).manager := by
  obtain ⟨n, hsame, hrun⟩ := h.call i hi
  obtain ⟨hnd, hlt⟩ :=
    (hc.trans (conserves_of_withoutResgroups hsame)).nodup h.containers h.cleanedUp
  have hsyncs := syncContainersState_ok (hw.of_withoutResgroups hsame) (List.nodup_append.mp hnd).2.1
    (fun i hi => hlt i (List.mem_append_right _ hi)) (h.taskIds i hi) (h.cgroupPaths i hi) hrun
  refine ⟨hsyncs.perm, hsyncs.container, fun id known container hget => ?_,
    (conserves_of_withoutResgroups hsame).trans hsyncs.conserves⟩
  obtain ⟨resgroup, hget'⟩ := get?_of_withoutResgroups hsame hget
  have hkept := hsyncs.kept id known { container with resgroup } hget'
  exact hkept

theorem Calls.run (h : Calls tasks node k) {i : ℕ} (hi : i ≤ k) :
    (node i).manager.Watches ∧ Conserves (node 0).manager (node i).manager := by
  induction i with
  | zero =>
    refine ⟨⟨?_, ?_, ?_⟩, .refl _⟩
    · intro id task container hget
      rw [h.containers] at hget
      cases hget
    · intro id task container hget
      rw [h.containers] at hget
      cases hget
    · rw [h.containers]
      exact List.nodup_nil
  | succ i ih =>
    obtain ⟨hw, hc⟩ := ih (Nat.le_of_succ_le hi)
    have hsyncs := h.call_ok hi hw hc
    exact ⟨hsyncs.watches (h.cgroupPaths i hi), hc.trans hsyncs.conserves⟩

theorem Calls.conserves (h : Calls tasks node k) {i j : ℕ} (hij : i ≤ j) (hj : j ≤ k) :
    Conserves (node i).manager (node j).manager := by
  induction j, hij using Nat.le_induction with
  | base => exact .refl _
  | succ j _ ih =>
    obtain ⟨hw, hc⟩ := h.run (Nat.le_of_succ_le hj)
    exact (ih (Nat.le_of_succ_le hj)).trans (h.call_ok hj hw hc).conserves

/-- After each call the manager watches the tasks it was given, each with a container of its cgroup
and its subcgroups; it keeps the containers whose task is there with the same subcgroups; and a
container it watched at any time was cleaned up once if it is not watched any more, else not at
all. -/
theorem watches_and_cleans_up (h : Calls tasks node k) :
    (∀ i < k,
      ((node (i + 1)).manager.containers.values.map Prod.fst).Perm (tasks i) ∧
      (∀ id task container, (node (i + 1)).manager.containers.get? id = some (task, container) →
        id = task.taskId ∧ container.cgroupPath = task.cgroupPath ∧
          (container.subcgroups.map Cgroup.cgroupPath).toFinset = task.subcgroupsPaths.toFinset) ∧
      ∀ id known container, (node i).manager.containers.get? id = some (known, container) →
        (container.ident ∈ (node (i + 1)).manager.idents ↔
          ∃ task ∈ tasks i, task.cgroupPath = container.cgroupPath ∧ task.subcgroupsPaths.toFinset =
            (container.subcgroups.map Cgroup.cgroupPath).toFinset)) ∧
    ∀ i j, i ≤ j → j ≤ k → ∀ ident ∈ (node i).manager.idents,
      (node j).manager.cleanedUp.count ident =
        if ident ∈ (node j).manager.idents then 0 else 1 := by
  refine ⟨fun i hi => ?_, fun i j hij hj ident hident => ?_⟩
  · obtain ⟨hw, hc⟩ := h.run hi.le
    have hsyncs := h.call_ok hi hw hc
    refine ⟨hsyncs.perm, fun id task container hget => ?_, hsyncs.kept⟩
    obtain ⟨hid, hmade⟩ := hsyncs.container id task container hget
    exact ⟨hid, hmade.cgroupPath, hmade.subcgroupsPaths⟩
  · obtain ⟨hnd, -⟩ := (h.run hj).2.nodup h.containers h.cleanedUp
    have hmem : ident ∈ (node j).manager.cleanedUp ++ (node j).manager.idents :=
      (h.conserves hij hj).perm.mem_iff.mpr
        (List.mem_append_left _ (List.mem_append_right _ hident))
    obtain ⟨hndc, -, hdisj⟩ := List.nodup_append.mp hnd
    split
    · case isTrue hin =>
      exact List.count_eq_zero.mpr fun hcleaned => hdisj ident hcleaned ident hin rfl
    · case isFalse hout =>
      obtain hcleaned | hin := List.mem_append.mp hmem
      · exact List.count_eq_one_of_mem hndc hcleaned
      · exact absurd hin hout

end Calls

section

/-- The task of a cgroup, with an id of its own. -/
def taskOf (id cgroupPath : String) (subcgroupsPaths : List String) : Task where
  taskId := id
  cgroupPath := cgroupPath
  subcgroupsPaths := subcgroupsPaths
  labels := ∅

/-- The second task restarts under another id, and then with other subcgroups. -/
def restarting : ℕ → List Task
  | 0 => [taskOf "1" "/a" [], taskOf "2" "/b" ["/b/x"]]
  | 1 => [taskOf "3" "/b" ["/b/x"], taskOf "1" "/c" []]
  | _ => [taskOf "3" "/b" ["/b/y"], taskOf "4" "/c" []]

/-- The node after some calls with the restarting tasks. -/
def restarted : ℕ → Node
  | 0 => {
      manager := {
        containers := ∅
        platform := SmallHost.platform
        allocationConfiguration := {}
        nextIdent := 0
        cleanedUp := [] }
      host := {
        resctrl := (SmallHost.host [("a", "")]).resctrl
        cgroups := Dict.ofItems (["/a", "/b/x", "/b/y", "/c"].map fun path => (path, {})) } }
  | i + 1 => match (syncContainersState (restarting i)).run (restarted i) with
      | .ok _ n => n
      | .error _ n => n

/-- The container of `/a` is cleaned up when its task is gone, that of `/b` only when the subcgroups
have changed. -/
theorem watches_and_cleans_up_restarted :
    (restarted 2).manager.idents = [1, 2] ∧ (restarted 3).manager.idents = [3, 2] ∧
      (restarted 3).manager.cleanedUp.count 0 = 1 ∧ (restarted 3).manager.cleanedUp.count 1 = 1 ∧
      (restarted 3).manager.cleanedUp.count 2 = 0 := by
  have h₂ : (restarted 2).manager.idents = [1, 2] := by decide +kernel
  have h₃ : (restarted 3).manager.idents = [3, 2] := by decide +kernel
  have hcalls : Calls restarting restarted 3 := by
    refine ⟨rfl, rfl, by decide, by decide, fun i hi => ⟨restarted i, rfl, ?_⟩⟩
    have hok : ∀ i < 3, returnsSuch (fun _ _ => true)
        ((syncContainersState (restarting i)).run (restarted i)) = true := by decide +kernel
    obtain ⟨_, n, hrun, -⟩ := exists_of_returnsSuch (hok i hi)
    rw [restarted, hrun]
  have hcount := (watches_and_cleans_up hcalls).2
  have h₁ : 0 ∈ (restarted 1).manager.idents := by decide +kernel
  refine ⟨h₂, h₃, ?_, ?_, ?_⟩
  · rw [hcount 1 3 (by decide) le_rfl 0 h₁, h₃]
    rfl
  · rw [hcount 2 3 (by decide) le_rfl 1 (h₂ ▸ by decide), h₃]
    rfl
  · rw [hcount 2 3 (by decide) le_rfl 2 (h₂ ▸ by decide), h₃]
    rfl

end

end ContainerManager

end Wca
