import Wca.AgentRuns

/-!
# Cleaning up departed containers

A container keeps the group that it was put into by the last call, while a move in between may have
removed that group. As long as every departing container has its mon group where it was put
(`Departs`), cleaning up raises nothing and takes nothing away from the containers that stay. What
carries this over a run is that every process of a watched container is in the mon group of that
container, or in the root group and in no mon group (`Housed`).
-/

namespace Wca

open Py Resctrl ContainerManager

/-- The tasks have ids, cgroups and container names of their own, and no process is in two of
them. -/
structure Apart (tasks : List Task) : Prop where
  taskIds : (tasks.map Task.taskId).Nodup
  cgroupPaths : (tasks.map Task.cgroupPath).Nodup
  names : (tasks.map Task.containerName).Nodup
  cgroups : ∀ task ∈ tasks, ∀ task' ∈ tasks, ∀ path ∈ task.cgroups, path ∈ task'.cgroups → task = task'

/-- The mon group of the container is in the group the container was put into. -/
def Container.InPlace (self : Container) (r : Resctrl) : Prop :=
  ∀ resgroup, self.resgroup = some resgroup → resgroup.name = RESCTRL_ROOT_NAME ∨
    ∃ g, r.groups.get? resgroup.name = some g ∧ self.name ∈ g.monGroups

/-- The containers that have no task any more. -/
def departing (n : Node) (tasks : List Task) : List Container :=
  (findNewAndDeadTasks tasks (n.manager.containers.values.map Prod.snd)).2

/-- The tasks are apart, and the departing containers are in place. -/
structure Departs (n : Node) (tasks : List Task) : Prop where
  apart : Apart tasks
  inPlace : ∀ container ∈ departing n tasks, container.InPlace n.host.resctrl

/-- The mon groups of a name and the places of some processes are as before. -/
structure Spares (name : String) (pids : List Pid) (r r' : Resctrl) : Prop where
  monGroup : ∀ group g, r.groups.get? group = some g → name ∈ g.monGroups →
    ∃ g', r'.groups.get? group = some g' ∧ name ∈ g'.monGroups
  place : ∀ pid ∈ pids, place? r' pid = place? r pid

/-- Cleaning up the departing containers raises nothing, and no control group and no mon group that
belongs to another container is removed. -/
def CleansSafely (n : Node) (tasks : List Task) : Prop :=
  ∃ n₁, (forM (departing n tasks) cleanupContainer).run n = .ok ⟨⟩ n₁ ∧
    ∀ id task container, n.manager.containers.get? id = some (task, container) →
      container ∉ departing n tasks →
        Spares container.name (container.getPids true n.host.resctrl) n.host.resctrl n₁.host.resctrl

/-! ## One departure -/

/-- The process is in the mon group of a name, or in the root group and in no mon group. -/
def AtHome (r : Resctrl) (name : String) (pid : Pid) : Prop :=
  ∀ group x, place? r pid = some (group, x) → x = some name ∨ group = RESCTRL_ROOT_NAME ∧ x = none

theorem Spares.refl (name : String) (pids : List Pid) (r : Resctrl) : Spares name pids r r :=
  ⟨fun _ g hg hm => ⟨g, hg, hm⟩, fun _ _ => rfl⟩

theorem Spares.trans {name : String} {pids : List Pid} {r₁ r₂ r₃ : Resctrl}
    (h : Spares name pids r₁ r₂) (h' : Spares name pids r₂ r₃) : Spares name pids r₁ r₃ := by
  refine ⟨fun group g hg hm => ?_, fun pid hpid => (h'.place pid hpid).trans (h.place pid hpid)⟩
  obtain ⟨g₂, hg₂, hm₂⟩ := h.monGroup group g hg hm
  exact h'.monGroup group g₂ hg₂ hm₂

section Removal

variable {r : Resctrl} {group m name : String} {pids : List Pid}

theorem spares_rmdirMonGroup (hwf : r.WellFormed) (hne : name ≠ m)
    (hhome : ∀ pid ∈ pids, AtHome r name pid) : Spares name pids r (rmdirMonGroup group m r) := by
  refine ⟨fun group' g hg hm => ?_, fun pid hpid => ?_⟩
  · rw [get?_rmdirMonGroup, hg]
    refine ⟨_, rfl, ?_⟩
    split
    · exact List.mem_filter.mpr ⟨hm, decide_eq_true hne⟩
    · exact hm
  · rw [hwf.place?_rmdirMonGroup]
    cases hp : place? r pid with
    | none => rfl
    | some p =>
      rw [Option.map_some, if_neg]
      rintro rfl
      obtain he | ⟨-, he⟩ := hhome pid hpid group (some m) hp
      · exact hne (Option.some.inj he).symm
      · cases he

/-- A control group whose only mon group is of another name holds nobody of this name. -/
theorem spares_rmdirCtrlGroup {g : CtrlGroup} (hwf : r.WellFormed)
    (hroot : group ≠ RESCTRL_ROOT_NAME) (hg : r.groups.get? group = some g) (hm : name ∉ g.monGroups)
    (hhome : ∀ pid ∈ pids, AtHome r name pid) : Spares name pids r (rmdirCtrlGroup group r) := by
  refine ⟨fun group' g' hg' hm' => ?_, fun pid hpid => ?_⟩
  · have hne : group' ≠ group := by
      rintro rfl
      rw [hg] at hg'
      cases hg'
      exact hm hm'
    rw [get?_rmdirCtrlGroup, if_neg hne]
    exact ⟨g', hg', hm'⟩
  · rw [hwf.place?_rmdirCtrlGroup]
    cases hp : place? r pid with
    | none => rfl
    | some p =>
      obtain ⟨group', x⟩ := p
      rw [Option.map_some, if_neg]
      intro he
      dsimp only at he
      subst he
      obtain ⟨g', hg', hmem⟩ := hwf.place pid group' x hp
      rw [hg] at hg'
      cases hg'
      obtain hx | ⟨he, -⟩ := hhome pid hpid group' x hp
      · exact hm (hmem name hx)
      · exact hroot he

end Removal

/-- A container in place is cleaned up without an exception, and the others are spared. -/
theorem Container.InPlace.cleanup {self : Container} {r : Resctrl} (h : self.InPlace r)
    (hwf : r.WellFormed) : ∃ r', self.cleanup.run r = .ok () r' ∧ r'.WellFormed ∧
      ∀ name pids, name ≠ self.name → (∀ pid ∈ pids, AtHome r name pid) → Spares name pids r r' := by
  cases hres : self.resgroup with
  | none =>
    refine ⟨r, ?_, hwf, fun name pids _ _ => .refl name pids r⟩
    rw [Container.cleanup, hres]
    rfl
  | some resgroup =>
    by_cases hrdt : self.platform.rdtInformation.isSome = true
    · have hrun : self.cleanup = resgroup.remove self.name := by
        rw [Container.cleanup, hres]
        exact doIf_of hrdt
      rw [hrun]
      -- the group is there, and if it is not the root group the mon group is in it
      obtain ⟨g, hg, hmon⟩ : ∃ g, r.groups.get? resgroup.name = some g ∧
          (resgroup.name ≠ RESCTRL_ROOT_NAME → self.name ∈ g.monGroups) := by
        obtain hroot | ⟨g, hg, hm⟩ := h resgroup hres
        · obtain ⟨g, hg⟩ := hwf.root
          exact ⟨g, hroot ▸ hg, fun hne => absurd hroot hne⟩
        · exact ⟨g, hg, fun _ => hm⟩
      have hremove := ResGroup.remove_run (m := self.name) hg
      refine ⟨_, hremove, ResGroup.remove_wellFormed hwf hremove, fun name pids hne hhome => ?_⟩
      split
      · rename_i hc
        obtain ⟨m, hm⟩ := List.length_eq_one_iff.mp hc.2
        have hself := hmon hc.1
        rw [hm, List.mem_singleton] at hself
        refine spares_rmdirCtrlGroup hwf hc.1 hg ?_ hhome
        rw [hm, List.mem_singleton, ← hself]
        exact hne
      · exact spares_rmdirMonGroup hwf hne hhome
    · refine ⟨r, ?_, hwf, fun name pids _ _ => .refl name pids r⟩
      rw [Container.cleanup, hres]
      exact doIf_ok_iff.mpr (.inr ⟨hrdt, rfl⟩)

/-! ## All departures of a call -/

theorem cleanupContainer_run {container : Container} {n : Node} {r : Resctrl}
    (h : container.cleanup.run n.host.resctrl = .ok () r) :
    ∃ n', (cleanupContainer container).run n = .ok ⟨⟩ n' ∧ n'.host.resctrl = r := by
  have hhost : (onHost (Host.onResctrl container.cleanup)).run n = .ok ()
      { n with host := { n.host with resctrl := r } } :=
    zoom_ok_iff.mpr ⟨_, zoom_ok_iff.mpr ⟨r, h, rfl⟩, rfl⟩
  refine ⟨{
    manager := { n.manager with cleanedUp := n.manager.cleanedUp ++ [container.ident] }
    host := { n.host with resctrl := r } }, ?_, rfl⟩
  rw [cleanupContainer, bind_of_ok hhost, modify_run]

theorem Spares.inPlace {container : Container} {r r' : Resctrl} (h : Spares container.name [] r r')
    (hin : container.InPlace r) : container.InPlace r' := by
  intro resgroup hres
  obtain hroot | ⟨g, hg, hm⟩ := hin resgroup hres
  · exact .inl hroot
  · exact .inr (h.monGroup resgroup.name g hg hm)

theorem Spares.atHome {name : String} {pids : List Pid} {r r' : Resctrl} (h : Spares name pids r r')
    (hhome : ∀ pid ∈ pids, AtHome r name pid) : ∀ pid ∈ pids, AtHome r' name pid := by
  intro pid hpid group x hp
  rw [h.place pid hpid] at hp
  exact hhome pid hpid group x hp

/-- Containers of different names are cleaned up one after the other. -/
theorem cleanupContainers_run {containers : List Container} {n : Node}
    (hwf : n.host.resctrl.WellFormed) (hnames : (containers.map Container.name).Nodup)
    (hin : ∀ container ∈ containers, container.InPlace n.host.resctrl) :
    ∃ n', (forM containers cleanupContainer).run n = .ok ⟨⟩ n' ∧
      ∀ name pids, name ∉ containers.map Container.name →
        (∀ pid ∈ pids, AtHome n.host.resctrl name pid) →
        Spares name pids n.host.resctrl n'.host.resctrl := by
  induction containers generalizing n with
  | nil => exact ⟨n, rfl, fun name pids _ _ => .refl name pids _⟩
  | cons container containers ih =>
    rw [List.map_cons, List.nodup_cons] at hnames
    obtain ⟨hhead, hin⟩ := List.forall_mem_cons.mp hin
    obtain ⟨r, hcleanup, hwf', hspares⟩ := hhead.cleanup hwf
    obtain ⟨t, hrun, rfl⟩ := cleanupContainer_run hcleanup
    have hin' : ∀ container' ∈ containers, container'.InPlace t.host.resctrl := by
      intro container' hmem
      have hne : container'.name ≠ container.name := fun he =>
        hnames.1 (he ▸ List.mem_map_of_mem hmem)
      exact (hspares container'.name [] hne fun pid hpid => absurd hpid List.not_mem_nil).inPlace
        (hin container' hmem)
    obtain ⟨n', hloop, hspares'⟩ := ih hwf' hnames.2 hin'
    refine ⟨n', forM_cons_ok_iff.mpr ⟨t, hrun, hloop⟩, fun name pids hname hhome => ?_⟩
    rw [List.map_cons, List.mem_cons, not_or] at hname
    have hfirst := hspares name pids hname.1 hhome
    exact hfirst.trans (hspares' name pids hname.2 (hfirst.atHome hhome))

/-! ## What a run keeps -/

/-- The watched containers have names and processes of their own, and their processes are at
home. -/
structure Housed (n : Node) : Prop where
  sound : n.Sound
  names : (n.manager.containers.values.map (·.2.name)).Nodup
  cgroups : ∀ id task container id' task' container',
    n.manager.containers.get? id = some (task, container) →
    n.manager.containers.get? id' = some (task', container') →
    ∀ path ∈ task.cgroups, path ∈ task'.cgroups → id = id'
  home : ∀ id task container, n.manager.containers.get? id = some (task, container) →
    ∀ pid, task.Has n.host.resctrl pid → AtHome n.host.resctrl container.name pid

theorem housed_of_empty {n : Node} (hs : n.Sound) (h : n.manager.containers = ∅) : Housed n := by
  refine ⟨hs, ?_, fun id task container id' task' container' hget => ?_,
    fun id task container hget => ?_⟩
  · rw [h]
    exact List.nodup_nil
  · rw [h] at hget
    cases hget
  · rw [h] at hget
    cases hget

/-- No two tasks that are watched share a process. -/
theorem Housed.id_eq {n : Node} (hs : Housed n) {id id' : TaskId} {task task' : Task}
    {container container' : Container}
    (hget : n.manager.containers.get? id = some (task, container))
    (hget' : n.manager.containers.get? id' = some (task', container')) {r : Resctrl} {pid : Pid}
    (hpid : task.Has r pid) (hpid' : task'.Has r pid) : id = id' := by
  obtain ⟨p, hp, hcgroup⟩ := hpid
  obtain ⟨p', hp', hcgroup'⟩ := hpid'
  rw [hp] at hp'
  cases hp'
  exact hs.cgroups id task container id' task' container' hget hget' p.cgroup hcgroup hcgroup'

/-- A group that is left takes nobody into a mon group. -/
theorem place?_leave {source m : String} {src : CtrlGroup} {r : Resctrl} (hwf : r.WellFormed)
    (pid : Pid) : place? (leave source m src r) pid = place? r pid ∨
      place? (leave source m src r) pid = some (RESCTRL_ROOT_NAME, none) := by
  unfold leave
  split
  · split
    · rename_i hroot
      rw [hwf.place?_rmdirMonGroup]
      cases place? r pid with
      | none => exact .inl rfl
      | some p =>
        rw [Option.map_some]
        split
        · exact .inr (by rw [hroot])
        · exact .inl rfl
    · rw [hwf.place?_rmdirCtrlGroup]
      cases place? r pid with
      | none => exact .inl rfl
      | some p =>
        rw [Option.map_some]
        split
        · exact .inr rfl
        · exact .inl rfl
  · exact .inl rfl

theorem AtHome.of_place {r r' : Resctrl} {name : String} {pid : Pid} (h : AtHome r name pid)
    (hplace : place? r' pid = place? r pid ∨ place? r' pid = some (RESCTRL_ROOT_NAME, none)) :
    AtHome r' name pid := by
  intro group x hp
  obtain hsame | hroot := hplace
  · exact h group x (hsame ▸ hp)
  · rw [hroot] at hp
    cases hp
    exact .inr ⟨rfl, rfl⟩

theorem kinds_moveIfAsked {v : RDTAllocationValue} {r r' : Resctrl} {u : Unit}
    (h : v.moveIfAsked.run r = .ok u r') : kinds r' = kinds r := by
  obtain rfl | ⟨resgroup, source, r₁, src, hadded, -, rfl⟩ := RDTAllocationValue.moveIfAsked_ok h
  · rfl
  · rw [kinds_leave, hadded.kinds]

/-- Performing a value leaves the processes of every watched container at home. -/
theorem Performs.housed {n n' : Node} (h : Performs n n') (hs : Housed n) : Housed n' := by
  have hsound := h.sound hs.sound
  obtain ⟨hwatched, hname, hhost, hrun⟩ := h
  rename_i v id₀ task₀ w w'
  refine ⟨hsound, hs.names, hs.cgroups, ?_⟩
  intro id task container hget pid hpid
  obtain ⟨r, hmove, hsame⟩ := RDTAllocationValue.performAllocations_tree hrun
  rw [hhost] at hmove
  have hkinds : kinds w'.host.resctrl = kinds n.host.resctrl := by
    rw [kinds, hsame.procs]
    exact kinds_moveIfAsked hmove
  rw [Task.has_congr hkinds] at hpid
  suffices hr : AtHome r container.name pid from hr.of_place (.inl (hsame.place? pid))
  have hhome := hs.home id task container hget pid hpid
  obtain rfl | ⟨resgroup, source, r₁, src, hadded, -, rfl⟩ := RDTAllocationValue.moveIfAsked_ok hmove
  · exact hhome
  · refine AtHome.of_place ?_ (place?_leave (hadded.wellFormed hs.sound.tree) pid)
    intro group x hp
    rw [hadded.place] at hp
    split at hp
    · -- a process that is moved is one of the container that is moved
      rename_i hmoved
      have hmade₀ := (hs.sound.container id₀ task₀ v.getPids hwatched).1
      obtain rfl := hs.id_eq hget hwatched hpid (hmade₀.mem_getPids.mp hmoved)
      rw [hget] at hwatched
      cases hwatched
      cases hp
      exact .inl (by rw [hname])
    · exact hhome group x hp

theorem Outside.housed {n : Node} {host : Host} (h : Outside n.host host) (hs : Housed n) :
    Housed { n with host } := by
  refine ⟨h.sound hs.sound, hs.names, hs.cgroups,
    fun id task container hget pid hpid group x hplace => ?_⟩
  obtain ⟨p, hp, hcgroup⟩ := hpid
  rw [place?, hp] at hplace
  cases hplace
  obtain hroot | ⟨pid', p', hp', hsame, hctrl, hmon⟩ := h.place hp
  · exact .inr hroot
  · have hplace' : place? n.host.resctrl pid' = some (p.ctrlGroup, p.monGroup) := by
      rw [place?, hp', ← hctrl, ← hmon]
      rfl
    exact hs.home id task container hget pid' ⟨p', hp', hsame ▸ hcgroup⟩ _ _ hplace'

section Sync

variable {tasks : List Task} {n n₁ n₂ n₃ n₄ n' : Node} {groups : Dict String String}

/-- The processes of the containers gone through are in the mon groups of their containers. -/
def Placed (n : Node) (groups : Dict String String) (ids : List TaskId) (r : Resctrl) : Prop :=
  ∀ id ∈ ids, ∀ task container, n.manager.containers.get? id = some (task, container) →
    ∀ pid, task.Has n.host.resctrl pid →
      place? r pid = some (groupOf groups container, some container.name)

namespace ContainerManager.Phases

variable (h : Phases tasks n n₁ n₂ n₃ n₄ n' groups) (hs : n.Sound) (hapart : Apart tasks)

include h hs hapart

/-- No two containers of the last phase share a process. -/
theorem id_eq {id id' : TaskId} {task task' : Task} {container container' : Container}
    (hget : n₄.manager.containers.get? id = some (task, container))
    (hget' : n₄.manager.containers.get? id' = some (task', container')) {path : String}
    (hpath : path ∈ task.cgroups) (hpath' : path ∈ task'.cgroups) : id = id' := by
  obtain ⟨-, hs₄⟩ := h.before_sync hs hapart.taskIds hapart.cgroupPaths
  have htask := (h.container hs hapart.taskIds hapart.cgroupPaths hget).1
  have htask' := (h.container hs hapart.taskIds hapart.cgroupPaths hget').1
  obtain rfl := hapart.cgroups task htask task' htask' path hpath hpath'
  rw [hs₄.watches.taskId id task container hget, hs₄.watches.taskId id' task container' hget']

/-- After the last phase every process of a task is in the mon group of its container. -/
theorem placed : Placed n₄ groups n₃.manager.containers.keys n'.host.resctrl ∧
    kinds n'.host.resctrl = kinds n₄.host.resctrl := by
  obtain ⟨-, hs₄⟩ := h.before_sync hs hapart.taskIds hapart.cgroupPaths
  have hrule := syncContainers_rule (I := Placed n₄ groups) hs₄ n₃.manager.containers.nodup
    (fun id hid => (h.mem_keys hs hapart.taskIds hapart.cgroupPaths).mp hid) h.sync
    (fun id hid => absurd hid List.not_mem_nil) ?_
  · exact ⟨hrule.1, hrule.2.1⟩
  · intro pre id task container t t' _ hnew hget _ hI hadded id' hid' task' container' hget' pid hpid
    have hmade := (hs₄.container id task container hget).1
    rw [hadded.place]
    split
    · -- a process that is added now is of the container that is added
      rename_i hmem
      obtain ⟨p, hp, hcgroup⟩ := hmade.mem_getPids.mp hmem
      obtain ⟨p', hp', hcgroup'⟩ := hpid
      rw [hp] at hp'
      cases hp'
      obtain rfl := h.id_eq hs hapart hget hget' hcgroup hcgroup'
      rw [hget] at hget'
      cases hget'
      rfl
    · rename_i hmem
      rcases List.mem_append.mp hid' with hpre | hlast
      · exact hI id' hpre task' container' hget' pid hpid
      · cases List.mem_singleton.mp hlast
        rw [hget] at hget'
        cases hget'
        exact absurd (hmade.mem_getPids.mpr hpid) hmem

end ContainerManager.Phases

/-- After a call whose tasks are apart the containers are housed, whatever they were before. -/
theorem syncContainersState_housed (hs : n.Sound) (hapart : Apart tasks)
    (h : (syncContainersState tasks).run n = .ok ⟨⟩ n') : Housed n' := by
  have hsound := syncContainersState_sound hs hapart.taskIds hapart.cgroupPaths h
  obtain ⟨n₁, n₂, n₃, n₄, groups, hphases⟩ := syncContainersState_phases h
  obtain ⟨-, hs₄⟩ := hphases.before_sync hs hapart.taskIds hapart.cgroupPaths
  have hsame := syncContainers_ok hs₄.watches hphases.sync
  have hbefore : ∀ id task container, n'.manager.containers.get? id = some (task, container) →
      task ∈ tasks ∧ ∃ container', n₄.manager.containers.get? id = some (task, container') ∧
        container'.name = container.name := by
    intro id task container hget
    obtain ⟨resgroup, hget'⟩ := get?_of_withoutResgroups hsame.symm hget
    exact ⟨(hphases.container hs hapart.taskIds hapart.cgroupPaths hget').1, _, hget', rfl⟩
  refine ⟨hsound, ?_, fun id task container id' task' container' hget hget' path hpath hpath' => ?_,
    fun id task container hget pid hpid group x hplace => ?_⟩
  · have hperm : (n'.manager.containers.values.map Prod.fst).Perm tasks := by
      have hcovers := hphases.covers hs.watches hapart.taskIds hapart.cgroupPaths
      have hrefresh := refreshContainers_ok (hcovers.watches hapart.cgroupPaths) hphases.refresh
      rw [values_of_withoutResgroups hsame, hrefresh.1.values]
      exact hcovers.perm
    have hnames := (hperm.map Task.containerName).nodup_iff.mpr hapart.names
    rw [List.map_map] at hnames
    refine (List.map_congr_left fun p hp => ?_) ▸ hnames
    obtain ⟨id, hid⟩ := Dict.mem_values.mp hp
    obtain ⟨hmade, hnamed⟩ := hsound.container id p.1 p.2 (Dict.get?_eq_some_iff.mpr hid)
    rw [Function.comp_apply, Task.containerName, ← hmade.cgroupPath, ← hnamed.name]
  · obtain ⟨htask, -⟩ := hbefore id task container hget
    obtain ⟨htask', -⟩ := hbefore id' task' container' hget'
    obtain rfl := hapart.cgroups task htask task' htask' path hpath hpath'
    rw [hsound.watches.taskId id task container hget,
      hsound.watches.taskId id' task container' hget']
  · obtain ⟨-, container', hget', hname⟩ := hbefore id task container hget
    obtain ⟨hplaced, hkinds⟩ := hphases.placed hs hapart
    have hkey := (hphases.mem_keys hs hapart.taskIds hapart.cgroupPaths).mpr
      (Dict.mem_keys_iff_get?.mpr ⟨_, hget'⟩)
    rw [hplaced id hkey task container' hget' pid ((Task.has_congr hkinds).mp hpid)] at hplace
    cases hplace
    exact .inl (by rw [hname])

end Sync

theorem Housed.cleansSafely {n : Node} {tasks : List Task} (hs : Housed n)
    (hok : Departs n tasks) : CleansSafely n tasks := by
  have hsub : (departing n tasks).Sublist (n.manager.containers.values.map Prod.snd) :=
    List.filter_sublist
  have hnames : ((n.manager.containers.values.map Prod.snd).map Container.name).Nodup := by
    rw [List.map_map]
    exact hs.names
  obtain ⟨n₁, hrun, hspares⟩ := cleanupContainers_run hs.sound.tree (hnames.sublist (hsub.map _))
    hok.inPlace
  refine ⟨n₁, hrun, fun id task container hget hstays => hspares _ _ (fun hmem => ?_) ?_⟩
  · obtain ⟨container', hdeparts, hname⟩ := List.mem_map.mp hmem
    have hwatched : container ∈ n.manager.containers.values.map Prod.snd :=
      List.mem_map.mpr ⟨(task, container),
        Dict.mem_values.mpr ⟨id, Dict.get?_eq_some_iff.mp hget⟩, rfl⟩
    have he := List.inj_on_of_nodup_map hnames (hsub.subset hdeparts) hwatched hname
    exact hstays (he ▸ hdeparts)
  · intro pid hpid
    have hmade := (hs.sound.container id task container hget).1
    exact hs.home id task container hget pid (hmade.mem_getPids.mp hpid)

/-- **Safe cleanup.** In a run whose calls find each departing container where it was put, cleaning
up raises nothing and removes nothing that belongs to another container. -/
theorem runs_clean_safely {n₀ n : Node} {tasks : List Task} (hs : n₀.Sound)
    (hempty : n₀.manager.containers = ∅) (hrun : Runs Departs n₀ n) (hok : Departs n tasks) :
    CleansSafely n tasks := by
  refine Housed.cleansSafely (hrun.invariant (housed_of_empty hs hempty) ?_ ?_ ?_) hok
  · intro n n' tasks hn hok h
    exact syncContainersState_housed hn.sound hok.apart h
  · intro n n' hn h
    exact h.housed hn
  · intro n host hn h
    exact h.housed hn

section

open SmallHost

/-- The value that moves a container. -/
def movingValue (container : Container) (source target : String) : RDTAllocationValue where
  containerName := container.name
  rdtAllocation := ⟨some target, none, none⟩
  resgroup := some ⟨target⟩
  getPids := container
  platformSockets := 1
  rdtInformation := rdtInformation
  rdtGroups := 0
  sourceResgroup := some ⟨source⟩

/-- The container of the task `a` moves. -/
def moved (source target : String) (n : Node) : Node :=
  match n.manager.containers.get? "a" with
  | none => n
  | some (_, container) =>
    match (movingValue container source target).performAllocations.run ⟨heap, n.host, []⟩ with
    | .ok _ w => { n with host := w.host }
    | .error _ _ => n

/-- A call with the task `a`. -/
def synced (n : Node) : Node :=
  match (syncContainersState [SmallHost.task "a"]).run n with
  | .ok _ n => n
  | .error _ n => n

/-- Nothing is watched yet, and the process of the task `a` is in the root group. -/
def unwatched : Node := starting (host [("a", "")])

theorem unwatched_sound : unwatched.Sound :=
  starting_sound (wellFormed_of_items (by decide) (by decide) (by decide))

theorem apart_a : Apart [SmallHost.task "a"] := by
  refine ⟨by decide, by decide, by decide, fun task htask task' htask' _ _ _ => ?_⟩
  rw [List.mem_singleton.mp htask, List.mem_singleton.mp htask']

theorem run_synced {n : Node}
    (h : returnsSuch (fun _ _ => true) ((syncContainersState [SmallHost.task "a"]).run n) = true) :
    (syncContainersState [SmallHost.task "a"]).run n = .ok ⟨⟩ (synced n) := by
  obtain ⟨_, n', hrun, -⟩ := exists_of_returnsSuch h
  rw [synced, hrun]

theorem performs_moved {source target : String} {n : Node}
    (h : (n.manager.containers.get? "a").any (fun p => returnsSuch (fun _ _ => true)
      ((movingValue p.2 source target).performAllocations.run ⟨heap, n.host, []⟩)) = true) :
    Performs n (moved source target n) := by
  obtain ⟨⟨task, container⟩, hget, hreturns⟩ := (Option.any_eq_true _ _).mp h
  obtain ⟨_, w, hrun, -⟩ := exists_of_returnsSuch hreturns
  have hmoved : moved source target n = { n with host := w.host } := by
    rw [moved, hget]
    dsimp only
    rw [hrun]
  rw [hmoved]
  exact .mk (v := movingValue container source target) hget rfl rfl hrun

/-- The tasks of the first calls. -/
theorem departs_a {n : Node} (h : (departing n [SmallHost.task "a"]).isEmpty = true) :
    Departs n [SmallHost.task "a"] := by
  refine ⟨apart_a, fun container hmem => ?_⟩
  rw [List.isEmpty_iff.mp h] at hmem
  cases hmem

/-- The container `a` was found in the group `g`. -/
def foundInG : Node := synced (moved "" "g" (synced unwatched))

/-- It departs from there. -/
theorem runs_clean_safely_foundInG : CleansSafely foundInG [] := by
  have hrun : Runs Departs unwatched foundInG := by
    refine .sync (.performs (.sync .start (departs_a ?_) (run_synced ?_)) (performs_moved ?_))
      (departs_a ?_) (run_synced ?_) <;> decide +kernel
  refine runs_clean_safely unwatched_sound rfl hrun ⟨?_, fun container hmem => ?_⟩
  · exact ⟨List.nodup_nil, List.nodup_nil, List.nodup_nil, fun task htask => absurd htask List.not_mem_nil⟩
  · have hall : (departing foundInG []).all (fun c =>
        decide (c.name = "a" ∧ c.resgroup = some ⟨"g"⟩)) = true := by decide +kernel
    obtain ⟨hname, hres⟩ := of_decide_eq_true (List.all_eq_true.mp hall container hmem)
    have hg : (foundInG.host.resctrl.groups.get? "g").any (fun g => decide ("a" ∈ g.monGroups)) = true := by
      decide +kernel
    obtain ⟨g, hget, hm⟩ := (Option.any_eq_true _ _).mp hg
    intro resgroup hres'
    rw [hres] at hres'
    cases hres'
    exact .inr ⟨g, hget, hname ▸ of_decide_eq_true hm⟩

/-- The container `a` left the group `g`, which was removed, and departs before the next call. -/
def leftG : Node := moved "g" "h" foundInG

/-- Cleaning up raises then, because the mon groups of `g` are listed. -/
theorem cleanup_raises_leftG : Runs (fun _ tasks => Apart tasks) unwatched leftG ∧
    (∃ e n, (forM (departing leftG []) cleanupContainer).run leftG = .error e n ∧
      e = .builtin (.FileNotFoundError "g")) ∧ ¬ CleansSafely leftG [] := by
  have hraises : ∃ e n, (forM (departing leftG []) cleanupContainer).run leftG = .error e n ∧
      e = .builtin (.FileNotFoundError "g") := by
    obtain ⟨e, n, hrun, he⟩ := exists_of_raisesSuch
      (p := fun e : Exc => decide (e = .builtin (.FileNotFoundError "g")))
      (r := (forM (departing leftG []) cleanupContainer).run leftG) (by decide +kernel)
    exact ⟨e, n, hrun, of_decide_eq_true he⟩
  refine ⟨?_, hraises, ?_⟩
  · refine .performs (.sync (.performs (.sync .start apart_a (run_synced ?_)) (performs_moved ?_))
      apart_a (run_synced ?_)) (performs_moved ?_) <;> decide +kernel
  · rintro ⟨n, hrun, -⟩
    obtain ⟨e, n', hraise, -⟩ := hraises
    rw [hraise] at hrun
    cases hrun

end

end Wca
