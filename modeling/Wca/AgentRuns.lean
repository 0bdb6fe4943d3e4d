import Wca.GroupTree
import Wca.Watching

/-!
# Runs of the agent

A run goes on by calls of `syncContainersState`, by performing values of watched containers, and by
what else happens to processes and cgroups. What one call does to the tree of groups is stated phase
by phase: cleaning up, sweeping and refreshing only remove directories, and then every container has
its pids added to one group (`Assigns`).
-/

namespace Wca

open Py Resctrl

/-! ## The processes of a task -/

/-- The cgroups whose processes are those of the task. -/
def Task.cgroups (self : Task) : List String :=
  if self.subcgroupsPaths = [] then [self.cgroupPath] else self.subcgroupsPaths

/-- The name of the task's container. -/
def Task.containerName (self : Task) : String := sanitizeCgroupPath self.cgroupPath

/-- The process runs in a cgroup of the task. -/
def Task.Has (self : Task) (r : Resctrl) (pid : Pid) : Prop :=
  ∃ p, r.procs.get? pid = some p ∧ p.cgroup ∈ self.cgroups

theorem Task.has_congr {self : Task} {r r' : Resctrl} (h : kinds r' = kinds r) {pid : Pid} :
    self.Has r' pid ↔ self.Has r pid := by
  have hkinds : ∀ {r : Resctrl}, self.Has r pid ↔
      ∃ k ∈ kinds r, k.1 = pid ∧ k.2.1 ∈ self.cgroups := by
    intro r
    constructor
    · rintro ⟨p, hp, hcgroup⟩
      exact ⟨_, List.mem_map_of_mem (Dict.get?_eq_some_iff.mp hp), rfl, hcgroup⟩
    · rintro ⟨k, hk, rfl, hcgroup⟩
      obtain ⟨⟨pid, p⟩, hp, rfl⟩ := List.mem_map.mp hk
      exact ⟨p, Dict.get?_eq_some_iff.mpr hp, hcgroup⟩
  rw [hkinds, hkinds, h]

theorem Cgroup.mem_getPids {self : Cgroup} {r : Resctrl} {pid : Pid} :
    pid ∈ self.getPids true r ↔ ∃ p, r.procs.get? pid = some p ∧ p.cgroup = self.cgroupPath := by
  rw [Cgroup.getPids, List.mem_map]
  constructor
  · rintro ⟨⟨pid, p⟩, hp, rfl⟩
    obtain ⟨hp, hcgroup⟩ := List.mem_filter.mp hp
    exact ⟨p, Dict.get?_eq_some_iff.mpr hp, (of_decide_eq_true hcgroup).1⟩
  · rintro ⟨p, hp, hcgroup⟩
    refine ⟨(pid, p), List.mem_filter.mpr ⟨Dict.get?_eq_some_iff.mp hp, ?_⟩, rfl⟩
    exact decide_eq_true ⟨hcgroup, .inl rfl⟩

/-- The pids of the container that was made for a task. -/
theorem Container.MadeFor.mem_getPids {self : Container} {task : Task} (h : self.MadeFor task)
    {r : Resctrl} {pid : Pid} : pid ∈ self.getPids true r ↔ task.Has r pid := by
  have hsubs : ∀ path, path ∈ self.subcgroups.map Cgroup.cgroupPath ↔ path ∈ task.subcgroupsPaths := by
    intro path
    have hset := h.subcgroupsPaths
    rw [← List.mem_toFinset, ← List.mem_toFinset]
    exact Finset.ext_iff.mp hset path
  have hnil : self.subcgroups = [] ↔ task.subcgroupsPaths = [] := by
    rw [← List.map_eq_nil_iff (f := Cgroup.cgroupPath), List.eq_nil_iff_forall_not_mem,
      List.eq_nil_iff_forall_not_mem]
    exact forall_congr' fun path => not_congr (hsubs path)
  unfold Container.getPids Task.Has Task.cgroups
  by_cases hsub : self.subcgroups = []
  · have hpath : self.cgroup.cgroupPath = task.cgroupPath := h.cgroupPath
    rw [if_pos hsub, if_pos (hnil.mp hsub), Cgroup.mem_getPids, hpath]
    simp only [List.mem_singleton]
  · rw [if_neg hsub, if_neg fun hc => hsub (hnil.mpr hc), List.mem_flatMap]
    constructor
    · rintro ⟨cgroup, hcgroup, hpid⟩
      obtain ⟨p, hp, hpath⟩ := Cgroup.mem_getPids.mp hpid
      exact ⟨p, hp, (hsubs p.cgroup).mp (hpath ▸ List.mem_map_of_mem hcgroup)⟩
    · rintro ⟨p, hp, hpath⟩
      obtain ⟨cgroup, hcgroup, he⟩ := List.mem_map.mp ((hsubs p.cgroup).mpr hpath)
      exact ⟨cgroup, hcgroup, Cgroup.mem_getPids.mpr ⟨p, hp, he.symm⟩⟩

/-- A manager on a platform with RDT and the tree it works on: each container is that of its
task. -/
structure Node.Sound (n : Node) : Prop where
  watches : n.manager.Watches
  rdt : n.manager.platform.rdtInformation.isSome = true
  container : ∀ id task container, n.manager.containers.get? id = some (task, container) →
    container.MadeFor task ∧ container.IsNamed n.manager.platform
  tree : n.host.resctrl.WellFormed

section

open SmallHost

/-- An agent that watches nothing yet. -/
def starting (host : Host) : Node where
  manager := {
    containers := ∅
    platform := platform
    allocationConfiguration := {}
    nextIdent := 0
    cleanedUp := [] }
  host := host

theorem starting_sound {host : Host} (h : host.resctrl.WellFormed) : (starting host).Sound := by
  refine ⟨⟨fun id task container hget => ?_, fun id task container hget => ?_, List.nodup_nil⟩, rfl,
    fun id task container hget => ?_, h⟩
  · cases hget
  · cases hget
  · cases hget

end

/-! ## Steps and runs -/

/-- What else happens: processes end, start in the root group or where their parent is, and cgroups
come and go. -/
inductive Outside (h : Host) : Host → Prop
  | ends (pid : Pid) :
      Outside h { h with resctrl := { h.resctrl with procs := h.resctrl.procs.erase pid } }
  | starts (pid : Pid) (p : Proc) (hnew : pid ∉ h.resctrl.procs)
      (hctrl : p.ctrlGroup = RESCTRL_ROOT_NAME) (hmon : p.monGroup = none) :
      Outside h { h with resctrl := { h.resctrl with procs := h.resctrl.procs.set pid p } }
  | forks (pid parent : Pid) (p : Proc) (leader : Bool) (hnew : pid ∉ h.resctrl.procs)
      (hparent : h.resctrl.procs.get? parent = some p) :
      Outside h { h with resctrl := { h.resctrl with
        procs := h.resctrl.procs.set pid { p with leader } } }
  | cgroups (cgroups : Cgroups) : Outside h { h with cgroups }

/-- A value of a watched container is performed. -/
inductive Performs (n : Node) : Node → Prop
  | mk {v : RDTAllocationValue} {id : TaskId} {task : Task} {w w' : World}
      (hwatched : n.manager.containers.get? id = some (task, v.getPids))
      (hname : v.containerName = v.getPids.name) (hhost : w.host = n.host)
      (hrun : v.performAllocations.run w = .ok () w') : Performs n { n with host := w'.host }

/-- The states that are reached when every call meets a condition. -/
inductive Runs (ok : Node → List Task → Prop) (n₀ : Node) : Node → Prop
  | start : Runs ok n₀ n₀
  | sync {n n' : Node} {tasks : List Task} (hrun : Runs ok n₀ n) (hok : ok n tasks)
      (h : (ContainerManager.syncContainersState tasks).run n = .ok ⟨⟩ n') : Runs ok n₀ n'
  | performs {n n' : Node} (hrun : Runs ok n₀ n) (h : Performs n n') : Runs ok n₀ n'
  | outside {n : Node} {host : Host} (hrun : Runs ok n₀ n) (h : Outside n.host host) :
      Runs ok n₀ { n with host }

/-- What holds at first and is kept by every step holds in every state reached. -/
theorem Runs.invariant {ok : Node → List Task → Prop} {I : Node → Prop} {n₀ n : Node}
    (h0 : I n₀) (h : Runs ok n₀ n)
    (hsync : ∀ n n' tasks, I n → ok n tasks →
      (ContainerManager.syncContainersState tasks).run n = .ok ⟨⟩ n' → I n')
    (hperforms : ∀ n n', I n → Performs n n' → I n')
    (houtside : ∀ n host, I n → Outside n.host host → I { n with host }) : I n := by
  induction h with
  | start => exact h0
  | sync _ hok h ih => exact hsync _ _ _ ih hok h
  | performs _ h ih => exact hperforms _ _ ih h
  | outside _ h ih => exact houtside _ _ ih h

/-! ## Steps between calls -/

namespace Outside

variable {h h' : Host}

theorem groups_eq (ho : Outside h h') : h'.resctrl.groups = h.resctrl.groups := by
  cases ho <;> rfl

/-- A process is where it was, in the root group, or where another process of its cgroup is. -/
theorem place (ho : Outside h h') {pid : Pid} {p : Proc} (hp : h'.resctrl.procs.get? pid = some p) :
    (p.ctrlGroup = RESCTRL_ROOT_NAME ∧ p.monGroup = none) ∨
      ∃ pid' p', h.resctrl.procs.get? pid' = some p' ∧ p'.cgroup = p.cgroup ∧
        p'.ctrlGroup = p.ctrlGroup ∧ p'.monGroup = p.monGroup := by
  cases ho with
  | ends pid' =>
    have hget := Dict.get?_erase.symm.trans hp
    split at hget
    · cases hget
    · exact .inr ⟨pid, p, hget, rfl, rfl, rfl⟩
  | starts pid' p' hnew hctrl hmon =>
    have hget := Dict.get?_set.symm.trans hp
    split at hget
    · cases hget
      exact .inl ⟨hctrl, hmon⟩
    · exact .inr ⟨pid, p, hget, rfl, rfl, rfl⟩
  | forks pid' parent p' leader hnew hparent =>
    have hget := Dict.get?_set.symm.trans hp
    split at hget
    · cases hget
      exact .inr ⟨parent, p', hparent, rfl, rfl, rfl⟩
    · exact .inr ⟨pid, p, hget, rfl, rfl, rfl⟩
  | cgroups cgroups => exact .inr ⟨pid, p, hp, rfl, rfl, rfl⟩

theorem wellFormed (ho : Outside h h') (hwf : h.resctrl.WellFormed) : h'.resctrl.WellFormed := by
  have hgroups := ho.groups_eq
  refine ⟨hgroups ▸ hwf.root, fun name g hg => hwf.nodup name g (hgroups ▸ hg),
    fun pid name x hplace => ?_⟩
  obtain ⟨p, hp, he⟩ := Option.map_eq_some_iff.mp hplace
  cases he
  rw [hgroups]
  obtain ⟨hroot, hmon⟩ | ⟨pid', p', hp', -, hctrl, hmon⟩ := ho.place hp
  · rw [hroot, hmon]
    obtain ⟨g, hg⟩ := hwf.root
    exact ⟨g, hg, fun m hm => absurd hm.symm (Option.some_ne_none m)⟩
  · rw [← hctrl, ← hmon]
    exact hwf.place pid' p'.ctrlGroup p'.monGroup (by rw [Resctrl.place?, hp']; rfl)

end Outside

namespace RDTAllocationValue

variable {v : RDTAllocationValue} {r r' : Resctrl} {u : Unit}

/-- A move, when there is one, adds the pids to a group and leaves another one. -/
theorem moveIfAsked_ok (h : v.moveIfAsked.run r = .ok u r') :
    r' = r ∨ ∃ resgroup source r₁ src,
      Added resgroup (v.getPids.getPids true r) v.containerName r r₁ ∧
        r₁.groups.get? source = some src ∧ r' = leave source v.containerName src r₁ := by
  unfold moveIfAsked at h
  split at h
  · rename_i source _
    cases hres : v.resgroup with
    | none =>
      unfold moveToGroup at h
      rw [hres] at h
      cases h
    | some resgroup =>
      obtain ⟨r₁, src, hadded, hsrc, hleave⟩ := moveToGroup_ok hres h
      exact .inr ⟨resgroup.name, source.name, r₁, src, hadded, hsrc, hleave⟩
  · cases h
    exact .inl rfl

end RDTAllocationValue

theorem leave_wellFormed {source m : String} {src : CtrlGroup} {r : Resctrl} (hwf : r.WellFormed) :
    (leave source m src r).WellFormed := by
  unfold leave
  split
  · split
    · exact hwf.rmdirMonGroup
    · rename_i hroot
      exact hwf.rmdirCtrlGroup hroot
  · exact hwf

theorem Performs.wellFormed {n n' : Node} (h : Performs n n') (hwf : n.host.resctrl.WellFormed) :
    n'.host.resctrl.WellFormed := by
  obtain ⟨-, -, hhost, hrun⟩ := h
  obtain ⟨r, hmove, hsame⟩ := RDTAllocationValue.performAllocations_tree hrun
  rw [hhost] at hmove
  refine Resctrl.WellFormed.sameTree ?_ hsame
  obtain rfl | ⟨resgroup, source, r₁, src, hadded, -, rfl⟩ := RDTAllocationValue.moveIfAsked_ok hmove
  · exact hwf
  · exact leave_wellFormed (hadded.wellFormed hwf)

theorem Performs.sound {n n' : Node} (h : Performs n n') (hs : n.Sound) : n'.Sound := by
  have hwf := h.wellFormed hs.tree
  obtain ⟨-, -, -, -⟩ := h
  exact ⟨hs.watches, hs.rdt, hs.container, hwf⟩

theorem Outside.sound {n : Node} {host : Host} (h : Outside n.host host) (hs : n.Sound) :
    Node.Sound { n with host } :=
  ⟨hs.watches, hs.rdt, hs.container, h.wellFormed hs.tree⟩

/-! ## One call -/

/-- Removing the directories of a container. -/
theorem Container.cleanup_tree {self : Container} {r r' : Resctrl} {u : Unit} (hwf : r.WellFormed)
    (h : self.cleanup.run r = .ok u r') : Reduced r r' ∧ r'.WellFormed := by
  unfold Container.cleanup at h
  split at h
  · cases h
    exact ⟨.refl r, hwf⟩
  · obtain ⟨-, hremove⟩ | ⟨-, rfl⟩ := doIf_ok_iff.mp h
    · exact ⟨ResGroup.remove_reduced hwf hremove, ResGroup.remove_wellFormed hwf hremove⟩
    · exact ⟨.refl r', hwf⟩

/-- Looking at one mon group removes it, or its control group with it, or nothing. -/
theorem cleanMonGroup_ok {name m : String} {monGroups : List String} {r r' : Resctrl} {u : Unit}
    (h : (cleanMonGroup name monGroups m).run r = .ok u r') :
    r' = r ∨ monGroupPids name m r = [] ∧
      (name ≠ RESCTRL_ROOT_NAME ∧ monGroups.length = 1 ∧ r' = rmdirCtrlGroup name r ∨
        r' = rmdirMonGroup name m r) := by
  have hrun := h
  unfold cleanMonGroup at h
  rw [bind_of_ok (get_run r)] at h
  split at h
  · cases h
  · rename_i g hg
    obtain ⟨_, _, hthere, -⟩ := bind_ok_iff.mp h
    obtain ⟨-, hthrow⟩ | ⟨hm, -⟩ := doIf_ok_iff.mp hthere
    · cases hthrow
    · rw [cleanMonGroup_run hg (not_not.mp hm)] at hrun
      cases hrun
      by_cases hempty : monGroupPids name m r = []
      · refine .inr ⟨hempty, ?_⟩
        rw [if_pos hempty]
        by_cases hone : name ≠ "" ∧ monGroups.length = 1
        · rw [if_pos hone]
          exact .inl ⟨hone.1, hone.2, rfl⟩
        · rw [if_neg hone]
          exact .inr rfl
      · rw [if_neg hempty]
        exact .inl rfl

theorem cleanTasklessGroups_tree {relation : Dict String (List String)} {r r' : Resctrl} {u : Unit}
    (hwf : r.WellFormed) (h : (cleanTasklessGroups relation).run r = .ok u r') :
    Reduced r r' ∧ r'.WellFormed := by
  refine forM_ok_inv (I := fun t => Reduced r t ∧ t.WellFormed) h ⟨.refl r, hwf⟩ ?_
  intro p _ t t' ht hgroup
  refine forM_ok_inv (I := fun t => Reduced r t ∧ t.WellFormed) hgroup ht ?_
  rintro m - t₁ t₂ ⟨hred, hwf₁⟩ hclean
  obtain rfl | ⟨-, ⟨hname, -, rfl⟩ | rfl⟩ := cleanMonGroup_ok hclean
  · exact ⟨hred, hwf₁⟩
  · exact ⟨hred.trans hwf₁.reduced_rmdirCtrlGroup, hwf₁.rmdirCtrlGroup hname⟩
  · exact ⟨hred.trans hwf₁.reduced_rmdirMonGroup, hwf₁.rmdirMonGroup⟩

namespace ContainerManager

variable {tasks : List Task} {n n₁ n₂ n₃ n₄ n' : Node} {groups : Dict String String}

theorem cleanupContainer_host {container : Container}
    (h : (cleanupContainer container).run n = .ok ⟨⟩ n') :
    container.cleanup.run n.host.resctrl = .ok () n'.host.resctrl := by
  obtain ⟨_, _, hcleanup, h⟩ := bind_ok_iff.mp h
  obtain ⟨_, hhost, rfl⟩ := zoom_ok_iff.mp hcleanup
  obtain ⟨r, hr, rfl⟩ := zoom_ok_iff.mp hhost
  cases h
  exact hr

theorem sweepResctrl_host (hrdt : n.manager.platform.rdtInformation.isSome = true)
    (h : sweepResctrl.run n = .ok groups n') :
    ∃ relation relation', readMonGroupsRelation n.host.resctrl = .ok relation ∧
      (cleanTasklessGroups relation).run n.host.resctrl = .ok () n'.host.resctrl ∧
      readMonGroupsRelation n'.host.resctrl = .ok relation' ∧
      groups = containerNameToCtrlGroup relation' := by
  obtain ⟨_, _, hget, h⟩ := bind_ok_iff.mp h
  cases hget
  split at h
  · rename_i hnone
    rw [hnone] at hrdt
    cases hrdt
  · obtain ⟨_, t₁, hassert, h₁⟩ := bind_ok_iff.mp h
    obtain ⟨-, rfl⟩ := run_liftM_ok_iff.mp hassert
    obtain ⟨relation, t₂, hread, h₂⟩ := bind_ok_iff.mp h₁
    obtain ⟨hbefore, rfl⟩ := run_liftM_ok_iff.mp hread
    obtain ⟨_, t₃, hclean, h₃⟩ := bind_ok_iff.mp h₂
    obtain ⟨_, hhost, rfl⟩ := zoom_ok_iff.mp hclean
    obtain ⟨r, hr, rfl⟩ := zoom_ok_iff.mp hhost
    obtain ⟨_, t₄, hget, h₄⟩ := bind_ok_iff.mp h₃
    cases hget
    obtain ⟨relation', t₅, hread', h₅⟩ := bind_ok_iff.mp h₄
    obtain ⟨hafter, rfl⟩ := run_liftM_ok_iff.mp hread'
    cases h₅
    exact ⟨relation, relation', hbefore, hr, hafter, rfl⟩

theorem createNewContainers_host {tasks : List Task}
    (h : (forM tasks createNewContainer).run n = .ok ⟨⟩ n') : n'.host = n.host := by
  refine forM_ok_inv (I := fun t => t.host = n.host) h rfl fun task _ t t' ht hcreate => ?_
  obtain ⟨container, -, -, rfl⟩ := createNewContainer_ok hcreate
  exact ht

/-- A refresh cleans the container up or does nothing to the file systems. -/
theorem refreshContainer_host {id : TaskId} (h : (refreshContainer id).run n = .ok ⟨⟩ n') :
    n'.host = n.host ∨ ∃ container : Container,
      container.cleanup.run n.host.resctrl = .ok () n'.host.resctrl := by
  obtain ⟨_, _, hget, h⟩ := bind_ok_iff.mp h
  cases hget
  split at h
  · cases h
    exact .inl rfl
  · rename_i task container _
    obtain ⟨-, h⟩ | ⟨-, rfl⟩ := doIf_ok_iff.mp h
    · obtain ⟨_, t, hcleanup, hcreate⟩ := bind_ok_iff.mp h
      obtain ⟨container', -, -, rfl⟩ := createNewContainer_ok hcreate
      have hrun := cleanupContainer_host hcleanup
      exact .inr ⟨container, hrun⟩
    · exact .inl rfl

/-- The group a container is put into. -/
def groupOf (groups : Dict String String) (container : Container) : String :=
  (groups.get? container.name).getD RESCTRL_ROOT_NAME

/-- The pids of the container are added to its group, and the other containers stay. -/
theorem syncContainer_adds {id : TaskId} {task : Task} {container : Container} (hs : n.Sound)
    (hget : n.manager.containers.get? id = some (task, container))
    (h : (syncContainer groups id).run n = .ok ⟨⟩ n') :
    Added (groupOf groups container) (container.getPids true n.host.resctrl) container.name
      n.host.resctrl n'.host.resctrl ∧
      ∀ id', id' ≠ id → n'.manager.containers.get? id' = n.manager.containers.get? id' := by
  obtain ⟨_, _, hget', h⟩ := bind_ok_iff.mp h
  cases hget'
  rw [hget] at h
  dsimp only at h
  rw [if_pos hs.rdt] at h
  obtain ⟨_, t, hassign, hsync⟩ := bind_ok_iff.mp h
  cases hassign
  obtain ⟨_, hhost, rfl⟩ := zoom_ok_iff.mp hsync
  obtain ⟨r, hr, rfl⟩ := zoom_ok_iff.mp hhost
  refine ⟨?_, fun id' hne => ?_⟩
  · rw [Container.sync, bind_of_ok (get_run _)] at hr
    have hrdt : container.platform.rdtInformation.isSome = true := by
      rw [(hs.container id task container hget).2.platform]
      exact hs.rdt
    obtain ⟨-, hadd⟩ | ⟨hno, -⟩ := doIf_ok_iff.mp hr
    · exact ResGroup.addPids_ok (fun pid => place?_isSome_of_mem_getPids) hadd
    · exact absurd hrdt hno
  · dsimp only
    rw [assign, Dict.get?_set_of_ne]
    rw [← hs.watches.taskId id task container hget]
    exact hne

theorem sound_of_withoutResgroups (hs : n.Sound)
    (h : n'.manager.withoutResgroups = n.manager.withoutResgroups) (htree : n'.host.resctrl.WellFormed) :
    n'.Sound := by
  have hplatform : n'.manager.platform = n.manager.platform := congrArg (fun m => m.platform) h
  refine ⟨hs.watches.of_withoutResgroups h, by rw [hplatform]; exact hs.rdt,
    fun id task container hget => ?_, htree⟩
  obtain ⟨resgroup, hget'⟩ := get?_of_withoutResgroups h.symm hget
  obtain ⟨hmade, hnamed⟩ := hs.container id task { container with resgroup } hget'
  rw [hplatform]
  exact ⟨⟨hmade.cgroupPath, hmade.subcgroupsPaths⟩, hnamed.name, hnamed.platform⟩

/-- The rule of the last phase: an invariant over the containers gone through and the tree. -/
theorem syncContainers_rule {ids : List TaskId} {I : List TaskId → Resctrl → Prop} (hs : n.Sound)
    (hids : ids.Nodup) (hin : ∀ id ∈ ids, id ∈ n.manager.containers.keys)
    (h : (forM ids (syncContainer groups)).run n = .ok ⟨⟩ n') (h0 : I [] n.host.resctrl)
    (hstep : ∀ pre id task container t t', id ∈ ids → id ∉ pre →
      n.manager.containers.get? id = some (task, container) → kinds t = kinds n.host.resctrl →
      I pre t → Added (groupOf groups container) (container.getPids true n.host.resctrl)
        container.name t t' → I (pre ++ [id]) t') :
    I ids n'.host.resctrl ∧ kinds n'.host.resctrl = kinds n.host.resctrl ∧ n'.Sound := by
  suffices hgo : ∀ (post pre : List TaskId) (t : Node), ids = pre ++ post → t.Sound →
      (∀ id ∈ post, t.manager.containers.get? id = n.manager.containers.get? id) →
      kinds t.host.resctrl = kinds n.host.resctrl → I pre t.host.resctrl →
      (forM post (syncContainer groups)).run t = .ok ⟨⟩ n' → I ids n'.host.resctrl ∧
        kinds n'.host.resctrl = kinds n.host.resctrl ∧ n'.Sound by
    exact hgo ids [] n rfl hs (fun _ _ => rfl) rfl h0 h
  intro post
  induction post with
  | nil =>
    intro pre t hl ht _ hkinds hI h
    cases h
    rw [List.append_nil] at hl
    exact ⟨hl ▸ hI, hkinds, ht⟩
  | cons id post ih =>
    intro pre t hl ht hsame hkinds hI h
    obtain ⟨t', hhead, h⟩ := forM_cons_ok_iff.mp h
    have hmem : id ∈ ids := hl ▸ List.mem_append_right _ List.mem_cons_self
    rw [hl] at hids
    obtain ⟨-, hpost, hdisj⟩ := List.nodup_append.mp hids
    obtain ⟨⟨task, container⟩, hget⟩ := Dict.mem_keys_iff_get?.mp (hin id hmem)
    have hget' := (hsame id List.mem_cons_self).trans hget
    obtain ⟨hadded, hothers⟩ := syncContainer_adds ht hget' hhead
    rw [Container.getPids_congr hkinds] at hadded
    have ht' := sound_of_withoutResgroups ht (syncContainer_ok ht.watches hhead)
      (hadded.wellFormed ht.tree)
    refine ih (pre ++ [id]) t' (by rw [hl]; simp) ht' (fun id' hid' => ?_)
      (hadded.kinds.trans hkinds) ?_ h
    · have hne : id' ≠ id := fun he => (List.nodup_cons.mp hpost).1 (he ▸ hid')
      exact (hothers id' hne).trans (hsame id' (List.mem_cons_of_mem _ hid'))
    · exact hstep pre id task container t.host.resctrl t'.host.resctrl hmem
        (fun hpre => hdisj id hpre id List.mem_cons_self rfl) hget hkinds hI hadded

/-! ## The containers of a call -/

/-- The containers have the names of their cgroups, on one platform. -/
structure Named (m : ContainerManager) (platform : Platform) : Prop where
  platform_eq : m.platform = platform
  container : ∀ id task container, m.containers.get? id = some (task, container) →
    container.IsNamed platform

theorem Named.assign {m : ContainerManager} {platform : Platform} {task : Task}
    {container : Container} (h : m.Named platform) (hc : container.IsNamed platform) (i : Nat) :
    Named { m with containers := assign m.containers task container, nextIdent := i } platform := by
  refine ⟨h.platform_eq, fun id task' container' hget => ?_⟩
  have hset := Dict.get?_set.symm.trans hget
  split at hset
  · cases hset
    exact hc
  · exact h.container id task' container' hset

theorem createNewContainer_named {platform : Platform} {task : Task} (hn : n.manager.Named platform)
    (h : (createNewContainer task).run n = .ok ⟨⟩ n') : n'.manager.Named platform := by
  obtain ⟨container, ⟨-, hc⟩, -, rfl⟩ := createNewContainer_ok h
  rw [hn.platform_eq] at hc
  exact hn.assign hc _

theorem refreshContainer_named {platform : Platform} {id : TaskId} (hn : n.manager.Named platform)
    (h : (refreshContainer id).run n = .ok ⟨⟩ n') : n'.manager.Named platform := by
  obtain ⟨_, _, hget, h⟩ := bind_ok_iff.mp h
  cases hget
  split at h
  · cases h
    exact hn
  · obtain ⟨-, h⟩ | ⟨-, rfl⟩ := doIf_ok_iff.mp h
    · obtain ⟨_, t, hcleanup, hcreate⟩ := bind_ok_iff.mp h
      refine createNewContainer_named ?_ hcreate
      rw [cleanupContainer_ok hcleanup]
      exact ⟨hn.platform_eq, hn.container⟩
    · exact hn

namespace Phases

theorem platform_eq (h : Phases tasks n n₁ n₂ n₃ n₄ n' groups) :
    n₂.manager.platform = n.manager.platform := by
  rw [sweepResctrl_ok h.sweep]
  dsimp only
  rw [cleanupContainers_ok h.cleanup]

theorem cleanup_tree (h : Phases tasks n n₁ n₂ n₃ n₄ n' groups) (hwf : n.host.resctrl.WellFormed) :
    Reduced n.host.resctrl n₁.host.resctrl ∧ n₁.host.resctrl.WellFormed := by
  refine forM_ok_inv (I := fun t : Node => Reduced n.host.resctrl t.host.resctrl ∧
    t.host.resctrl.WellFormed) h.cleanup ⟨.refl _, hwf⟩ ?_
  rintro container - t t' ⟨hred, hwf₁⟩ hcleanup
  obtain ⟨hred', hwf'⟩ := Container.cleanup_tree hwf₁ (cleanupContainer_host hcleanup)
  exact ⟨hred.trans hred', hwf'⟩

theorem sweep_host (h : Phases tasks n n₁ n₂ n₃ n₄ n' groups)
    (hrdt : n.manager.platform.rdtInformation.isSome = true) :
    ∃ relation relation', readMonGroupsRelation n₁.host.resctrl = .ok relation ∧
      (cleanTasklessGroups relation).run n₁.host.resctrl = .ok () n₂.host.resctrl ∧
      readMonGroupsRelation n₂.host.resctrl = .ok relation' ∧
      groups = containerNameToCtrlGroup relation' := by
  have hsweep := sweepResctrl_host (by dsimp only; rw [cleanupContainers_ok h.cleanup]; exact hrdt)
    h.sweep
  exact hsweep

theorem refresh_tree (h : Phases tasks n n₁ n₂ n₃ n₄ n' groups)
    (hwf : n₂.host.resctrl.WellFormed) :
    Reduced n₂.host.resctrl n₄.host.resctrl ∧ n₄.host.resctrl.WellFormed := by
  have hhost := createNewContainers_host h.create
  rw [← hhost] at hwf ⊢
  refine forM_ok_inv (I := fun t : Node => Reduced n₃.host.resctrl t.host.resctrl ∧
    t.host.resctrl.WellFormed) h.refresh ⟨.refl _, hwf⟩ ?_
  rintro id - t t' ⟨hred, hwf₁⟩ hrefresh
  obtain hsame | ⟨container, hcleanup⟩ := refreshContainer_host hrefresh
  · rw [hsame]
    exact ⟨hred, hwf₁⟩
  · obtain ⟨hred', hwf'⟩ := Container.cleanup_tree hwf₁ hcleanup
    exact ⟨hred.trans hred', hwf'⟩

section Tasks

variable (h : Phases tasks n n₁ n₂ n₃ n₄ n' groups) (hs : n.Sound)
  (hids : (tasks.map Task.taskId).Nodup) (hpaths : (tasks.map Task.cgroupPath).Nodup)

include h hs hids hpaths

theorem named : n₄.manager.Named n.manager.platform := by
  have hkeeps := h.keeps hs.watches hids hpaths
  have hplatform := h.platform_eq
  have h₂ : n₂.manager.Named n.manager.platform := by
    refine ⟨hplatform, fun id task container hget => ?_⟩
    obtain ⟨-, -, id', known, hknown, -⟩ := (hkeeps.get?_iff id task container).mp hget
    exact (hs.container id' known container hknown).2
  have h₃ : n₃.manager.Named n.manager.platform :=
    forM_ok_inv (I := fun t : Node => t.manager.Named n.manager.platform) h.create h₂
      fun task _ t t' ht hcreate => createNewContainer_named ht hcreate
  exact forM_ok_inv (I := fun t : Node => t.manager.Named n.manager.platform) h.refresh h₃
    fun id _ t t' ht hrefresh => refreshContainer_named ht hrefresh

/-- Before the last phase each task has a container that was made for it. -/
theorem container {id : TaskId} {task : Task} {container : Container}
    (hget : n₄.manager.containers.get? id = some (task, container)) :
    task ∈ tasks ∧ container.MadeFor task ∧ container.IsNamed n.manager.platform := by
  have hcovers := h.covers hs.watches hids hpaths
  have hw₃ := hcovers.watches hpaths
  obtain ⟨hrefreshes, hfits⟩ := refreshContainers_ok hw₃ h.refresh
  obtain ⟨container', hget'⟩ := hrefreshes.task hget
  refine ⟨?_, ⟨?_, ?_⟩, (h.named hs hids hpaths).container id task container hget⟩
  · refine hcovers.perm.mem_iff.mp (List.mem_map.mpr ⟨(task, container'), ?_, rfl⟩)
    exact Dict.mem_values.mpr ⟨id, Dict.get?_eq_some_iff.mp hget'⟩
  · exact (hw₃.refreshes hrefreshes).cgroupPath id task container hget
  · exact hfits id (Dict.mem_keys_iff_get?.mpr ⟨_, hget'⟩) task container hget

/-- The containers of the last phase are those of the tasks. -/
theorem mem_keys {id : TaskId} :
    id ∈ n₃.manager.containers.keys ↔ id ∈ n₄.manager.containers.keys := by
  have hw₃ := (h.covers hs.watches hids hpaths).watches hpaths
  have htask := (refreshContainers_ok hw₃ h.refresh).1.tasks id
  rw [Dict.mem_keys_iff_get?, Dict.mem_keys_iff_get?, ← Option.isSome_iff_exists,
    ← Option.isSome_iff_exists, ← Option.isSome_map (f := Prod.fst), ← htask, Option.isSome_map]

/-- What the phases before the last one leave. -/
theorem before_sync : Reduced n.host.resctrl n₄.host.resctrl ∧ n₄.Sound := by
  obtain ⟨hred₁, hwf₁⟩ := h.cleanup_tree hs.tree
  obtain ⟨relation, relation', -, hclean, -, -⟩ := h.sweep_host hs.rdt
  obtain ⟨hred₂, hwf₂⟩ := cleanTasklessGroups_tree hwf₁ hclean
  obtain ⟨hred₄, hwf₄⟩ := h.refresh_tree hwf₂
  have hw₃ := (h.covers hs.watches hids hpaths).watches hpaths
  have hplatform := (h.named hs hids hpaths).platform_eq
  refine ⟨(hred₁.trans hred₂).trans hred₄, hw₃.refreshes (refreshContainers_ok hw₃ h.refresh).1, ?_,
    fun id task container hget => ?_, hwf₄⟩
  · rw [hplatform]
    exact hs.rdt
  · rw [hplatform]
    exact (h.container hs hids hpaths hget).2

end Tasks

end Phases

theorem syncContainersState_sound (hs : n.Sound) (hids : (tasks.map Task.taskId).Nodup)
    (hpaths : (tasks.map Task.cgroupPath).Nodup)
    (h : (syncContainersState tasks).run n = .ok ⟨⟩ n') : n'.Sound := by
  obtain ⟨n₁, n₂, n₃, n₄, groups, hphases⟩ := syncContainersState_phases h
  obtain ⟨-, hs₄⟩ := hphases.before_sync hs hids hpaths
  refine (syncContainers_rule (I := fun _ _ => True) hs₄ n₃.manager.containers.nodup ?_ hphases.sync
    trivial fun _ _ _ _ _ _ _ _ _ _ _ _ => trivial).2.2
  exact fun id hid => (hphases.mem_keys hs hids hpaths).mp hid

end ContainerManager

end Wca
