import Wca.Containers

/-!
# Where processes are

What the operations on the resctrl file system do to the place of a process (`place?`), to the
groups and to their mon groups. Processes never change their cgroup, so the pids of a container
stay the same (`getPids_congr`).
-/

namespace Py.Dict

variable {K V W : Type} [DecidableEq K]

/-- What is read off the items stays when a value is replaced by one that reads the same. -/
theorem map_items_set {d : Dict K V} {k : K} {v v' : V} {f : K × V → W} (hk : d.get? k = some v)
    (hf : f (k, v') = f (k, v)) : (d.set k v').items.map f = d.items.map f := by
  have hmem := get?_eq_some_iff.mp hk
  rw [items_set_of_mem (mem_keys.mpr ⟨v, hmem⟩), List.map_map]
  refine List.map_congr_left fun p hp => ?_
  simp only [Function.comp_apply]
  split
  · rename_i he
    subst he
    rw [hf, eq_of_mem_items hmem hp]
  · rfl

end Py.Dict

namespace Wca

open Py

namespace Resctrl

/-- The group and the mon group that a process is in. -/
def place? (r : Resctrl) (pid : Pid) : Option (String × Option String) :=
  (r.procs.get? pid).map fun p => (p.ctrlGroup, p.monGroup)

/-- The processes with what never changes about them. -/
def kinds (r : Resctrl) : List (Pid × String × Bool) :=
  r.procs.items.map fun p => (p.1, p.2.cgroup, p.2.leader)

end Resctrl

open Resctrl

theorem Cgroup.getPids_eq (self : Cgroup) (includeThreads : Bool) (r : Resctrl) :
    self.getPids includeThreads r =
      ((kinds r).filter fun p => p.2.1 = self.cgroupPath ∧ (includeThreads ∨ p.2.2)).map Prod.fst := by
  rw [Cgroup.getPids, kinds, List.filter_map, List.map_map]
  rfl

theorem Container.getPids_congr {r r' : Resctrl} (h : kinds r' = kinds r) (self : Container)
    (includeThreads : Bool) : self.getPids includeThreads r' = self.getPids includeThreads r := by
  unfold Container.getPids
  simp only [Cgroup.getPids_eq, h]

theorem place?_isSome_of_mem_getPids {r : Resctrl} {self : Container} {includeThreads : Bool}
    {pid : Pid} (h : pid ∈ self.getPids includeThreads r) : ∃ place, r.place? pid = some place := by
  have hproc : ∀ cgroup : Cgroup, pid ∈ cgroup.getPids includeThreads r →
      ∃ p, (pid, p) ∈ r.procs.items := by
    intro cgroup hm
    obtain ⟨⟨_, p⟩, hp, rfl⟩ := List.mem_map.mp hm
    exact ⟨p, (List.mem_filter.mp hp).1⟩
  obtain ⟨p, hp⟩ : ∃ p, (pid, p) ∈ r.procs.items := by
    unfold Container.getPids at h
    split at h
    · exact hproc _ h
    · obtain ⟨cgroup, -, hm⟩ := List.mem_flatMap.mp h
      exact hproc cgroup hm
  exact ⟨_, by rw [place?, Dict.get?_eq_some_iff.mpr hp]; rfl⟩

/-! ## Writing pids -/

/-- One state comes from another by putting processes to other places. -/
structure Moved (r r' : Resctrl) : Prop where
  kinds : kinds r' = kinds r
  rest : r' = { r with procs := r'.procs }

theorem Moved.refl (r : Resctrl) : Moved r r := ⟨rfl, rfl⟩

theorem Moved.trans {r r' r'' : Resctrl} (h : Moved r r') (h' : Moved r' r'') : Moved r r'' := by
  refine ⟨h'.kinds.trans h.kinds, ?_⟩
  rw [h'.rest, h.rest]

theorem writePid_eq_some {name : String} {mongroupName : Option String} {pid : Pid} {r r' : Resctrl}
    (h : writePid name mongroupName pid r = some r') : Moved r r' ∧
      ∀ pid', place? r' pid' = if pid' = pid then some (name, mongroupName) else place? r pid' := by
  have hset : ∀ p p' : Proc, r.procs.get? pid = some p → p'.cgroup = p.cgroup → p'.leader = p.leader →
      p'.ctrlGroup = name → p'.monGroup = mongroupName →
      Moved r { r with procs := r.procs.set pid p' } ∧ ∀ pid',
        place? { r with procs := r.procs.set pid p' } pid' =
          if pid' = pid then some (name, mongroupName) else place? r pid' := by
    intro p p' hp hcgroup hleader hctrl hmon
    refine ⟨⟨Dict.map_items_set hp (by rw [hcgroup, hleader]), rfl⟩, fun pid' => ?_⟩
    simp only [place?, Dict.get?_set]
    split
    · rw [← hctrl, ← hmon]
      rfl
    · rfl
  unfold writePid at h
  split at h
  · rename_i p _ hp
    cases h
    exact hset p _ hp rfl rfl rfl rfl
  · rename_i p m _ hp
    split at h
    · rename_i hc
      cases h
      exact hset p _ hp rfl rfl hc.2 rfl
    · cases h
  · cases h

/-- The process can be put into the group or into a mon group of it. -/
def CanWrite (name : String) (mongroupName : Option String) (r : Resctrl) (pid : Pid) : Prop :=
  ∃ g place, r.groups.get? name = some g ∧ place? r pid = some place ∧
    ∀ m, mongroupName = some m → m ∈ g.monGroups ∧ place.1 = name

theorem writePid_of_canWrite {name : String} {mongroupName : Option String} {pid : Pid} {r : Resctrl}
    (h : CanWrite name mongroupName r pid) : ∃ r', writePid name mongroupName pid r = some r' := by
  obtain ⟨g, place, hg, hplace, hmon⟩ := h
  obtain ⟨p, hp, rfl⟩ := Option.map_eq_some_iff.mp hplace
  unfold writePid
  rw [hg, hp]
  cases mongroupName with
  | none => exact ⟨_, rfl⟩
  | some m => exact ⟨_, if_pos (hmon m rfl)⟩

theorem addPidsToTasksFile_moved {self : ResGroup} {mongroupName : Option String} {pids : List Pid}
    {r : Resctrl} : Moved r (self.addPidsToTasksFile mongroupName pids r) := by
  induction pids generalizing r with
  | nil => exact .refl r
  | cons pid pids ih =>
    rw [ResGroup.addPidsToTasksFile]
    cases hr : writePid self.name mongroupName pid r with
    | none => exact .refl r
    | some r₁ => exact (writePid_eq_some hr).1.trans ih

/-- Pids that can be written are all put to the place. -/
theorem addPidsToTasksFile_spec {self : ResGroup} {mongroupName : Option String} {pids : List Pid}
    {r : Resctrl} (h : ∀ pid ∈ pids, CanWrite self.name mongroupName r pid) (pid : Pid) :
    place? (self.addPidsToTasksFile mongroupName pids r) pid =
      if pid ∈ pids then some (self.name, mongroupName) else place? r pid := by
  induction pids generalizing r with
  | nil => simp [ResGroup.addPidsToTasksFile]
  | cons head pids ih =>
    obtain ⟨r₁, hr₁⟩ := writePid_of_canWrite (h head List.mem_cons_self)
    obtain ⟨hmoved, hplace⟩ := writePid_eq_some hr₁
    have hrest : ∀ pid' ∈ pids, CanWrite self.name mongroupName r₁ pid' := by
      intro pid' hm
      obtain ⟨g, place, hg, hp, hmon⟩ := h pid' (List.mem_cons_of_mem _ hm)
      by_cases he : pid' = head
      · refine ⟨g, (self.name, mongroupName), by rw [hmoved.rest]; exact hg, ?_,
          fun m hm => ⟨(hmon m hm).1, rfl⟩⟩
        rw [hplace, if_pos he]
      · refine ⟨g, place, by rw [hmoved.rest]; exact hg, ?_, hmon⟩
        rw [hplace, if_neg he, hp]
    have hrun : self.addPidsToTasksFile mongroupName (head :: pids) r =
        self.addPidsToTasksFile mongroupName pids r₁ := by
      simp only [ResGroup.addPidsToTasksFile, hr₁]
    rw [hrun, ih hrest, hplace]
    by_cases hm : pid ∈ pids <;> by_cases he : pid = head <;> simp [hm, he]

/-! ## Adding pids to a group -/

/-- The group there is, or the one that is made. -/
def IsOrBecomes (r : Resctrl) (g : String) (old : CtrlGroup) : Prop :=
  r.groups.get? g = some old ∨
    r.groups.get? g = none ∧ old = ⟨[], r.defaultSchemata⟩ ∧ g ≠ RESCTRL_ROOT_NAME ∧ LegalGroupName g

/-- The mon groups with one more, unless it is among them. -/
def addMonGroup (m : String) (monGroups : List String) : List String :=
  if m ∈ monGroups then monGroups else monGroups ++ [m]

theorem mem_addMonGroup {m m' : String} {monGroups : List String} :
    m' ∈ addMonGroup m monGroups ↔ m' = m ∨ m' ∈ monGroups := by
  unfold addMonGroup
  split
  · rename_i h
    exact ⟨.inr, fun h' => h'.elim (fun he => he ▸ h) id⟩
  · rw [List.mem_append, List.mem_singleton, or_comm]

/-- One state comes from another by adding pids to a group and to a mon group of it. -/
structure Added (g : String) (pids : List Pid) (m : String) (r r' : Resctrl) : Prop where
  kinds : kinds r' = kinds r
  place : ∀ pid, place? r' pid = if pid ∈ pids then some (g, some m) else place? r pid
  group : ∃ old, IsOrBecomes r g old ∧
    r'.groups.get? g = some { old with monGroups := addMonGroup m old.monGroups }
  other : ∀ g', g' ≠ g → r'.groups.get? g' = r.groups.get? g'
  defaultSchemata : r'.defaultSchemata = r.defaultSchemata
  schemataWrites : r'.schemataWrites = r.schemataWrites
  freeClosids : r.freeClosids ≤ r'.freeClosids + 1
  freeRmids : r.freeRmids ≤ r'.freeRmids + 2

namespace ResGroup

variable {self : ResGroup} {r r' : Resctrl} {u : Unit} {m : String} {pids : List Pid}

/-- The directory of the group is there already, or is made. -/
theorem control_ok_iff {u : Unit} :
    (doIf (self.name ≠ RESCTRL_ROOT_NAME) self.createControlgroupDirectory).run r = .ok u r' ↔
      ((self.name = RESCTRL_ROOT_NAME ∨ self.name ∈ r.groups) ∧ r' = r) ∨
      (self.name ≠ RESCTRL_ROOT_NAME ∧ self.name ∉ r.groups ∧ LegalGroupName self.name ∧
        0 < r.freeClosids ∧ 0 < r.freeRmids ∧ r' = { r with
          groups := r.groups.set self.name { monGroups := [], schemata := r.defaultSchemata }
          freeClosids := r.freeClosids - 1
          freeRmids := r.freeRmids - 1 }) := by
  rw [doIf_ok_iff]
  by_cases hroot : self.name = RESCTRL_ROOT_NAME
  · simp [hroot]
  unfold createControlgroupDirectory
  rw [bind_of_ok (get_run r)]
  by_cases hin : self.name ∈ r.groups
  · rw [if_pos hin, pure_run]
    simp [hroot, hin, eq_comm]
  rw [if_neg hin]
  by_cases hlegal : LegalGroupName self.name
  · rw [if_neg (not_not.mpr hlegal)]
    by_cases hfull : r.freeClosids = 0 ∨ r.freeRmids = 0
    · rw [if_pos hfull, throw_run]
      have hnone : ¬ (0 < r.freeClosids ∧ 0 < r.freeRmids) := by omega
      have hnot : ∀ p : Prop, ¬ (0 < r.freeClosids ∧ 0 < r.freeRmids ∧ p) := fun p h =>
        hnone ⟨h.1, h.2.1⟩
      simp [hroot, hin, hnot]
    · rw [if_neg hfull, set_run]
      have hclosids : 0 < r.freeClosids := by omega
      have hrmids : 0 < r.freeRmids := by omega
      simp [hroot, hin, hlegal, hclosids, hrmids, eq_comm]
  · rw [if_pos hlegal, throw_run]
    simp [hroot, hin, hlegal]

theorem createMongroupDirectory_ok_iff {u : Unit} :
    (self.createMongroupDirectory m).run r = .ok u r' ↔ ∃ g, r.groups.get? self.name = some g ∧
      (m ∈ g.monGroups ∧ r' = r ∨ m ∉ g.monGroups ∧ 0 < r.freeRmids ∧ r' = { r with
        groups := r.groups.set self.name { g with monGroups := g.monGroups ++ [m] }
        freeRmids := r.freeRmids - 1 }) := by
  unfold createMongroupDirectory
  rw [bind_of_ok (get_run r)]
  cases hg : r.groups.get? self.name with
  | none => simp [throw_run]
  | some g =>
    simp only [Option.some.injEq, exists_eq_left']
    by_cases hm : m ∈ g.monGroups
    · rw [if_pos hm, pure_run]
      simp [hm, eq_comm]
    · rw [if_neg hm]
      by_cases hfull : r.freeRmids = 0
      · rw [if_pos hfull, throw_run]
        simp [hm, hfull]
      · rw [if_neg hfull, set_run]
        simp [hm, Nat.pos_of_ne_zero hfull, eq_comm]

theorem addPids_ok (hpids : ∀ pid ∈ pids, ∃ place, place? r pid = some place)
    (h : (self.addPids pids m).run r = .ok u r') : Added self.name pids m r r' := by
  unfold addPids at h
  rw [bind_ok_iff] at h
  obtain ⟨_, r₀, hassert, h⟩ := h
  obtain ⟨-, rfl⟩ := run_liftM_ok_iff.mp hassert
  rw [bind_ok_iff] at h
  obtain ⟨_, r₁, hcreate, h⟩ := h
  rw [bind_of_ok (modify_run _ _), bind_ok_iff] at h
  obtain ⟨_, r₃, hmon, h⟩ := h
  rw [modify_run] at h
  cases h
  -- the group, after its directory was made
  have hgroups₁ : (self.addPidsToTasksFile none pids r₁).groups = r₁.groups := by
    rw [addPidsToTasksFile_moved.rest]
  obtain ⟨old, hold, hmon⟩ := createMongroupDirectory_ok_iff.mp hmon
  rw [hgroups₁] at hold
  obtain ⟨hbecomes, hother, hrest⟩ : IsOrBecomes r₀ self.name old ∧
      (∀ g', g' ≠ self.name → r₁.groups.get? g' = r₀.groups.get? g') ∧
      r₁ = { r₀ with
        groups := r₁.groups
        freeClosids := r₁.freeClosids
        freeRmids := r₁.freeRmids } ∧ r₀.freeClosids ≤ r₁.freeClosids + 1 ∧
      r₀.freeRmids ≤ r₁.freeRmids + 1 := by
    rcases control_ok_iff.mp hcreate with ⟨-, rfl⟩ | ⟨hroot, hnew, hlegal, -, -, rfl⟩
    · exact ⟨.inl hold, fun _ _ => rfl, rfl, by omega, by omega⟩
    · refine ⟨.inr ⟨Dict.get?_eq_none_iff.mpr hnew, ?_, hroot, hlegal⟩, fun g' hg' => ?_, rfl, ?_, ?_⟩
      · rw [Dict.get?_set_self] at hold
        exact (Option.some.inj hold).symm
      · exact Dict.get?_set_of_ne hg'
      · simp only
        omega
      · simp only
        omega
  obtain ⟨hrest₁, hclosids₁, hrmids₁⟩ := hrest
  set r₂ := self.addPidsToTasksFile none pids r₁ with hr₂
  have hmoved₂ : Moved r₁ r₂ := addPidsToTasksFile_moved
  have hplace₁ : ∀ pid, place? r₁ pid = place? r₀ pid := fun pid => by rw [hrest₁]; rfl
  have hplace₂ : ∀ pid, place? r₂ pid = if pid ∈ pids then some (self.name, none) else place? r₀ pid := by
    intro pid
    rw [hr₂, addPidsToTasksFile_spec, hplace₁]
    intro pid' hp
    obtain ⟨place, hplace⟩ := hpids pid' hp
    exact ⟨old, place, hold, (hplace₁ pid').trans hplace, fun _ hm => (nomatch hm)⟩
  -- the mon group, after its directory was made
  obtain ⟨hgroup₃, hother₃, hrest₃, hrmids₃⟩ : r₃.groups.get? self.name =
        some { old with monGroups := addMonGroup m old.monGroups } ∧
      (∀ g', g' ≠ self.name → r₃.groups.get? g' = r₁.groups.get? g') ∧
      r₃ = { r₂ with groups := r₃.groups, freeRmids := r₃.freeRmids } ∧
      r₁.freeRmids ≤ r₃.freeRmids + 1 := by
    have hrmids₂ : r₂.freeRmids = r₁.freeRmids := by rw [hmoved₂.rest]
    have hget₂ : ∀ g', r₂.groups.get? g' = r₁.groups.get? g' := fun g' => by rw [hgroups₁]
    rcases hmon with ⟨hm, rfl⟩ | ⟨hm, -, rfl⟩
    · rw [addMonGroup, if_pos hm, hget₂]
      exact ⟨hold, fun g' _ => hget₂ g', rfl, by omega⟩
    · rw [addMonGroup, if_neg hm]
      exact ⟨Dict.get?_set_self, fun g' hg' => (Dict.get?_set_of_ne hg').trans (hget₂ g'), rfl,
        by simp only; omega⟩
  have hplace₃ : ∀ pid, place? r₃ pid = place? r₂ pid := fun pid => by rw [hrest₃]; rfl
  have hmoved₄ : Moved r₃ (self.addPidsToTasksFile (some m) pids r₃) := addPidsToTasksFile_moved
  refine ⟨?_, fun pid => ?_, ⟨old, hbecomes, by rw [hmoved₄.rest]; exact hgroup₃⟩, fun g' hg' => ?_, ?_,
    ?_, ?_, ?_⟩
  · have hkinds₁ : kinds r₁ = kinds r₀ := by rw [hrest₁]; rfl
    have hkinds₃ : kinds r₃ = kinds r₂ := by rw [hrest₃]; rfl
    rw [hmoved₄.kinds, hkinds₃, hmoved₂.kinds, hkinds₁]
  · rw [addPidsToTasksFile_spec, hplace₃, hplace₂]
    · split <;> rfl
    · intro pid' hp
      refine ⟨_, (self.name, none), hgroup₃, ?_, fun m' hm' => ⟨?_, rfl⟩⟩
      · rw [hplace₃, hplace₂, if_pos hp]
      · cases hm'
        exact mem_addMonGroup.mpr (.inl rfl)
  · rw [hmoved₄.rest]
    exact (hother₃ g' hg').trans (hother g' hg')
  · rw [hmoved₄.rest, hrest₃, hmoved₂.rest, hrest₁]
  · rw [hmoved₄.rest, hrest₃, hmoved₂.rest, hrest₁]
  · rw [hmoved₄.rest, hrest₃, hmoved₂.rest]
    exact hclosids₁
  · rw [hmoved₄.rest]
    simp only
    omega

end ResGroup

/-! ## Removing directories -/

namespace Resctrl

variable {r : Resctrl} {name m : String} {g : CtrlGroup}

theorem kinds_movePids {p : Proc → Bool} {dest : Proc → Proc} (hc : ∀ q, (dest q).cgroup = q.cgroup)
    (hl : ∀ q, (dest q).leader = q.leader) (procs : Dict Pid Proc) :
    (movePids p dest procs).items.map (fun q => (q.1, q.2.cgroup, q.2.leader)) =
      procs.items.map fun q => (q.1, q.2.cgroup, q.2.leader) := by
  rw [movePids, Dict.items_map, List.map_map]
  refine List.map_congr_left fun q _ => ?_
  simp only [Function.comp_apply]
  split
  · rw [hc, hl]
  · rfl

theorem rmdirCtrlGroup_of_get? (h : r.groups.get? name = some g) :
    rmdirCtrlGroup name r = { r with
      groups := r.groups.erase name
      procs := movePids (·.ctrlGroup = name) (fun p => { p with ctrlGroup := "", monGroup := none })
        r.procs
      freeClosids := r.freeClosids + 1
      freeRmids := r.freeRmids + 1 + g.monGroups.length } := by
  simp only [rmdirCtrlGroup, h]

@[simp] theorem kinds_rmdirCtrlGroup : kinds (rmdirCtrlGroup name r) = kinds r := by
  cases h : r.groups.get? name with
  | none => simp only [rmdirCtrlGroup, h]
  | some g =>
    rw [rmdirCtrlGroup_of_get? h]
    refine kinds_movePids ?_ ?_ r.procs <;> exact fun _ => rfl

/-- The processes of a control group that is removed go to the root group. -/
theorem place?_rmdirCtrlGroup (h : r.groups.get? name = some g) (pid : Pid) :
    place? (rmdirCtrlGroup name r) pid = (place? r pid).map fun p =>
      if p.1 = name then (RESCTRL_ROOT_NAME, none) else p := by
  rw [rmdirCtrlGroup_of_get? h]
  simp only [place?, movePids, Dict.get?_map, Option.map_map]
  congr 1
  funext p
  simp only [Function.comp_apply, decide_eq_true_eq]
  split <;> rfl

theorem get?_rmdirCtrlGroup (g' : String) :
    (rmdirCtrlGroup name r).groups.get? g' = if g' = name then none else r.groups.get? g' := by
  cases h : r.groups.get? name with
  | none =>
    simp only [rmdirCtrlGroup, h]
    split
    · rename_i he
      rw [he, h]
    · rfl
  | some g =>
    rw [rmdirCtrlGroup_of_get? h]
    exact Dict.get?_erase

@[simp] theorem kinds_rmdirMonGroup : kinds (rmdirMonGroup name m r) = kinds r := by
  unfold rmdirMonGroup
  split
  · rfl
  · split
    · refine kinds_movePids ?_ ?_ r.procs <;> exact fun _ => rfl
    · rfl

/-- The processes of a mon group that is removed stay in its control group. -/
theorem place?_rmdirMonGroup (h : r.groups.get? name = some g) (hm : m ∈ g.monGroups) (pid : Pid) :
    place? (rmdirMonGroup name m r) pid = (place? r pid).map fun p =>
      if p = (name, some m) then (name, none) else p := by
  simp only [rmdirMonGroup, h, hm, if_true, place?, movePids, Dict.get?_map, Option.map_map]
  congr 1
  funext p
  simp only [Function.comp_apply, decide_eq_true_eq, Prod.mk.injEq]
  split
  · rename_i hp
    rw [hp.1]
  · rfl

theorem get?_rmdirMonGroup (g' : String) :
    (rmdirMonGroup name m r).groups.get? g' = (r.groups.get? g').map fun g =>
      if g' = name then { g with monGroups := g.monGroups.filter (· ≠ m) } else g := by
  unfold rmdirMonGroup
  split
  · rename_i h
    by_cases he : g' = name
    · rw [he, h]
      rfl
    · simp [he]
  · rename_i g h
    split
    · rename_i hm
      by_cases he : g' = name
      · subst he
        simp [h]
      · simp [he, Dict.get?_set_of_ne he]
    · rename_i hm
      by_cases he : g' = name
      · subst he
        have hfilter : g.monGroups.filter (· ≠ m) = g.monGroups :=
          List.filter_eq_self.mpr fun m' hm' => by
            rw [decide_eq_true_eq]
            rintro rfl
            exact hm hm'
        rw [h, Option.map_some, if_pos rfl, hfilter]
      · simp [he]

end Resctrl

/-- What `remove` leaves, for a group that is there. -/
theorem ResGroup.remove_run {self : ResGroup} {m : String} {r : Resctrl} {g : CtrlGroup}
    (hg : r.groups.get? self.name = some g) : (self.remove m).run r = .ok ()
      (if self.name ≠ RESCTRL_ROOT_NAME ∧ g.monGroups.length = 1 then rmdirCtrlGroup self.name r
        else rmdirMonGroup self.name m r) := by
  unfold ResGroup.remove
  by_cases hroot : self.name = RESCTRL_ROOT_NAME
  · rw [if_pos hroot, if_neg fun h => h.1 hroot, modify_run]
  · have hmon : self.getMonGroups r = .ok g.monGroups := by simp only [ResGroup.getMonGroups, hg]
    rw [if_neg hroot, bind_of_ok (get_run r), hmon, bind_of_ok (run_liftM_ok_iff.mpr ⟨rfl, rfl⟩)]
    by_cases h1 : g.monGroups.length = 1
    · rw [if_pos h1, if_pos ⟨hroot, h1⟩, modify_run]
    · rw [if_neg h1, if_neg fun h => h1 h.2, modify_run]

end Wca
