import Wca.Placement

/-!
# Tasks files

What becomes of the pids that `addPids` is given when some of their processes are gone, and which
groups `cleanTasklessGroups` removes.
-/

namespace Wca

open Py Resctrl

/-! ## Pids that are written -/

namespace ResGroup

variable {self : ResGroup} {r r' : Resctrl} {m : String} {mongroupName : Option String}
  {pids : List Pid}

/-- The pids that `addPidsToTasksFile` gets into the tasks file. -/
def writtenPids (self : ResGroup) (mongroupName : Option String) : List Pid → Resctrl → List Pid
  | [], _ => []
  | pid :: pids, r =>
    match writePid self.name mongroupName pid r with
    | some r => pid :: writtenPids self mongroupName pids r
    | none => []

theorem addPidsToTasksFile_writtenPids : self.addPidsToTasksFile mongroupName pids r =
    self.addPidsToTasksFile mongroupName (self.writtenPids mongroupName pids r) r := by
  induction pids generalizing r with
  | nil => rfl
  | cons pid pids ih =>
    rw [addPidsToTasksFile, writtenPids]
    cases hw : writePid self.name mongroupName pid r with
    | none => rfl
    | some r₁ =>
      rw [addPidsToTasksFile, hw]
      exact ih

end ResGroup

theorem mem_procs_iff {r : Resctrl} {pid : Pid} :
    pid ∈ r.procs ↔ ∃ place, place? r pid = some place := by
  simp [place?, Dict.mem_def, Dict.mem_keys_iff_get?]

theorem keys_procs (r : Resctrl) : r.procs.keys = (kinds r).map Prod.fst := by
  rw [kinds, List.map_map]
  rfl

theorem Moved.mem_procs {r r' : Resctrl} (h : Moved r r') {pid : Pid} :
    pid ∈ r'.procs ↔ pid ∈ r.procs := by
  rw [Dict.mem_def, Dict.mem_def, keys_procs, keys_procs, h.kinds]

/-- A process that can be moved still can after another one has been. -/
theorem CanWrite.moved {name : String} {mongroupName : Option String} {r r' : Resctrl}
    {pid pid' : Pid} (h : CanWrite name mongroupName r pid)
    (hw : writePid name mongroupName pid' r = some r') : CanWrite name mongroupName r' pid := by
  obtain ⟨g, place, hg, hp, hmon⟩ := h
  obtain ⟨hmoved, hplace⟩ := writePid_eq_some hw
  have hg' : r'.groups.get? name = some g := by rw [hmoved.rest]; exact hg
  by_cases he : pid = pid'
  · refine ⟨g, (name, mongroupName), hg', ?_, fun m hm => ⟨(hmon m hm).1, rfl⟩⟩
    rw [hplace, if_pos he]
  · refine ⟨g, place, hg', ?_, hmon⟩
    rw [hplace, if_neg he, hp]

namespace ResGroup

variable {self : ResGroup} {r r' : Resctrl} {m : String} {mongroupName : Option String}
  {pids : List Pid}

/-- The pids before the first one whose process is gone. -/
def untilDead (r : Resctrl) (pids : List Pid) : List Pid := pids.takeWhile (· ∈ r.procs)

theorem writePid_of_dead {name : String} {pid : Pid} (h : pid ∉ r.procs) :
    writePid name mongroupName pid r = none := by
  cases hw : writePid name mongroupName pid r with
  | none => rfl
  | some r' =>
    obtain ⟨hmoved, hplace⟩ := writePid_eq_some hw
    have hmem : pid ∈ r'.procs := mem_procs_iff.mpr ⟨_, by rw [hplace, if_pos rfl]⟩
    exact absurd (hmoved.mem_procs.mp hmem) h

/-- Where every process that is there can be moved, the first dead pid ends the writing. -/
theorem writtenPids_eq (h : ∀ pid ∈ untilDead r pids, CanWrite self.name mongroupName r pid) :
    self.writtenPids mongroupName pids r = untilDead r pids := by
  induction pids generalizing r with
  | nil => rfl
  | cons pid pids ih =>
    rw [writtenPids]
    by_cases hpid : pid ∈ r.procs
    · have huntil : untilDead r (pid :: pids) = pid :: untilDead r pids :=
        List.takeWhile_cons_of_pos (by simpa using hpid)
      rw [huntil] at h ⊢
      obtain ⟨r₁, hw⟩ := writePid_of_canWrite (h pid List.mem_cons_self)
      have hmoved := (writePid_eq_some hw).1
      have hsame : untilDead r₁ pids = untilDead r pids := by
        simp only [untilDead, hmoved.mem_procs]
      rw [hw]
      dsimp only
      rw [ih, hsame]
      intro pid' hpid'
      rw [hsame] at hpid'
      exact (h pid' (List.mem_cons_of_mem pid hpid')).moved hw
    · have huntil : untilDead r (pid :: pids) = [] :=
        List.takeWhile_cons_of_neg (by simpa using hpid)
      rw [writePid_of_dead hpid, huntil]

/-! ### The two loops of `addPids` -/

/-- The directories of the group and of the mon group are there, or the kernel makes them. -/
structure CanMakeDirectories (resgroup : ResGroup) (m : String) (r : Resctrl) : Prop where
  mongroupName : m ≠ ""
  group : resgroup.name ∈ r.groups ∨ resgroup.name ≠ RESCTRL_ROOT_NAME ∧ LegalGroupName resgroup.name ∧
    0 < r.freeClosids ∧ 0 < r.freeRmids
  mongroup : (∃ g, r.groups.get? resgroup.name = some g ∧ m ∈ g.monGroups) ∨
    (if resgroup.name ∈ r.groups then 1 else 2) ≤ r.freeRmids

/-- A call of `addPids` that returns: the states in which the pids are written to the tasks file of
the group and to that of the mon group, and the last one. -/
structure AddsPids (resgroup : ResGroup) (pids : List Pid) (m : String) (r r₁ r₂ r' : Resctrl) :
    Prop where
  returns : (resgroup.addPids pids m).run r = .ok () r'
  control : (doIf (resgroup.name ≠ RESCTRL_ROOT_NAME) resgroup.createControlgroupDirectory).run r = .ok () r₁
  mon : (resgroup.createMongroupDirectory m).run (resgroup.addPidsToTasksFile none pids r₁) = .ok () r₂
  last : r' = resgroup.addPidsToTasksFile (some m) pids r₂

/-- `addPids` raises nothing, and every pid whose process is alive is written to both files. -/
def WritesSurvivors (self : ResGroup) (pids : List Pid) (m : String) (r : Resctrl) : Prop :=
  ∃ r₁ r₂ r', self.AddsPids pids m r r₁ r₂ r' ∧ ∀ pid ∈ pids, pid ∈ r.procs →
    pid ∈ self.writtenPids none pids r₁ ∧ pid ∈ self.writtenPids (some m) pids r₂

theorem exists_addsPids (h : (self.addPids pids m).run r = .ok () r') :
    m ≠ "" ∧ ∃ r₁ r₂, self.AddsPids pids m r r₁ r₂ r' := by
  have hrun := h
  unfold addPids at h
  obtain ⟨u₀, r₀, hassert, hcontrol⟩ := bind_ok_iff.mp h
  obtain ⟨hname, rfl⟩ := run_liftM_ok_iff.mp hassert
  obtain ⟨u₁, r₁, hcreate, hwrite⟩ := bind_ok_iff.mp hcontrol
  rw [bind_of_ok (modify_run _ _)] at hwrite
  obtain ⟨u₂, r₂, hmon, hlast⟩ := bind_ok_iff.mp hwrite
  rw [modify_run] at hlast
  cases hlast
  refine ⟨fun hm => ?_, r₁, r₂, hrun, hcreate, hmon, rfl⟩
  exact assert_ok_iff.mp hname hm

namespace AddsPids

variable {r₁ r₂ : Resctrl}

theorem procs_control (h : self.AddsPids pids m r r₁ r₂ r') : r₁.procs = r.procs := by
  rcases control_ok_iff.mp h.control with ⟨-, rfl⟩ | ⟨-, -, -, -, -, rfl⟩
  · rfl
  · rfl

/-- The group that the pids are written to, and that the mon group is in afterwards. -/
theorem exists_group (h : self.AddsPids pids m r r₁ r₂ r') :
    ∃ g g', r₁.groups.get? self.name = some g ∧ r₂.groups.get? self.name = some g' ∧
      m ∈ g'.monGroups ∧ r₂.procs = (self.addPidsToTasksFile none pids r₁).procs := by
  have hgroups : (self.addPidsToTasksFile none pids r₁).groups = r₁.groups := by
    rw [addPidsToTasksFile_moved.rest]
  obtain ⟨g, hg, hmon⟩ := createMongroupDirectory_ok_iff.mp h.mon
  have hg₁ : r₁.groups.get? self.name = some g := by rw [← hgroups]; exact hg
  rcases hmon with ⟨hm, hr₂⟩ | ⟨-, -, hr₂⟩
  · exact ⟨g, g, hg₁, hr₂ ▸ hg, hm, by rw [hr₂]⟩
  · refine ⟨g, { g with monGroups := g.monGroups ++ [m] }, hg₁, ?_, ?_, by rw [hr₂]⟩
    · rw [hr₂]
      exact Dict.get?_set_self
    · exact List.mem_append_right _ List.mem_cons_self

/-- Both loops write the pids before the first dead one and no others. -/
theorem writtenPids (h : self.AddsPids pids m r r₁ r₂ r') :
    self.writtenPids none pids r₁ = untilDead r pids ∧
      self.writtenPids (some m) pids r₂ = untilDead r pids := by
  obtain ⟨g, g', hg, hg', hm, hprocs⟩ := h.exists_group
  have huntil₁ : untilDead r₁ pids = untilDead r pids := by
    simp only [untilDead, h.procs_control]
  have hcan₁ : ∀ pid ∈ untilDead r₁ pids, CanWrite self.name none r₁ pid := by
    intro pid hpid
    have hlive : pid ∈ r₁.procs := by simpa using List.mem_takeWhile_imp hpid
    obtain ⟨place, hplace⟩ := mem_procs_iff.mp hlive
    exact ⟨g, place, hg, hplace, fun m hm => absurd hm (Option.some_ne_none m).symm⟩
  have hwritten₁ := writtenPids_eq hcan₁
  refine ⟨hwritten₁.trans huntil₁, ?_⟩
  -- the first loop has put them into the group, where the second one finds them
  have hmem₂ : ∀ pid, pid ∈ r₂.procs ↔ pid ∈ r.procs := fun pid => by
    rw [hprocs, addPidsToTasksFile_moved.mem_procs, h.procs_control]
  have huntil₂ : untilDead r₂ pids = untilDead r pids := by
    simp only [untilDead, hmem₂]
  rw [writtenPids_eq, huntil₂]
  intro pid hpid
  refine ⟨g', (self.name, none), hg', ?_, fun m' hm' => ⟨?_, rfl⟩⟩
  · have hplace := addPidsToTasksFile_spec hcan₁ pid
    rw [huntil₁, ← huntil₂, if_pos hpid] at hplace
    have hsame : place? r₂ pid = place? (self.addPidsToTasksFile none pids r₁) pid := by
      rw [place?, place?, hprocs]
    rw [hsame, addPidsToTasksFile_writtenPids, hwritten₁, huntil₁, ← huntil₂]
    exact hplace
  · cases hm'
    exact hm

end AddsPids

/-- `addPids` raises nothing exactly when the directories can be made, whatever the pids. -/
theorem addPids_returns_iff :
    (∃ r', (self.addPids pids m).run r = .ok () r') ↔ self.CanMakeDirectories m r := by
  have hrest : ∀ r₁ : Resctrl, (self.addPidsToTasksFile none pids r₁).groups = r₁.groups ∧
      (self.addPidsToTasksFile none pids r₁).freeRmids = r₁.freeRmids := by
    intro r₁
    rw [addPidsToTasksFile_moved.rest]
    exact ⟨rfl, rfl⟩
  constructor
  · rintro ⟨r', h⟩
    obtain ⟨hm, r₁, r₂, hadds⟩ := exists_addsPids h
    obtain ⟨g, hg, hmon⟩ := createMongroupDirectory_ok_iff.mp hadds.mon
    rw [(hrest r₁).1] at hg
    rw [(hrest r₁).2] at hmon
    rcases control_ok_iff.mp hadds.control with ⟨-, rfl⟩ | ⟨hroot, hin, hlegal, hc, hr, rfl⟩
    · have hmem : self.name ∈ r₁.groups := Dict.mem_keys_iff_get?.mpr ⟨g, hg⟩
      refine ⟨hm, .inl hmem, ?_⟩
      rcases hmon with ⟨hin, -⟩ | ⟨-, hfree, -⟩
      · exact .inl ⟨g, hg, hin⟩
      · exact .inr (by rw [if_pos hmem]; exact hfree)
    · refine ⟨hm, .inr ⟨hroot, hlegal, hc, hr⟩, .inr ?_⟩
      rw [Dict.get?_set_self] at hg
      cases hg
      rw [if_neg hin]
      rcases hmon with ⟨hnone, -⟩ | ⟨-, hfree, -⟩
      · exact absurd hnone List.not_mem_nil
      · exact Nat.add_lt_of_lt_sub hfree
  · rintro ⟨hm, hgroup, hmongroup⟩
    obtain ⟨r₁, hcontrol, g, hg, hroom⟩ : ∃ r₁,
        (doIf (self.name ≠ RESCTRL_ROOT_NAME) self.createControlgroupDirectory).run r = .ok () r₁ ∧
          ∃ g, r₁.groups.get? self.name = some g ∧ (m ∈ g.monGroups ∨ 0 < r₁.freeRmids) := by
      by_cases hin : self.name ∈ r.groups
      · obtain ⟨g, hg⟩ := Dict.mem_keys_iff_get?.mp (Dict.mem_def.mp hin)
        refine ⟨r, control_ok_iff.mpr (.inl ⟨.inr hin, rfl⟩), g, hg, ?_⟩
        rcases hmongroup with ⟨g', hg', hmem⟩ | hfree
        · rw [hg] at hg'
          cases hg'
          exact .inl hmem
        · rw [if_pos hin] at hfree
          exact .inr hfree
      · obtain ⟨hroot, hlegal, hc, hr⟩ := hgroup.resolve_left hin
        refine ⟨_, control_ok_iff.mpr (.inr ⟨hroot, hin, hlegal, hc, hr, rfl⟩), _,
          Dict.get?_set_self, .inr ?_⟩
        rw [if_neg hin] at hmongroup
        rcases hmongroup with ⟨g, hg, -⟩ | hfree
        · exact absurd (Dict.mem_keys_iff_get?.mpr ⟨g, hg⟩) hin
        · exact Nat.sub_pos_of_lt hfree
    obtain ⟨r₂, hmon⟩ : ∃ r₂, (self.createMongroupDirectory m).run
        (self.addPidsToTasksFile none pids r₁) = .ok () r₂ := by
      by_cases hin : m ∈ g.monGroups
      · exact ⟨_, createMongroupDirectory_ok_iff.mpr
          ⟨g, (hrest r₁).1.symm ▸ hg, .inl ⟨hin, rfl⟩⟩⟩
      · exact ⟨_, createMongroupDirectory_ok_iff.mpr
          ⟨g, (hrest r₁).1.symm ▸ hg, .inr ⟨hin, (hrest r₁).2.symm ▸ hroom.resolve_left hin, rfl⟩⟩⟩
    refine ⟨self.addPidsToTasksFile (some m) pids r₂, ?_⟩
    unfold addPids
    rw [bind_of_ok (run_liftM_ok_iff.mpr ⟨assert_of hm, rfl⟩), bind_of_ok hcontrol,
      bind_of_ok (modify_run _ _), bind_of_ok hmon, modify_run]

/-- **Dead pids.** Every pid whose process is alive is written to both tasks files exactly when the
directories can be made and each of them stands before the first dead pid of the list. -/
theorem addPids_writesSurvivors_iff (self : ResGroup) (pids : List Pid) (m : String) (r : Resctrl) :
    self.WritesSurvivors pids m r ↔ self.CanMakeDirectories m r ∧
      ∀ pid ∈ pids, pid ∈ r.procs → pid ∈ pids.takeWhile (· ∈ r.procs) := by
  constructor
  · rintro ⟨r₁, r₂, r', hadds, hall⟩
    refine ⟨addPids_returns_iff.mp ⟨r', hadds.returns⟩, fun pid hpid hlive => ?_⟩
    have hwritten := (hall pid hpid hlive).1
    rwa [hadds.writtenPids.1] at hwritten
  · rintro ⟨hcan, hall⟩
    obtain ⟨r', hreturns⟩ := addPids_returns_iff.mpr hcan
    obtain ⟨-, r₁, r₂, hadds⟩ := exists_addsPids hreturns
    refine ⟨r₁, r₂, r', hadds, fun pid hpid hlive => ?_⟩
    rw [hadds.writtenPids.1, hadds.writtenPids.2]
    exact ⟨hall pid hpid hlive, hall pid hpid hlive⟩

end ResGroup

/-- A process in the root group, next to a group that it is to be moved to. -/
def oneProcess : Resctrl where
  groups := Dict.ofItems [("", ⟨[], ∅⟩), ("g", ⟨["task"], ∅⟩)]
  procs := Dict.ofItems [(8, ⟨"/task", true, "", none⟩)]
  defaultSchemata := ∅
  freeClosids := 1
  freeRmids := 1
  schemataWrites := []

/-- With the dead pid 7 before it, the process 8 stays in the root group. -/
theorem addPids_loses_tail :
    (∃ r', ((⟨"g"⟩ : ResGroup).addPids [7, 8] "task").run oneProcess = .ok () r' ∧
      place? r' 8 = some ("", none)) ∧
      ¬ (⟨"g"⟩ : ResGroup).WritesSurvivors [7, 8] "task" oneProcess := by
  refine ⟨?_, ?_⟩
  · obtain ⟨u, r', hrun, hplace⟩ := exists_of_returnsSuch
      (p := fun _ r' => decide (place? r' 8 = some ("", none)))
      (r := ((⟨"g"⟩ : ResGroup).addPids [7, 8] "task").run oneProcess) (by decide)
    exact ⟨r', hrun, of_decide_eq_true hplace⟩
  · rintro ⟨r₁, r₂, r', hadds, hall⟩
    have hwritten := (hall 8 (by decide) (by decide)).1
    rw [hadds.writtenPids.1] at hwritten
    exact absurd hwritten (by decide)

/-! ## The sweep -/

theorem monGroupPids_eq_nil_iff {name m : String} {r : Resctrl} :
    monGroupPids name m r = [] ↔ ∀ pid, place? r pid ≠ some (name, some m) := by
  rw [monGroupPids, List.map_eq_nil_iff, List.filter_eq_nil_iff]
  constructor
  · intro h pid hplace
    obtain ⟨p, hp, he⟩ := Option.map_eq_some_iff.mp hplace
    exact h (pid, p) (Dict.get?_eq_some_iff.mp hp) (by simpa using he)
  · intro h p hp hin
    refine h p.1 ?_
    rw [place?, Dict.get?_eq_some_iff.mpr hp]
    simpa using hin

/-- The sweep of one mon group whose tasks file is there. -/
theorem cleanMonGroup_run {name m : String} {monGroups : List String} {r : Resctrl} {g : CtrlGroup}
    (hg : r.groups.get? name = some g) (hm : m ∈ g.monGroups) :
    (cleanMonGroup name monGroups m).run r = .ok ()
      (if monGroupPids name m r = [] then
        if name ≠ "" ∧ monGroups.length = 1 then rmdirCtrlGroup name r else rmdirMonGroup name m r
      else r) := by
  unfold cleanMonGroup
  rw [bind_of_ok (get_run r)]
  simp only [hg]
  rw [doIf_of_not (not_not.mpr hm), bind_of_ok (pure_run _ r)]
  by_cases hempty : monGroupPids name m r = []
  · rw [if_pos hempty, if_pos hempty, doIf_of (List.cons_ne_nil m [])]
    by_cases hone : name ≠ "" ∧ monGroups.length = 1
    · rw [if_pos hone, if_pos ⟨hone.1, hone.2.symm⟩, set_run]
    · rw [if_neg hone, if_neg fun h => hone ⟨h.1, h.2.symm⟩, set_run]
      rfl
  · rw [if_neg hempty, if_neg hempty, doIf_of_not (not_not.mpr rfl), pure_run]

/-- Removing an empty mon group moves nobody. -/
theorem place?_rmdirMonGroup_of_empty {name m : String} {r : Resctrl} {g : CtrlGroup}
    (hg : r.groups.get? name = some g) (hm : m ∈ g.monGroups) (hempty : monGroupPids name m r = [])
    (pid : Pid) : place? (rmdirMonGroup name m r) pid = place? r pid := by
  rw [place?_rmdirMonGroup hg hm]
  have hne := monGroupPids_eq_nil_iff.mp hempty pid
  cases hp : place? r pid with
  | none => rfl
  | some place =>
    rw [Option.map_some, if_neg]
    rintro rfl
    exact hne hp

/-- What the sweep leaves of a group. -/
def remainder (name : String) (g : CtrlGroup) (r : Resctrl) : Option CtrlGroup :=
  if name ≠ "" ∧ g.monGroups.length = 1 ∧ ∀ m ∈ g.monGroups, monGroupPids name m r = [] then none
  else some { g with monGroups := g.monGroups.filter fun m => monGroupPids name m r ≠ [] }

/-- One round of the sweep. -/
structure Swept (name : String) (g : CtrlGroup) (r r' : Resctrl) : Prop where
  group : r'.groups.get? name = remainder name g r
  other : ∀ name', name' ≠ name → r'.groups.get? name' = r.groups.get? name'
  pids : ∀ name' m, name' ≠ name → (monGroupPids name' m r' = [] ↔ monGroupPids name' m r = [])

/-- The only mon group of a control group takes it along. -/
theorem cleanGroup_run_one {name m : String} {r : Resctrl} {g : CtrlGroup} (hname : name ≠ "")
    (hg : r.groups.get? name = some g) (hm : g.monGroups = [m]) :
    ∃ r', (forM g.monGroups (cleanMonGroup name g.monGroups)).run r = .ok () r' ∧
      Swept name g r r' := by
  have hmem : m ∈ g.monGroups := hm ▸ List.mem_cons_self
  have hlen : g.monGroups.length = 1 := hm ▸ rfl
  have hrun : (cleanMonGroup name g.monGroups m).run r = _ := cleanMonGroup_run hg hmem
  have hloop : ∀ {r'}, (cleanMonGroup name g.monGroups m).run r = .ok () r' →
      (forM g.monGroups (cleanMonGroup name g.monGroups)).run r = .ok () r' := by
    intro r' h
    have hforM : (forM [m] (cleanMonGroup name g.monGroups)).run r = .ok () r' :=
      forM_cons_ok_iff.mpr ⟨r', h, rfl⟩
    rwa [← hm] at hforM
  by_cases hempty : monGroupPids name m r = []
  · rw [if_pos hempty, if_pos ⟨hname, hlen⟩] at hrun
    refine ⟨rmdirCtrlGroup name r, hloop hrun, ?_, fun name' hne => ?_, fun name' m' hne => ?_⟩
    · have hall : ∀ m' ∈ g.monGroups, monGroupPids name m' r = [] := by
        rw [hm]
        exact List.forall_mem_singleton.mpr hempty
      rw [get?_rmdirCtrlGroup, if_pos rfl, remainder, if_pos ⟨hname, hlen, hall⟩]
    · rw [get?_rmdirCtrlGroup, if_neg hne]
    · rw [monGroupPids_eq_nil_iff, monGroupPids_eq_nil_iff]
      refine forall_congr' fun pid => not_congr ?_
      rw [place?_rmdirCtrlGroup hg]
      cases place? r pid with
      | none => rfl
      | some place =>
        rw [Option.map_some, Option.some.injEq, Option.some.injEq]
        by_cases hp : place.1 = name
        · rw [if_pos hp]
          refine iff_of_false (fun h => ?_) fun h => hne ((congrArg Prod.fst h).symm.trans hp)
          exact absurd (congrArg Prod.snd h) (Option.some_ne_none m').symm
        · rw [if_neg hp]
  · rw [if_neg hempty] at hrun
    refine ⟨r, hloop hrun, ?_, fun name' _ => rfl, fun name' m' _ => Iff.rfl⟩
    have hfilter : g.monGroups.filter (fun m => monGroupPids name m r ≠ []) = g.monGroups := by
      refine List.filter_eq_self.mpr fun m' hm' => ?_
      rw [hm, List.mem_singleton] at hm'
      rw [hm']
      exact decide_eq_true hempty
    rw [remainder, if_neg fun h => hempty (h.2.2 m hmem), hfilter, hg]

/-- In the other groups the empty mon groups go one by one. -/
theorem cleanGroup_run_many {name : String} {r : Resctrl} {g : CtrlGroup}
    (hone : ¬ (name ≠ "" ∧ g.monGroups.length = 1)) (hg : r.groups.get? name = some g)
    (hnodup : g.monGroups.Nodup) :
    ∃ r', (forM g.monGroups (cleanMonGroup name g.monGroups)).run r = .ok () r' ∧
      Swept name g r r' := by
  have hloop := wp_forM (l := g.monGroups) (f := cleanMonGroup name g.monGroups) (s := r)
    (E := fun _ _ => False) (I := fun pre t => t.groups.get? name = some { g with
        monGroups := g.monGroups.filter fun m => m ∉ pre ∨ monGroupPids name m r ≠ [] } ∧
      (∀ name', name' ≠ name → t.groups.get? name' = r.groups.get? name') ∧
      ∀ pid, place? t pid = place? r pid) ?_ ?_
  · obtain ⟨u, r', hrun, hgroup, hother, hplace⟩ := wp.returns hloop
    refine ⟨r', hrun, ?_, hother, fun name' m _ => ?_⟩
    · rw [remainder, if_neg fun h => hone ⟨h.1, h.2.1⟩, hgroup]
      congr 2
      refine List.filter_congr fun m hm => ?_
      simp [hm]
    · rw [monGroupPids_eq_nil_iff, monGroupPids_eq_nil_iff]
      simp only [hplace]
  · refine ⟨?_, fun name' _ => rfl, fun pid => rfl⟩
    rw [hg]
    simp
  · rintro pre m post t hl ⟨hgroup, hother, hplace⟩
    -- the mon group is still there, and in it are the processes it had at first
    have hpre : m ∉ pre := by
      rw [hl] at hnodup
      exact fun hm => (List.nodup_append.mp hnodup).2.2 m hm m List.mem_cons_self rfl
    have hmem : m ∈ g.monGroups := hl ▸ List.mem_append_right _ List.mem_cons_self
    have hin : m ∈ g.monGroups.filter fun m => m ∉ pre ∨ monGroupPids name m r ≠ [] :=
      List.mem_filter.mpr ⟨hmem, decide_eq_true (.inl hpre)⟩
    have hpids : monGroupPids name m t = [] ↔ monGroupPids name m r = [] := by
      rw [monGroupPids_eq_nil_iff, monGroupPids_eq_nil_iff]
      simp only [hplace]
    have hrun : (cleanMonGroup name g.monGroups m).run t = _ := cleanMonGroup_run hgroup hin
    rw [if_neg hone] at hrun
    rw [wp, hrun]
    by_cases hempty : monGroupPids name m r = []
    · rw [if_pos (hpids.mpr hempty)]
      refine ⟨?_, fun name' hne => ?_, fun pid => ?_⟩
      · rw [get?_rmdirMonGroup, hgroup, Option.map_some, if_pos rfl, List.filter_filter]
        congr 2
        refine List.filter_congr fun m' hm' => ?_
        by_cases he : m' = m
        · simp [he, hempty]
        · simp [he]
      · rw [get?_rmdirMonGroup, hother name' hne]
        cases r.groups.get? name' with
        | none => rfl
        | some g' => rw [Option.map_some, if_neg hne]
      · rw [place?_rmdirMonGroup_of_empty hgroup hin (hpids.mpr hempty), hplace]
    · rw [if_neg (mt hpids.mp hempty)]
      refine ⟨?_, hother, hplace⟩
      rw [hgroup]
      congr 2
      refine List.filter_congr fun m' hm' => ?_
      by_cases he : m' = m
      · simp [he, hempty]
      · simp [he]

theorem cleanGroup_run {name : String} {r : Resctrl} {g : CtrlGroup}
    (hg : r.groups.get? name = some g) (hnodup : g.monGroups.Nodup) :
    ∃ r', (forM g.monGroups (cleanMonGroup name g.monGroups)).run r = .ok () r' ∧
      Swept name g r r' := by
  by_cases hone : name ≠ "" ∧ g.monGroups.length = 1
  · obtain ⟨m, hm⟩ := List.length_eq_one_iff.mp hone.2
    exact cleanGroup_run_one hone.1 hg hm
  · exact cleanGroup_run_many hone hg hnodup

/-- The relation is what the directories show of some of the groups. -/
def Lists (relation : Dict String (List String)) (r : Resctrl) : Prop :=
  ∀ name monGroups, relation.get? name = some monGroups →
    ∃ g, r.groups.get? name = some g ∧ g.monGroups = monGroups ∧ monGroups.Nodup

theorem remainder_congr {name : String} {g : CtrlGroup} {r r' : Resctrl}
    (h : ∀ m, monGroupPids name m r' = [] ↔ monGroupPids name m r = []) :
    remainder name g r' = remainder name g r := by
  simp only [remainder, h, ne_eq]

/-- The whole sweep, group by group. -/
theorem cleanTasklessGroups_run {relation : Dict String (List String)} {r : Resctrl}
    (hlists : Lists relation r) : ∃ r', (cleanTasklessGroups relation).run r = .ok () r' ∧
      (∀ name, relation.get? name = none → r'.groups.get? name = r.groups.get? name) ∧
      ∀ name monGroups g, relation.get? name = some monGroups → r.groups.get? name = some g →
        r'.groups.get? name = remainder name g r := by
  have hloop := wp_forM (l := relation.items) (s := r) (E := fun _ _ => False)
    (f := fun p => forM p.2 (cleanMonGroup p.1 p.2)) (I := fun pre t =>
      (∀ name, name ∉ pre.map Prod.fst → t.groups.get? name = r.groups.get? name ∧
        ∀ m, monGroupPids name m t = [] ↔ monGroupPids name m r = []) ∧
      ∀ p ∈ pre, ∀ g, r.groups.get? p.1 = some g → t.groups.get? p.1 = remainder p.1 g r) ?_ ?_
  · obtain ⟨u, r', hrun, hrest, hdone⟩ := wp.returns hloop
    refine ⟨r', hrun, fun name hname => (hrest name ?_).1, fun name monGroups g hname hg => ?_⟩
    · exact Dict.get?_eq_none_iff.mp hname
    · exact hdone (name, monGroups) (Dict.get?_eq_some_iff.mp hname) g hg
  · exact ⟨fun name _ => ⟨rfl, fun m => Iff.rfl⟩, fun p hp => absurd hp List.not_mem_nil⟩
  · rintro pre ⟨name, monGroups⟩ post t hl ⟨hrest, hdone⟩
    have hmem : (name, monGroups) ∈ relation.items := hl ▸ List.mem_append_right _ List.mem_cons_self
    obtain ⟨g, hg, rfl, hnodup⟩ := hlists name monGroups (Dict.get?_eq_some_iff.mpr hmem)
    have hnew : name ∉ pre.map Prod.fst := by
      have hkeys := relation.nodup
      rw [hl, List.map_append, List.map_cons] at hkeys
      exact fun hin => (List.nodup_append.mp hkeys).2.2 name hin name List.mem_cons_self rfl
    obtain ⟨hsame, hpids⟩ := hrest name hnew
    obtain ⟨t', hrun, hswept⟩ := cleanGroup_run (hsame.trans hg) hnodup
    rw [wp, hrun]
    refine ⟨fun name' hname' => ?_, fun p hp g' hg' => ?_⟩
    · rw [List.map_append, List.mem_append, not_or, List.map_singleton, List.mem_singleton] at hname'
      obtain ⟨hget, hpids'⟩ := hrest name' hname'.1
      exact ⟨(hswept.other name' hname'.2).trans hget,
        fun m => (hswept.pids name' m hname'.2).trans (hpids' m)⟩
    · rcases List.mem_append.mp hp with hp | hp
      · have hne : p.1 ≠ name := fun he => hnew (he ▸ List.mem_map_of_mem hp)
        rw [hswept.other p.1 hne]
        exact hdone p hp g' hg'
      · cases List.mem_singleton.mp hp
        rw [hg] at hg'
        cases hg'
        rw [hswept.group]
        exact remainder_congr hpids

/-- The sweep removes exactly what is empty: a control group other than the root group with all of
its mon groups, and in the other groups the mon groups without a task. -/
structure RemovesEmpty (relation : Dict String (List String)) (r r' : Resctrl) : Prop where
  control : ∀ name monGroups, relation.get? name = some monGroups → name ≠ "" → monGroups ≠ [] →
    (r'.groups.get? name = none ↔ ∀ m ∈ monGroups, monGroupPids name m r = [])
  mon : ∀ name monGroups g, relation.get? name = some monGroups → r.groups.get? name = some g →
    (name = "" ∨ ∃ m ∈ monGroups, monGroupPids name m r ≠ []) → r'.groups.get? name =
      some { g with monGroups := g.monGroups.filter fun m => monGroupPids name m r ≠ [] }
  keeps : ∀ name monGroups m, relation.get? name = some monGroups → m ∈ monGroups →
    monGroupPids name m r ≠ [] → ∃ g', r'.groups.get? name = some g' ∧ m ∈ g'.monGroups
  other : ∀ name, (relation.get? name = none ∨ relation.get? name = some []) →
    r'.groups.get? name = r.groups.get? name

/-- **The sweep of groups without tasks.** It removes exactly what is empty unless some control
group other than the root group has two mon groups or more and all of them are empty. -/
theorem cleanTasklessGroups_removesEmpty_iff {relation : Dict String (List String)} {r : Resctrl}
    (hlists : Lists relation r) :
    (∃ r', (cleanTasklessGroups relation).run r = .ok () r' ∧ RemovesEmpty relation r r') ↔
      ∀ name monGroups, relation.get? name = some monGroups → name ≠ "" → 2 ≤ monGroups.length →
        ∃ m ∈ monGroups, monGroupPids name m r ≠ [] := by
  obtain ⟨r', hrun, hother, hleft⟩ := cleanTasklessGroups_run hlists
  constructor
  · rintro ⟨r'', hrun', hremoves⟩ name monGroups hname hroot htwo
    rw [hrun] at hrun'
    cases hrun'
    obtain ⟨g, hg, rfl, -⟩ := hlists name monGroups hname
    by_contra hempty
    push Not at hempty
    have hne : g.monGroups ≠ [] := fun hnil => by
      rw [hnil] at htwo
      exact absurd htwo (by simp)
    -- the group stays, though its mon groups are all empty
    have hgone := (hremoves.control name g.monGroups hname hroot hne).mpr hempty
    rw [hleft name g.monGroups g hname hg, remainder, if_neg fun hone => ?_] at hgone
    · exact Option.some_ne_none _ hgone
    · omega
  · intro h
    have hremainder : ∀ name monGroups g, relation.get? name = some monGroups →
        r.groups.get? name = some g → g.monGroups = monGroups →
        (name = "" ∨ ∃ m ∈ monGroups, monGroupPids name m r ≠ []) → r'.groups.get? name =
          some { g with monGroups := g.monGroups.filter fun m => monGroupPids name m r ≠ [] } := by
      rintro name monGroups g hname hg rfl hkept
      rw [hleft name g.monGroups g hname hg, remainder, if_neg]
      rintro ⟨hroot, -, hempty⟩
      rcases hkept with hroot' | ⟨m, hm, hpids⟩
      · exact hroot hroot'
      · exact hpids (hempty m hm)
    refine ⟨r', hrun, fun name monGroups hname hroot hne => ?_, fun name monGroups g hname hg hkept => ?_,
      fun name monGroups m hname hm hpids => ?_, fun name hname => ?_⟩
    · obtain ⟨g, hg, rfl, -⟩ := hlists name monGroups hname
      rw [hleft name g.monGroups g hname hg, remainder]
      constructor
      · intro hnone
        by_contra hempty
        rw [if_neg fun hall => hempty hall.2.2] at hnone
        exact Option.some_ne_none _ hnone
      · intro hempty
        have hone : g.monGroups.length = 1 := by
          have hpos := List.length_pos_iff.mpr hne
          by_contra hmany
          obtain ⟨m, hm, hpids⟩ := h name g.monGroups hname hroot (by omega)
          exact hpids (hempty m hm)
        rw [if_pos ⟨hroot, hone, hempty⟩]
    · obtain ⟨g', hg', hmon, -⟩ := hlists name monGroups hname
      rw [hg] at hg'
      cases hg'
      exact hremainder name monGroups g hname hg hmon hkept
    · obtain ⟨g, hg, rfl, -⟩ := hlists name monGroups hname
      refine ⟨_, hremainder name g.monGroups g hname hg rfl (.inr ⟨m, hm, hpids⟩), ?_⟩
      exact List.mem_filter.mpr ⟨hm, decide_eq_true hpids⟩
    · rcases hname with hnone | hnil
      · exact hother name hnone
      · obtain ⟨⟨monGroups, schemata⟩, hg, hmon, -⟩ := hlists name [] hnil
        cases hmon
        rw [hleft name [] _ hnil hg, remainder, if_neg fun hone => absurd hone.2.1 (by simp), hg]
        rfl

/-- Two groups next to the root group, one with a process in it. -/
def twoEmptyMonGroups : Resctrl where
  groups := Dict.ofItems [("", ⟨["c1"], ∅⟩), ("busy", ⟨["c2", "c3"], ∅⟩), ("idle", ⟨["c4", "c5"], ∅⟩)]
  procs := Dict.ofItems [(1234, ⟨"/task", true, "busy", some "c3"⟩)]
  defaultSchemata := ∅
  freeClosids := 1
  freeRmids := 1
  schemataWrites := []

/-- Without the idle group the sweep removes exactly what is empty. -/
theorem cleanTasklessGroups_removesEmpty_busy :
    ∃ r', (cleanTasklessGroups (Dict.ofItems [("", ["c1"]), ("busy", ["c2", "c3"])])).run
        twoEmptyMonGroups = .ok () r' ∧
      RemovesEmpty (Dict.ofItems [("", ["c1"]), ("busy", ["c2", "c3"])]) twoEmptyMonGroups r' := by
  refine (cleanTasklessGroups_removesEmpty_iff fun name monGroups hname => ?_).mpr
    fun name monGroups hname hroot _ => ?_
  · have hmem := Dict.mem_of_get?_ofItems hname
    obtain ⟨rfl, rfl⟩ | ⟨rfl, rfl⟩ : (name = "" ∧ monGroups = ["c1"]) ∨
        (name = "busy" ∧ monGroups = ["c2", "c3"]) := by simpa using hmem
    · exact ⟨_, rfl, rfl, by decide⟩
    · exact ⟨_, rfl, rfl, by decide⟩
  · have hmem := Dict.mem_of_get?_ofItems hname
    obtain ⟨rfl, -⟩ | ⟨rfl, rfl⟩ : (name = "" ∧ monGroups = ["c1"]) ∨
        (name = "busy" ∧ monGroups = ["c2", "c3"]) := by simpa using hmem
    · exact absurd rfl hroot
    · exact ⟨"c3", by decide, by decide⟩

/-- The idle group loses its two mon groups and stays. -/
theorem cleanTasklessGroups_leaves_group :
    Lists (Dict.ofItems [("idle", ["c4", "c5"])]) twoEmptyMonGroups ∧
      ∀ r', (cleanTasklessGroups (Dict.ofItems [("idle", ["c4", "c5"])])).run twoEmptyMonGroups =
        .ok () r' → ¬ RemovesEmpty (Dict.ofItems [("idle", ["c4", "c5"])]) twoEmptyMonGroups r' := by
  have hlists : Lists (Dict.ofItems [("idle", ["c4", "c5"])]) twoEmptyMonGroups := by
    intro name monGroups hname
    obtain ⟨rfl, rfl⟩ : name = "idle" ∧ monGroups = ["c4", "c5"] := by
      simpa using Dict.mem_of_get?_ofItems hname
    exact ⟨_, rfl, rfl, by decide⟩
  refine ⟨hlists, fun r' hrun hremoves => ?_⟩
  have hgone := (hremoves.control "idle" ["c4", "c5"] rfl (by decide) (by decide)).mpr (by decide)
  obtain ⟨r'', hrun', -, hleft⟩ := cleanTasklessGroups_run hlists
  rw [hrun] at hrun'
  cases hrun'
  have hstays := hleft "idle" ["c4", "c5"] ⟨["c4", "c5"], ∅⟩ rfl rfl
  rw [hgone] at hstays
  exact absurd hstays (by decide)

end Wca
