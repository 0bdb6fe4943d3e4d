import Wca.Departures

/-!
# Control groups without tasks

Which calls leave every control group with a task in one of its mon groups. The sweep looks at one
mon group at a time, so it needs a control group that has lost all its tasks to have a single mon
group left (`Sweepable`); and the containers are put into their groups after the sweep, so none of
them may be taken out of another group then. Over a run it is kept that every control group has a
mon group (`MonGrouped`).
-/

namespace Wca

open Py Resctrl ContainerManager

/-- Every control group other than the root group has a mon group with a task. -/
def NoTasklessGroup (r : Resctrl) : Prop :=
  ∀ name g, name ≠ RESCTRL_ROOT_NAME → r.groups.get? name = some g → ∃ m ∈ g.monGroups, r.Busy name m

/-- The names of those containers that were put into a group. -/
def namesIn (containers : List Container) (name : String) : List String :=
  (containers.filter fun container => container.resgroup = some ⟨name⟩).map Container.name

/-- The mon groups of a group without those of departing containers. -/
def staying (n : Node) (tasks : List Task) (name : String) (g : CtrlGroup) : List String :=
  g.monGroups.filter (· ∉ namesIn (departing n tasks) name)

/-- The processes of the tasks that are in mon groups of control groups are in their own ones, and
each task has its busy mon group in one control group. -/
structure OwnGroups (r : Resctrl) (tasks : List Task) : Prop where
  own : ∀ task ∈ tasks, ∀ pid name m, task.Has r pid → name ≠ RESCTRL_ROOT_NAME →
    place? r pid = some (name, some m) → m = task.containerName
  one : ∀ task ∈ tasks, ∀ name name', name ≠ RESCTRL_ROOT_NAME → name' ≠ RESCTRL_ROOT_NAME →
    r.Busy name task.containerName → r.Busy name' task.containerName → name = name'
  alive : ∀ task ∈ tasks, ∀ name, name ≠ RESCTRL_ROOT_NAME → r.Busy name task.containerName →
    ∃ pid, task.Has r pid

/-- A control group that keeps two mon groups or more keeps a task in one of them, and the tasks
have their own groups. -/
structure Sweepable (n : Node) (tasks : List Task) : Prop where
  taskIds : (tasks.map Task.taskId).Nodup
  cgroupPaths : (tasks.map Task.cgroupPath).Nodup
  cgroups : ∀ task ∈ tasks, ∀ task' ∈ tasks, ∀ path ∈ task.cgroups, path ∈ task'.cgroups →
    task.containerName = task'.containerName
  busy : ∀ name g, name ≠ RESCTRL_ROOT_NAME → n.host.resctrl.groups.get? name = some g →
    2 ≤ (staying n tasks name g).length → ∃ m ∈ staying n tasks name g, n.host.resctrl.Busy name m
  own : OwnGroups n.host.resctrl tasks

/-- Every control group other than the root group has a mon group. -/
def MonGrouped (r : Resctrl) : Prop :=
  ∀ name g, name ≠ RESCTRL_ROOT_NAME → r.groups.get? name = some g → g.monGroups ≠ []

theorem NoTasklessGroup.monGrouped {r : Resctrl} (h : NoTasklessGroup r) : MonGrouped r := by
  intro name g hname hg
  obtain ⟨m, hm, -⟩ := h name g hname hg
  exact List.ne_nil_of_mem hm

/-! ## Removing the directories of containers -/

/-- One state comes from another by removing mon groups, some of them by name: what is left of a
control group has mon groups if it had, and they are as busy as they were. -/
structure Trimmed (removed : String → List String) (r r' : Resctrl) : Prop where
  group : ∀ name g', name ≠ RESCTRL_ROOT_NAME → r'.groups.get? name = some g' →
    ∃ g, r.groups.get? name = some g ∧ g'.monGroups = g.monGroups.filter (· ∉ removed name) ∧
      (g.monGroups ≠ [] → g'.monGroups ≠ [])
  busy : ∀ name m g', name ≠ RESCTRL_ROOT_NAME → r'.groups.get? name = some g' → m ∈ g'.monGroups →
    r.Busy name m → r'.Busy name m

theorem Trimmed.refl (r : Resctrl) : Trimmed (fun _ => []) r r := by
  refine ⟨fun name g _ hg => ⟨g, hg, ?_, id⟩, fun _ _ _ _ _ _ h => h⟩
  exact (List.filter_eq_self.mpr fun m _ => decide_eq_true List.not_mem_nil).symm

theorem Trimmed.trans {removed removed' : String → List String} {r₁ r₂ r₃ : Resctrl}
    (h : Trimmed removed r₁ r₂) (h' : Trimmed removed' r₂ r₃) :
    Trimmed (fun name => removed name ++ removed' name) r₁ r₃ := by
  refine ⟨fun name g₃ hname hg₃ => ?_, fun name m g₃ hname hg₃ hm hbusy => ?_⟩
  · obtain ⟨g₂, hg₂, hmon₂, hne₂⟩ := h'.group name g₃ hname hg₃
    obtain ⟨g₁, hg₁, hmon₁, hne₁⟩ := h.group name g₂ hname hg₂
    refine ⟨g₁, hg₁, ?_, fun hne => hne₂ (hne₁ hne)⟩
    rw [hmon₂, hmon₁, List.filter_filter]
    refine List.filter_congr fun m _ => ?_
    simp only [List.mem_append, not_or, Bool.decide_and, Bool.and_comm]
  · obtain ⟨g₂, hg₂, hmon₂, -⟩ := h'.group name g₃ hname hg₃
    refine h'.busy name m g₃ hname hg₃ hm (h.busy name m g₂ hname hg₂ ?_ hbusy)
    rw [hmon₂] at hm
    exact List.mem_of_mem_filter hm

/-- A list without repetition loses at most one element. -/
theorem filter_ne_ne_nil {l : List String} {m : String} (hnodup : l.Nodup) (hlen : l.length ≠ 1)
    (hne : l ≠ []) : l.filter (· ≠ m) ≠ [] := by
  intro hnil
  have hall : ∀ a ∈ l, a = m := fun a ha => by
    have hfilter := List.filter_eq_nil_iff.mp hnil a ha
    simpa using hfilter
  cases l with
  | nil => exact hne rfl
  | cons a l =>
    cases l with
    | nil => exact hlen rfl
    | cons b l =>
      have ha := hall a List.mem_cons_self
      have hb := hall b (List.mem_cons_of_mem _ List.mem_cons_self)
      exact (List.nodup_cons.mp hnodup).1 (ha.trans hb.symm ▸ List.mem_cons_self)

theorem ResGroup.remove_trimmed {self : ResGroup} {m : String} {r r' : Resctrl} {u : Unit}
    (hwf : r.WellFormed) (h : (self.remove m).run r = .ok u r') :
    Trimmed (fun name => if self.name = name then [m] else []) r r' := by
  obtain ⟨g₀, hg₀, rfl⟩ := remove_ok hwf h
  split
  · rename_i hc
    refine ⟨fun name g' _ hg' => ?_, fun name m' g' _ hg' _ hbusy => ?_⟩
    · rw [get?_rmdirCtrlGroup] at hg'
      split at hg'
      · cases hg'
      · rename_i hne
        refine ⟨g', hg', ?_, id⟩
        rw [if_neg fun he => hne he.symm]
        exact (List.filter_eq_self.mpr fun m _ => decide_eq_true List.not_mem_nil).symm
    · rw [get?_rmdirCtrlGroup] at hg'
      split at hg'
      · cases hg'
      · rename_i hne
        obtain ⟨pid, hp⟩ := hbusy
        refine ⟨pid, ?_⟩
        rw [hwf.place?_rmdirCtrlGroup, hp, Option.map_some, if_neg hne]
  · rename_i hc
    refine ⟨fun name g' hname hg' => ?_, fun name m' g' hname hg' hm' hbusy => ?_⟩
    · rw [get?_rmdirMonGroup] at hg'
      obtain ⟨g, hg, rfl⟩ := Option.map_eq_some_iff.mp hg'
      refine ⟨g, hg, ?_, ?_⟩
      · by_cases he : name = self.name
        · rw [if_pos he, if_pos he.symm]
          refine List.filter_congr fun m' _ => ?_
          simp only [List.mem_singleton]
        · rw [if_neg he, if_neg fun h => he h.symm]
          exact (List.filter_eq_self.mpr fun m _ => decide_eq_true List.not_mem_nil).symm
      · split
        · rename_i he
          subst he
          rw [hg] at hg₀
          cases hg₀
          exact filter_ne_ne_nil (hwf.nodup _ _ hg) fun h1 => hc ⟨hname, h1⟩
        · exact id
    · obtain ⟨pid, hp⟩ := hbusy
      refine ⟨pid, ?_⟩
      rw [hwf.place?_rmdirMonGroup, hp, Option.map_some, if_neg]
      rintro he
      cases he
      rw [get?_rmdirMonGroup] at hg'
      obtain ⟨g, -, rfl⟩ := Option.map_eq_some_iff.mp hg'
      rw [if_pos rfl] at hm'
      exact of_decide_eq_true (List.mem_filter.mp hm').2 rfl

theorem Container.cleanup_trimmed {self : Container} {r r' : Resctrl} {u : Unit} (hwf : r.WellFormed)
    (hrdt : self.platform.rdtInformation.isSome = true) (h : self.cleanup.run r = .ok u r') :
    Trimmed (namesIn [self]) r r' := by
  unfold Container.cleanup at h
  cases hres : self.resgroup with
  | none =>
    rw [hres] at h
    cases h
    have hnone : namesIn [self] = fun _ => [] := by
      funext name
      simp [namesIn, hres]
    rw [hnone]
    exact .refl r
  | some resgroup =>
    rw [hres] at h
    dsimp only at h
    rw [doIf_of hrdt] at h
    have hone : namesIn [self] = fun name => if resgroup.name = name then [self.name] else [] := by
      funext name
      unfold namesIn
      rw [List.filter_singleton, hres]
      by_cases he : resgroup.name = name
      · subst he
        simp
      · have hne : ¬ some resgroup = some ⟨name⟩ := fun hs => he (by rw [Option.some.inj hs])
        simp [he, hne]
    rw [hone]
    exact ResGroup.remove_trimmed hwf h

theorem cleanupContainers_trimmed {containers : List Container} {n n' : Node}
    (hwf : n.host.resctrl.WellFormed)
    (hrdt : ∀ container ∈ containers, container.platform.rdtInformation.isSome = true)
    (h : (forM containers cleanupContainer).run n = .ok ⟨⟩ n') :
    Trimmed (namesIn containers) n.host.resctrl n'.host.resctrl := by
  induction containers generalizing n with
  | nil =>
    cases h
    exact .refl _
  | cons container containers ih =>
    obtain ⟨t, hhead, h⟩ := forM_cons_ok_iff.mp h
    obtain ⟨hrdt₁, hrdt⟩ := List.forall_mem_cons.mp hrdt
    have hcleanup := cleanupContainer_host hhead
    have hfirst := Container.cleanup_trimmed hwf hrdt₁ hcleanup
    have hrest := ih (Container.cleanup_tree hwf hcleanup).2 hrdt h
    have happend : namesIn (container :: containers) =
        fun name => namesIn [container] name ++ namesIn containers name := by
      funext name
      rw [namesIn, namesIn, namesIn, ← List.map_append, ← List.filter_append, List.singleton_append]
    rw [happend]
    exact hfirst.trans hrest

/-! ## The relation of groups and mon groups -/

section Relation

variable {r : Resctrl} {relation : Dict String (List String)}

theorem get?_readMonGroupsRelation (h : readMonGroupsRelation r = .ok relation) (name : String) :
    relation.get? name = (r.groups.get? name).map CtrlGroup.monGroups := by
  unfold readMonGroupsRelation at h
  split at h
  · cases h
  · rename_i root hroot
    cases h
    rw [Dict.get?_update, Dict.get?_map, Dict.get?_set]
    split
    · rename_i he
      rw [he, hroot]
      rfl
    · rw [Dict.get?_empty, Option.or_none]

/-- The root group comes first. -/
theorem items_readMonGroupsRelation (h : readMonGroupsRelation r = .ok relation) :
    ∃ monGroups rest, relation.items = (RESCTRL_ROOT_NAME, monGroups) :: rest := by
  unfold readMonGroupsRelation at h
  split at h
  · cases h
  · rename_i root _
    cases h
    obtain ⟨rest, hrest⟩ := Dict.keys_prefix_update
      ((∅ : Dict String (List String)).set RESCTRL_ROOT_NAME root.monGroups)
      (r.groups.map fun _ g => g.monGroups)
    rw [Dict.keys, Dict.keys] at hrest
    obtain ⟨p, items, hitems, hp, -⟩ := List.map_eq_cons_iff.mp hrest.symm
    exact ⟨p.2, items, hitems.trans (congrArg (· :: items) (Prod.ext hp rfl))⟩

/-- The group that a name is found in: the last one that has it. -/
theorem get?_foldl_groups (l : List (String × List String)) (d : Dict String String) (m : String) :
    (∃ pre p post, l = pre ++ p :: post ∧ m ∈ p.2 ∧ (∀ q ∈ post, m ∉ q.2) ∧
      (l.foldl (fun d p => p.2.foldl (fun d name => d.set name p.1) d) d).get? m = some p.1) ∨
    ((∀ p ∈ l, m ∉ p.2) ∧
      (l.foldl (fun d p => p.2.foldl (fun d name => d.set name p.1) d) d).get? m = d.get? m) := by
  have hinner : ∀ (names : List String) (group : String) (d : Dict String String),
      (names.foldl (fun d name => d.set name group) d).get? m =
        if m ∈ names then some group else d.get? m := by
    intro names group
    induction names with
    | nil => exact fun d => rfl
    | cons name names ih =>
      intro d
      rw [List.foldl_cons, ih, Dict.get?_set]
      by_cases hm : m ∈ names
      · rw [if_pos hm, if_pos (List.mem_cons_of_mem name hm)]
      · simp only [hm, if_false, List.mem_cons, or_false]
  induction l generalizing d with
  | nil => exact .inr ⟨fun p hp => absurd hp List.not_mem_nil, rfl⟩
  | cons p l ih =>
    obtain ⟨pre, q, post, rfl, hq, hpost, hget⟩ | ⟨hnone, hget⟩ :=
      ih (p.2.foldl (fun d name => d.set name p.1) d)
    · exact .inl ⟨p :: pre, q, post, rfl, hq, hpost, hget⟩
    · rw [List.foldl_cons, hget, hinner]
      by_cases hm : m ∈ p.2
      · rw [if_pos hm]
        exact .inl ⟨[], p, l, rfl, hm, hnone, rfl⟩
      · rw [if_neg hm]
        exact .inr ⟨List.forall_mem_cons.mpr ⟨hm, hnone⟩, rfl⟩

/-- The group of a container has a mon group of its name, or it is the root group, and this only if
no other group has one. -/
theorem getD_containerNameToCtrlGroup (h : readMonGroupsRelation r = .ok relation) (m : String) :
    (((containerNameToCtrlGroup relation).get? m).getD RESCTRL_ROOT_NAME = RESCTRL_ROOT_NAME ∧
      ∀ name g, name ≠ RESCTRL_ROOT_NAME → r.groups.get? name = some g → m ∉ g.monGroups) ∨
    (((containerNameToCtrlGroup relation).get? m).getD RESCTRL_ROOT_NAME ≠ RESCTRL_ROOT_NAME ∧
      ∃ g, r.groups.get? (((containerNameToCtrlGroup relation).get? m).getD RESCTRL_ROOT_NAME) = some g ∧
        m ∈ g.monGroups) := by
  have hmem : ∀ name g, r.groups.get? name = some g → (name, g.monGroups) ∈ relation.items := by
    intro name g hg
    rw [← Dict.get?_eq_some_iff, get?_readMonGroupsRelation h, hg]
    rfl
  unfold containerNameToCtrlGroup
  obtain ⟨pre, ⟨group, names⟩, post, hl, hm, hpost, hget⟩ | ⟨hnone, hget⟩ :=
    get?_foldl_groups relation.items ∅ m
  · rw [hget, Option.getD_some]
    dsimp only at hm ⊢
    by_cases hroot : group = RESCTRL_ROOT_NAME
    · refine .inl ⟨hroot, fun name g hname hg hin => ?_⟩
      -- the root group is the first item, so every other group comes after it
      subst hroot
      obtain ⟨rootNames, rest, hitems⟩ := items_readMonGroupsRelation h
      obtain ⟨hpre, -⟩ := Dict.nodup_of_items_append hl
      have hfirst : pre = [] := by
        cases pre with
        | nil => rfl
        | cons p pre =>
          rw [hl, List.cons_append, List.cons.injEq] at hitems
          rw [hitems.1] at hpre
          exact absurd List.mem_cons_self hpre
      rw [hfirst, List.nil_append] at hl
      have hitem := hmem name g hg
      rw [hl] at hitem
      obtain he | hitem := List.mem_cons.mp hitem
      · exact hname (congrArg Prod.fst he)
      · exact hpost _ hitem hin
    · refine .inr ⟨hroot, ?_⟩
      have hin : (group, names) ∈ relation.items := hl ▸ List.mem_append_right _ List.mem_cons_self
      have hgroup := Dict.get?_eq_some_iff.mpr hin
      rw [get?_readMonGroupsRelation h] at hgroup
      obtain ⟨g, hg, rfl⟩ := Option.map_eq_some_iff.mp hgroup
      exact ⟨g, hg, hm⟩
  · rw [hget]
    exact .inl ⟨rfl, fun name g _ hg => hnone _ (hmem name g hg)⟩

end Relation

/-! ## The sweep -/

/-- Every mon group of a control group is busy, and each control group has one. -/
def AllBusy (r : Resctrl) : Prop :=
  ∀ name g, name ≠ RESCTRL_ROOT_NAME → r.groups.get? name = some g →
    g.monGroups ≠ [] ∧ ∀ m ∈ g.monGroups, r.Busy name m

theorem AllBusy.noTasklessGroup {r : Resctrl} (h : AllBusy r) : NoTasklessGroup r := by
  intro name g hname hg
  obtain ⟨hne, hbusy⟩ := h name g hname hg
  obtain ⟨m, hm⟩ := List.exists_mem_of_ne_nil _ hne
  exact ⟨m, hm, hbusy m hm⟩

theorem AllBusy.trimmed {r r' : Resctrl} {removed : String → List String} (h : AllBusy r)
    (htrimmed : Trimmed removed r r') : AllBusy r' := by
  intro name g' hname hg'
  obtain ⟨g, hg, hmon, hne⟩ := htrimmed.group name g' hname hg'
  obtain ⟨hne', hbusy⟩ := h name g hname hg
  refine ⟨hne hne', fun m hm => htrimmed.busy name m g' hname hg' hm (hbusy m ?_)⟩
  rw [hmon] at hm
  exact List.mem_of_mem_filter hm

section Sweep

variable {r r' : Resctrl} {relation : Dict String (List String)} {u : Unit}

/-- The sweep takes nobody out of a mon group. -/
theorem cleanTasklessGroups_place (hwf : r.WellFormed) (hread : readMonGroupsRelation r = .ok relation)
    (h : (cleanTasklessGroups relation).run r = .ok u r') {pid : Pid} {name m : String}
    (hplace : place? r pid = some (name, some m)) : place? r' pid = some (name, some m) := by
  have hloop : Reduced r r' ∧ r'.WellFormed ∧ place? r' pid = some (name, some m) := by
    refine forM_ok_inv (I := fun t => Reduced r t ∧ t.WellFormed ∧
      place? t pid = some (name, some m)) h ⟨.refl r, hwf, hplace⟩ ?_
    rintro ⟨group, monGroups⟩ hitem t t' ht hgroup
    refine forM_ok_inv (I := fun t => Reduced r t ∧ t.WellFormed ∧
      place? t pid = some (name, some m)) hgroup ht ?_
    rintro m' hm' t₁ t₂ ⟨hred, hwf₁, hplace₁⟩ hclean
    obtain rfl | ⟨hempty, ⟨hroot, hone, rfl⟩ | rfl⟩ := cleanMonGroup_ok hclean
    · exact ⟨hred, hwf₁, hplace₁⟩
    · refine ⟨hred.trans hwf₁.reduced_rmdirCtrlGroup, hwf₁.rmdirCtrlGroup hroot, ?_⟩
      rw [hwf₁.place?_rmdirCtrlGroup, hplace₁, Option.map_some, if_neg]
      -- the group has no mon group but the empty one
      intro he
      dsimp only at he hone hm'
      subst he
      obtain ⟨g₁, hg₁, hin⟩ := hwf₁.place pid name (some m) hplace₁
      obtain ⟨g, hg, hsub⟩ := hred.group name g₁ hg₁
      have hlist := get?_readMonGroupsRelation hread name
      rw [hg, Dict.get?_eq_some_iff.mpr hitem] at hlist
      cases hlist
      obtain ⟨m₀, hm₀⟩ := List.length_eq_one_iff.mp hone
      have hm := hsub (hin m rfl)
      rw [hm₀, List.mem_singleton] at hm hm'
      rw [hm', ← hm] at hempty
      exact monGroupPids_eq_nil_iff.mp hempty pid hplace₁
    · refine ⟨hred.trans hwf₁.reduced_rmdirMonGroup, hwf₁.rmdirMonGroup, ?_⟩
      rw [hwf₁.place?_rmdirMonGroup, hplace₁, Option.map_some, if_neg]
      intro he
      cases he
      exact monGroupPids_eq_nil_iff.mp hempty pid hplace₁
  exact hloop.2.2

/-- Where a control group with two mon groups or more has a busy one, the sweep leaves only busy
mon groups. -/
theorem cleanTasklessGroups_allBusy (hwf : r.WellFormed)
    (hread : readMonGroupsRelation r = .ok relation)
    (h : (cleanTasklessGroups relation).run r = .ok u r') (hmon : MonGrouped r)
    (hbusy : ∀ name g, name ≠ RESCTRL_ROOT_NAME → r.groups.get? name = some g →
      2 ≤ g.monGroups.length → ∃ m ∈ g.monGroups, r.Busy name m) : AllBusy r' := by
  have hlists : Lists relation r := by
    intro name monGroups hname
    rw [get?_readMonGroupsRelation hread] at hname
    obtain ⟨g, hg, rfl⟩ := Option.map_eq_some_iff.mp hname
    exact ⟨g, hg, rfl, hwf.nodup name g hg⟩
  obtain ⟨r'', hrun, hother, hleft⟩ := cleanTasklessGroups_run hlists
  rw [h] at hrun
  cases hrun
  intro name g' hname hg'
  cases hg : r.groups.get? name with
  | none =>
    have hnone : relation.get? name = none := by rw [get?_readMonGroupsRelation hread, hg]; rfl
    rw [hother name hnone, hg] at hg'
    cases hg'
  | some g =>
    have hlist : relation.get? name = some g.monGroups := by
      rw [get?_readMonGroupsRelation hread, hg]
      rfl
    rw [hleft name g.monGroups g hlist hg, remainder] at hg'
    split at hg'
    · cases hg'
    · rename_i hstays
      cases hg'
      refine ⟨fun hnil => hstays ⟨hname, ?_⟩, fun m hm => ?_⟩
      · -- all of them are empty, so there is one
        have hempty : ∀ m ∈ g.monGroups, monGroupPids name m r = [] := fun m hm => by
          have hfilter := List.filter_eq_nil_iff.mp hnil m hm
          exact not_not.mp fun hne => hfilter (decide_eq_true hne)
        refine ⟨?_, hempty⟩
        have hpos := List.length_pos_iff.mpr (hmon name g hname hg)
        by_contra hmany
        obtain ⟨m, hm, hb⟩ := hbusy name g hname hg (by omega)
        exact busy_iff.mp hb (hempty m hm)
      · obtain ⟨pid, hp⟩ := busy_iff.mpr (of_decide_eq_true (List.mem_filter.mp hm).2)
        exact ⟨pid, cleanTasklessGroups_place hwf hread h hp⟩

end Sweep

/-! ## A call -/

theorem Container.cleanup_allBusy {self : Container} {r r' : Resctrl} {u : Unit} (hwf : r.WellFormed)
    (hbusy : AllBusy r) (h : self.cleanup.run r = .ok u r') : AllBusy r' := by
  unfold Container.cleanup at h
  split at h
  · cases h
    exact hbusy
  · obtain ⟨-, hremove⟩ | ⟨-, rfl⟩ := doIf_ok_iff.mp h
    · exact hbusy.trimmed (ResGroup.remove_trimmed hwf hremove)
    · exact hbusy

namespace ContainerManager.Phases

variable {tasks : List Task} {n n₁ n₂ n₃ n₄ n' : Node} {groups : Dict String String}
  (h : Phases tasks n n₁ n₂ n₃ n₄ n' groups) (hs : n.Sound)

include h hs

/-- The sweep finds control groups of which it leaves only busy mon groups. -/
theorem sweep_allBusy (hok : Sweepable n tasks) (hmon : MonGrouped n.host.resctrl) :
    AllBusy n₂.host.resctrl := by
  have hrdt : ∀ container ∈ departing n tasks, container.platform.rdtInformation.isSome = true := by
    intro container hmem
    obtain ⟨⟨task, container⟩, hvalue, rfl⟩ := List.mem_map.mp (List.mem_of_mem_filter hmem)
    obtain ⟨id, hitem⟩ := Dict.mem_values.mp hvalue
    rw [(hs.container id task container (Dict.get?_eq_some_iff.mpr hitem)).2.platform]
    exact hs.rdt
  have htrimmed := cleanupContainers_trimmed hs.tree hrdt h.cleanup
  obtain ⟨relation, relation', hread, hclean, -, -⟩ := h.sweep_host hs.rdt
  refine cleanTasklessGroups_allBusy (h.cleanup_tree hs.tree).2 hread hclean ?_ ?_
  · intro name g' hname hg'
    obtain ⟨g, hg, -, hne⟩ := htrimmed.group name g' hname hg'
    exact hne (hmon name g hname hg)
  · intro name g' hname hg' htwo
    obtain ⟨g, hg, hstaying, -⟩ := htrimmed.group name g' hname hg'
    rw [hstaying] at htwo ⊢
    obtain ⟨m, hm, hbusy⟩ := hok.busy name g hname hg htwo
    exact ⟨m, hm, htrimmed.busy name m g' hname hg' (hstaying ▸ hm) hbusy⟩

theorem refresh_allBusy (hbusy : AllBusy n₂.host.resctrl) : AllBusy n₄.host.resctrl := by
  have hwf₂ : n₂.host.resctrl.WellFormed := by
    obtain ⟨relation, relation', -, hclean, -, -⟩ := h.sweep_host hs.rdt
    exact (cleanTasklessGroups_tree (h.cleanup_tree hs.tree).2 hclean).2
  have hhost := createNewContainers_host h.create
  rw [← hhost] at hwf₂ hbusy
  have hloop := forM_ok_inv (I := fun t : Node => t.host.resctrl.WellFormed ∧ AllBusy t.host.resctrl)
    h.refresh ⟨hwf₂, hbusy⟩ ?_
  · exact hloop.2
  · rintro id - t t' ⟨hwf, hbusy⟩ hrefresh
    obtain hsame | ⟨container, hcleanup⟩ := refreshContainer_host hrefresh
    · rw [hsame]
      exact ⟨hwf, hbusy⟩
    · exact ⟨(Container.cleanup_tree hwf hcleanup).2, Container.cleanup_allBusy hwf hbusy hcleanup⟩

/-- In the last phase every control group has a task, and the processes of the tasks that are in mon
groups are in those that they are put into. -/
structure Assigned (tasks : List Task) (groups : Dict String String) (r : Resctrl) : Prop where
  tasked : NoTasklessGroup r
  own : ∀ task ∈ tasks, ∀ pid name m, task.Has r pid → name ≠ RESCTRL_ROOT_NAME →
    place? r pid = some (name, some m) → m = task.containerName ∧
      (groups.get? m).getD RESCTRL_ROOT_NAME = name

/-- A container that is put into a control group other than the root group has its busy mon group
there. -/
theorem busy_of_group (hallBusy : AllBusy n₂.host.resctrl) {m : String}
    (hroot : (groups.get? m).getD RESCTRL_ROOT_NAME ≠ RESCTRL_ROOT_NAME) :
    n.host.resctrl.Busy ((groups.get? m).getD RESCTRL_ROOT_NAME) m := by
  obtain ⟨hred₁, hwf₁⟩ := h.cleanup_tree hs.tree
  obtain ⟨relation, relation', -, hclean, hread, rfl⟩ := h.sweep_host hs.rdt
  obtain ⟨hred₂, -⟩ := cleanTasklessGroups_tree hwf₁ hclean
  obtain ⟨he, -⟩ | ⟨-, g, hg, hm⟩ := getD_containerNameToCtrlGroup hread m
  · exact absurd he hroot
  · obtain ⟨pid, hp⟩ := (hallBusy _ g hroot hg).2 m hm
    exact ⟨pid, (hred₁.trans hred₂).place pid _ m hp⟩

/-- A process of a task that is in a mon group before the last phase is in that of its task, in the
group that the task's container is put into. -/
theorem assigned_before (hok : Sweepable n tasks) (hallBusy : AllBusy n₂.host.resctrl) :
    Assigned tasks groups n₄.host.resctrl := by
  obtain ⟨hred, -⟩ := h.before_sync hs hok.taskIds hok.cgroupPaths
  refine ⟨(h.refresh_allBusy hs hallBusy).noTasklessGroup, fun task htask pid name m hpid hname hp => ?_⟩
  have hbefore := hred.place pid name m hp
  have hm := hok.own.own task htask pid name m ((Task.has_congr hred.kinds).mp hpid) hname hbefore
  refine ⟨hm, ?_⟩
  obtain ⟨relation, relation', -, hclean, hread, hgroups⟩ := h.sweep_host hs.rdt
  have hwf₂ := (cleanTasklessGroups_tree (h.cleanup_tree hs.tree).2 hclean).2
  obtain ⟨g, hg, hmem⟩ := hwf₂.place pid name (some m) ((h.refresh_tree hwf₂).1.place pid name m hp)
  have hin := hmem m rfl
  have hroot : (groups.get? m).getD RESCTRL_ROOT_NAME ≠ RESCTRL_ROOT_NAME := by
    rw [hgroups]
    obtain ⟨-, hnone⟩ | ⟨hroot, -⟩ := getD_containerNameToCtrlGroup hread m
    · exact absurd hin (hnone name g hname hg)
    · exact hroot
  have hbusy := h.busy_of_group hs hallBusy hroot
  subst hm
  exact hok.own.one task htask _ name hroot hname hbusy ⟨pid, hbefore⟩

/-- **One call.** Where the tasks have their own groups and the sweep finds what it can remove, a
call leaves every control group with a task. -/
theorem noTasklessGroup (hok : Sweepable n tasks) (hmon : MonGrouped n.host.resctrl) :
    NoTasklessGroup n'.host.resctrl := by
  have hallBusy := h.sweep_allBusy hs hok hmon
  obtain ⟨hred, hs₄⟩ := h.before_sync hs hok.taskIds hok.cgroupPaths
  have hrule := syncContainers_rule (I := fun _ => Assigned tasks groups) hs₄
    n₃.manager.containers.nodup (fun id hid => (h.mem_keys hs hok.taskIds hok.cgroupPaths).mp hid)
    h.sync (h.assigned_before hs hok hallBusy) ?_
  · exact hrule.1.tasked
  · intro pre id task container t t' _ _ hget hkinds ht hadded
    obtain ⟨htask, hmade, hnamed⟩ := h.container hs hok.taskIds hok.cgroupPaths hget
    have hname : container.name = task.containerName := by
      rw [hnamed.name, hmade.cgroupPath, Task.containerName]
    have hpids : ∀ pid, pid ∈ container.getPids true n₄.host.resctrl ↔ task.Has t pid := fun pid =>
      hmade.mem_getPids.trans (Task.has_congr hkinds).symm
    refine ⟨fun name g hroot hg => ?_, fun task' htask' pid name m hpid hroot hp => ?_⟩
    · by_cases he : name = groupOf groups container
      · -- the container has a process, which is in the group now
        subst he
        have hbusy := h.busy_of_group hs hallBusy hroot
        rw [hname] at hbusy
        obtain ⟨pid, hpid⟩ := hok.own.alive task htask _ (hname ▸ hroot) hbusy
        have hmem := (hpids pid).mpr
          ((Task.has_congr (hkinds.trans hred.kinds)).mpr hpid)
        obtain ⟨g', hg', hm⟩ := hadded.mem_monGroups
        rw [hg] at hg'
        cases hg'
        exact ⟨container.name, hm, pid, by rw [hadded.place, if_pos hmem]⟩
      · rw [hadded.other name he] at hg
        obtain ⟨m, hm, pid, hp⟩ := ht.tasked name g hroot hg
        refine ⟨m, hm, pid, ?_⟩
        rw [hadded.place, if_neg, hp]
        intro hmem
        obtain ⟨hown, hgroup⟩ := ht.own task htask pid name m ((hpids pid).mp hmem) hroot hp
        rw [hown, ← hname] at hgroup
        exact he hgroup.symm
    · rw [Task.has_congr hadded.kinds] at hpid
      rw [hadded.place] at hp
      split at hp
      · rename_i hmem
        cases hp
        obtain ⟨p, hget₁, hcgroup⟩ := (hpids pid).mp hmem
        obtain ⟨p', hget₂, hcgroup'⟩ := hpid
        rw [hget₁] at hget₂
        cases hget₂
        exact ⟨hname.trans (hok.cgroups task htask task' htask' p.cgroup hcgroup hcgroup'), rfl⟩
      · exact ht.own task' htask' pid name m hpid hroot hp

end ContainerManager.Phases

/-! ## Runs -/

theorem MonGrouped.added {r r' : Resctrl} {name m : String} {pids : List Pid} (h : MonGrouped r)
    (hadded : Added name pids m r r') : MonGrouped r' := by
  intro name' g hroot hg
  by_cases he : name' = name
  · subst he
    obtain ⟨g', hg', hm⟩ := hadded.mem_monGroups
    rw [hg] at hg'
    cases hg'
    exact List.ne_nil_of_mem hm
  · rw [hadded.other name' he] at hg
    exact h name' g hroot hg

/-- A control group that is left is removed, or keeps its mon groups. -/
theorem MonGrouped.leave {r : Resctrl} {source m : String} {src : CtrlGroup} (h : MonGrouped r)
    (hsrc : r.groups.get? source = some src) : MonGrouped (leave source m src r) := by
  intro name g hroot hg
  rw [get?_leave hsrc] at hg
  split at hg
  · rename_i he
    subst he
    unfold left at hg
    split at hg
    · cases hg
    · cases hg
      exact h name src hroot hsrc
  · exact h name g hroot hg

theorem Performs.monGrouped {n n' : Node} (h : Performs n n') (hmon : MonGrouped n.host.resctrl) :
    MonGrouped n'.host.resctrl := by
  obtain ⟨-, -, hhost, hrun⟩ := h
  obtain ⟨r, hmove, hsame⟩ := RDTAllocationValue.performAllocations_tree hrun
  rw [hhost] at hmove
  intro name g hroot hg
  obtain ⟨g', hg', hmonGroups⟩ := hsame.symm.group hg
  rw [← hmonGroups]
  obtain rfl | ⟨resgroup, source, r₁, src, hadded, hsrc, rfl⟩ :=
    RDTAllocationValue.moveIfAsked_ok hmove
  · exact hmon name g' hroot hg'
  · exact (hmon.added hadded).leave hsrc name g' hroot hg'

/-- **No leaked control group.** From a state in which every control group other than the root group
has a task, in a run whose calls find what the sweep can remove, every call leaves such a state. -/
theorem runs_leave_no_tasklessGroup {n₀ n n' : Node} {tasks : List Task} (hs : n₀.Sound)
    (h0 : NoTasklessGroup n₀.host.resctrl) (hrun : Runs Sweepable n₀ n) (hok : Sweepable n tasks)
    (h : (syncContainersState tasks).run n = .ok ⟨⟩ n') : NoTasklessGroup n'.host.resctrl := by
  have hkept : n.Sound ∧ MonGrouped n.host.resctrl := by
    refine hrun.invariant (I := fun n => n.Sound ∧ MonGrouped n.host.resctrl) ⟨hs, h0.monGrouped⟩
      ?_ ?_ ?_
    · rintro n n' tasks ⟨hs, hmon⟩ hok h
      obtain ⟨n₁, n₂, n₃, n₄, groups, hphases⟩ := syncContainersState_phases h
      exact ⟨syncContainersState_sound hs hok.taskIds hok.cgroupPaths h,
        (hphases.noTasklessGroup hs hok hmon).monGrouped⟩
    · rintro n n' ⟨hs, hmon⟩ h
      exact ⟨h.sound hs, h.monGrouped hmon⟩
    · rintro n host ⟨hs, hmon⟩ h
      refine ⟨h.sound hs, fun name g hroot hg => hmon name g hroot ?_⟩
      rw [← h.groups_eq]
      exact hg
  obtain ⟨n₁, n₂, n₃, n₄, groups, hphases⟩ := syncContainersState_phases h
  exact hphases.noTasklessGroup hkept.1 hok hkept.2

section

open SmallHost

/-- Nothing is watched yet, and two processes share the group `g`. -/
def sharedG : Node := starting (host [("a", "g"), ("b", "g")])

theorem sharedG_sound : sharedG.Sound := starting_sound (wellFormed_of_items (by decide) (by decide) (by decide))

theorem group_sharedG {name : String} {g : CtrlGroup} (hroot : name ≠ RESCTRL_ROOT_NAME)
    (hg : sharedG.host.resctrl.groups.get? name = some g) : name = "g" ∧ g = ⟨["a", "b"], schemata⟩ := by
  have hitems : sharedG.host.resctrl.groups.items =
      [("", ⟨[], schemata⟩), ("g", ⟨["a", "b"], schemata⟩)] := rfl
  have hmem := Dict.get?_eq_some_iff.mp hg
  rw [hitems] at hmem
  obtain he | he := List.mem_cons.mp hmem
  · exact absurd (congrArg Prod.fst he) hroot
  · cases List.mem_singleton.mp he
    exact ⟨rfl, rfl⟩

theorem sharedG_tasked : NoTasklessGroup sharedG.host.resctrl := by
  intro name g hroot hg
  obtain ⟨rfl, rfl⟩ := group_sharedG hroot hg
  exact ⟨"b", by decide, 1, by decide⟩

/-- A process has ended. -/
def ended (pid : Pid) (n : Node) : Node :=
  { n with host := { n.host with resctrl := { n.host.resctrl with
    procs := n.host.resctrl.procs.erase pid } } }

theorem sweepable_ended : Sweepable (ended 0 sharedG) [SmallHost.task "b"] := by
  have hplace : ∀ pid place, place? (ended 0 sharedG).host.resctrl pid = some place →
      pid = 1 ∧ place = ("g", some "b") := by
    intro pid place hp
    obtain ⟨p, hget, rfl⟩ := Option.map_eq_some_iff.mp hp
    cases List.mem_singleton.mp (Dict.get?_eq_some_iff.mp hget)
    exact ⟨rfl, rfl⟩
  have hbusy : ∀ name m, (ended 0 sharedG).host.resctrl.Busy name m → name = "g" ∧ m = "b" := by
    rintro name m ⟨pid, hp⟩
    cases (hplace pid _ hp).2
    exact ⟨rfl, rfl⟩
  refine ⟨by decide, by decide, ?_, fun name g hroot hg _ => ?_, ⟨?_, ?_, ?_⟩⟩
  · intro task htask task' htask' _ _ _
    rw [List.mem_singleton.mp htask, List.mem_singleton.mp htask']
  · obtain ⟨rfl, rfl⟩ := group_sharedG hroot hg
    exact ⟨"b", by decide, 1, by decide⟩
  · intro task htask pid name m _ _ hp
    cases (hplace pid _ hp).2
    rw [List.mem_singleton.mp htask]
    rfl
  · intro task _ name name' _ _ hb hb'
    rw [(hbusy name _ hb).1, (hbusy name' _ hb').1]
  · intro task htask name _ _
    rw [List.mem_singleton.mp htask]
    exact ⟨1, _, rfl, by decide⟩

/-- When only the process of `a` has ended the group `g` stays for that of `b`. -/
theorem runs_leave_no_tasklessGroup_ended : ∃ n',
    (syncContainersState [SmallHost.task "b"]).run (ended 0 sharedG) = .ok ⟨⟩ n' ∧
      NoTasklessGroup n'.host.resctrl := by
  obtain ⟨_, n', hrun, -⟩ := exists_of_returnsSuch (p := fun _ _ => true)
    (r := (syncContainersState [SmallHost.task "b"]).run (ended 0 sharedG)) (by decide +kernel)
  have hreached : Runs Sweepable sharedG (ended 0 sharedG) := .outside .start (.ends 0)
  exact ⟨n', hrun, runs_leave_no_tasklessGroup sharedG_sound sharedG_tasked hreached
    sweepable_ended hrun⟩

/-- When both processes have ended the group `g` loses its mon groups one by one, and stays. -/
theorem group_leaks : sharedG.Sound ∧ NoTasklessGroup sharedG.host.resctrl ∧
    Runs (fun _ _ => True) sharedG (ended 1 (ended 0 sharedG)) ∧
      ∃ n', (syncContainersState []).run (ended 1 (ended 0 sharedG)) = .ok ⟨⟩ n' ∧
        (n'.host.resctrl.groups.get? "g").map CtrlGroup.monGroups = some [] ∧
        ¬ NoTasklessGroup n'.host.resctrl := by
  have hreached : Runs (fun _ _ => True) sharedG (ended 1 (ended 0 sharedG)) :=
    .outside (.outside .start (.ends 0)) (.ends 1)
  obtain ⟨_, n', hrun, hleft⟩ := exists_of_returnsSuch
    (p := fun _ (n' : Node) =>
      decide ((n'.host.resctrl.groups.get? "g").map CtrlGroup.monGroups = some []))
    (r := (syncContainersState []).run (ended 1 (ended 0 sharedG))) (by decide +kernel)
  have hleft := of_decide_eq_true hleft
  refine ⟨sharedG_sound, sharedG_tasked, hreached, n', hrun, hleft, fun htasked => ?_⟩
  obtain ⟨g, hg, hmon⟩ := Option.map_eq_some_iff.mp hleft
  obtain ⟨m, hm, -⟩ := htasked "g" g (by decide) hg
  rw [hmon] at hm
  cases hm

end

end Wca
