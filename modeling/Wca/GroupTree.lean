import Wca.Bandwidth
import Wca.Moves

/-!
# The tree of groups

What the operations keep of the resctrl file system. The tree stays well formed: the root group is
there, no mon group is listed twice, and every process is in a group and a mon group that are there.
Removing directories only takes processes out of mon groups (`Reduced`), and writing schemata leaves
the tree as it is (`SameTree`).
-/

namespace Wca

open Py

namespace Resctrl

structure WellFormed (r : Resctrl) : Prop where
  root : ∃ g, r.groups.get? RESCTRL_ROOT_NAME = some g
  nodup : ∀ name g, r.groups.get? name = some g → g.monGroups.Nodup
  place : ∀ pid name x, place? r pid = some (name, x) →
    ∃ g, r.groups.get? name = some g ∧ ∀ m, x = some m → m ∈ g.monGroups

theorem wellFormed_of_items {r : Resctrl} (hroot : RESCTRL_ROOT_NAME ∈ r.groups.keys)
    (hnodup : ∀ p ∈ r.groups.items, p.2.monGroups.Nodup)
    (hplace : ∀ p ∈ r.procs.items, ((r.groups.get? p.2.ctrlGroup).any fun g =>
      p.2.monGroup.all (· ∈ g.monGroups)) = true) : WellFormed r := by
  refine ⟨Dict.mem_keys_iff_get?.mp hroot, fun name g hg => ?_, fun pid name x hp => ?_⟩
  · exact hnodup (name, g) (Dict.get?_eq_some_iff.mp hg)
  · obtain ⟨p, hget, he⟩ := Option.map_eq_some_iff.mp hp
    cases he
    obtain ⟨g, hg, hall⟩ :=
      (Option.any_eq_true _ _).mp (hplace (pid, p) (Dict.get?_eq_some_iff.mp hget))
    refine ⟨g, hg, fun m hm => ?_⟩
    rw [hm] at hall
    exact of_decide_eq_true hall

/-- There is a process in the mon group. -/
def Busy (r : Resctrl) (name m : String) : Prop := ∃ pid, place? r pid = some (name, some m)

theorem busy_iff {r : Resctrl} {name m : String} : r.Busy name m ↔ monGroupPids name m r ≠ [] := by
  rw [ne_eq, monGroupPids_eq_nil_iff, Busy, not_forall]
  simp only [not_not]

/-- One state comes from another by removing directories. -/
structure Reduced (r r' : Resctrl) : Prop where
  kinds : kinds r' = kinds r
  place : ∀ pid name m, place? r' pid = some (name, some m) → place? r pid = some (name, some m)
  group : ∀ name g', r'.groups.get? name = some g' →
    ∃ g, r.groups.get? name = some g ∧ g'.monGroups ⊆ g.monGroups

theorem Reduced.refl (r : Resctrl) : Reduced r r :=
  ⟨rfl, fun _ _ _ h => h, fun _ g h => ⟨g, h, fun _ hm => hm⟩⟩

theorem Reduced.trans {r₁ r₂ r₃ : Resctrl} (h : Reduced r₁ r₂) (h' : Reduced r₂ r₃) :
    Reduced r₁ r₃ := by
  refine ⟨h'.kinds.trans h.kinds, fun pid name m hp => ?_, fun name g₃ hg₃ => ?_⟩
  · exact h.place pid name m (h'.place pid name m hp)
  · obtain ⟨g₂, hg₂, hsub⟩ := h'.group name g₃ hg₃
    obtain ⟨g₁, hg₁, hsub'⟩ := h.group name g₂ hg₂
    exact ⟨g₁, hg₁, fun m hm => hsub' (hsub hm)⟩

/-- One state comes from another by writing schemata. -/
structure SameTree (r r' : Resctrl) : Prop where
  procs : r'.procs = r.procs
  monGroups : ∀ name, (r'.groups.get? name).map CtrlGroup.monGroups =
    (r.groups.get? name).map CtrlGroup.monGroups

theorem SameTree.refl (r : Resctrl) : SameTree r r := ⟨rfl, fun _ => rfl⟩

theorem SameTree.trans {r₁ r₂ r₃ : Resctrl} (h : SameTree r₁ r₂) (h' : SameTree r₂ r₃) :
    SameTree r₁ r₃ :=
  ⟨h'.procs.trans h.procs, fun name => (h'.monGroups name).trans (h.monGroups name)⟩

theorem SameTree.place? {r r' : Resctrl} (h : SameTree r r') (pid : Pid) :
    r'.place? pid = r.place? pid := by
  rw [Resctrl.place?, Resctrl.place?, h.procs]

theorem SameTree.group {r r' : Resctrl} (h : SameTree r r') {name : String} {g : CtrlGroup}
    (hg : r.groups.get? name = some g) :
    ∃ g', r'.groups.get? name = some g' ∧ g'.monGroups = g.monGroups := by
  have hmap := h.monGroups name
  rw [hg] at hmap
  exact Option.map_eq_some_iff.mp hmap

theorem SameTree.symm {r r' : Resctrl} (h : SameTree r r') : SameTree r' r :=
  ⟨h.procs.symm, fun name => (h.monGroups name).symm⟩

/-! ## Removing directories -/

section Remove

variable {r r' : Resctrl} {name m : String}

/-- The processes of a mon group stay in its control group. -/
theorem WellFormed.place?_rmdirMonGroup (h : WellFormed r) (pid : Pid) :
    place? (rmdirMonGroup name m r) pid = (place? r pid).map fun p =>
      if p = (name, some m) then (name, none) else p := by
  by_cases hthere : ∃ g, r.groups.get? name = some g ∧ m ∈ g.monGroups
  · obtain ⟨g, hg, hm⟩ := hthere
    exact Resctrl.place?_rmdirMonGroup hg hm pid
  -- there is no such mon group, and so no process in it
  have hsame : rmdirMonGroup name m r = r := by
    unfold rmdirMonGroup
    split
    · rfl
    · rename_i g hg
      exact if_neg fun hm => hthere ⟨g, hg, hm⟩
  rw [hsame]
  cases hp : place? r pid with
  | none => rfl
  | some p =>
    rw [Option.map_some, if_neg]
    rintro rfl
    obtain ⟨g, hg, hm⟩ := h.place pid name (some m) hp
    exact hthere ⟨g, hg, hm m rfl⟩

/-- The processes of a control group go to the root group. -/
theorem WellFormed.place?_rmdirCtrlGroup (h : WellFormed r) (pid : Pid) :
    place? (rmdirCtrlGroup name r) pid = (place? r pid).map fun p =>
      if p.1 = name then (RESCTRL_ROOT_NAME, none) else p := by
  cases hg : r.groups.get? name with
  | some g => exact Resctrl.place?_rmdirCtrlGroup hg pid
  | none =>
    have hsame : rmdirCtrlGroup name r = r := by simp only [rmdirCtrlGroup, hg]
    rw [hsame]
    cases hp : place? r pid with
    | none => rfl
    | some p =>
      rw [Option.map_some, if_neg]
      intro he
      obtain ⟨g, hg', -⟩ := h.place pid p.1 p.2 hp
      rw [he, hg] at hg'
      cases hg'

theorem WellFormed.rmdirMonGroup (h : WellFormed r) : WellFormed (rmdirMonGroup name m r) := by
  refine ⟨?_, fun name' g' hg' => ?_, fun pid name' x hp => ?_⟩
  · obtain ⟨g, hg⟩ := h.root
    rw [get?_rmdirMonGroup, hg]
    exact ⟨_, rfl⟩
  · rw [get?_rmdirMonGroup] at hg'
    obtain ⟨g, hg, rfl⟩ := Option.map_eq_some_iff.mp hg'
    split
    · exact (h.nodup name' g hg).filter _
    · exact h.nodup name' g hg
  · rw [h.place?_rmdirMonGroup] at hp
    obtain ⟨⟨name₀, x₀⟩, hp, he⟩ := Option.map_eq_some_iff.mp hp
    obtain ⟨g, hg, hmem⟩ := h.place pid name₀ x₀ hp
    split at he
    · rename_i hin
      cases hin
      cases he
      exact ⟨_, by rw [get?_rmdirMonGroup, hg]; rfl, fun m' hm' => absurd hm'.symm (Option.some_ne_none m')⟩
    · rename_i hout
      cases he
      refine ⟨_, by rw [get?_rmdirMonGroup, hg]; rfl, fun m' hm' => ?_⟩
      subst hm'
      split
      · rename_i hname
        refine List.mem_filter.mpr ⟨hmem m' rfl, decide_eq_true fun hm' => hout ?_⟩
        rw [hname, hm']
      · exact hmem m' rfl

theorem WellFormed.rmdirCtrlGroup (h : WellFormed r) (hname : name ≠ RESCTRL_ROOT_NAME) :
    WellFormed (rmdirCtrlGroup name r) := by
  obtain ⟨root, hroot⟩ := h.root
  have hroot' : (Resctrl.rmdirCtrlGroup name r).groups.get? RESCTRL_ROOT_NAME = some root := by
    rw [get?_rmdirCtrlGroup, if_neg hname.symm, hroot]
  refine ⟨⟨root, hroot'⟩, fun name' g hg => ?_, fun pid name' x hp => ?_⟩
  · rw [get?_rmdirCtrlGroup] at hg
    split at hg
    · cases hg
    · exact h.nodup name' g hg
  · rw [h.place?_rmdirCtrlGroup] at hp
    obtain ⟨⟨name₀, x₀⟩, hp, he⟩ := Option.map_eq_some_iff.mp hp
    obtain ⟨g, hg, hmem⟩ := h.place pid name₀ x₀ hp
    split at he
    · cases he
      exact ⟨root, hroot', fun m hm => absurd hm.symm (Option.some_ne_none m)⟩
    · rename_i hne
      cases he
      exact ⟨g, by rw [get?_rmdirCtrlGroup, if_neg hne, hg], hmem⟩

theorem WellFormed.reduced_rmdirMonGroup (h : WellFormed r) :
    Reduced r (Resctrl.rmdirMonGroup name m r) := by
  refine ⟨kinds_rmdirMonGroup, fun pid name' m' hp => ?_, fun name' g' hg' => ?_⟩
  · rw [h.place?_rmdirMonGroup] at hp
    obtain ⟨p, hp, he⟩ := Option.map_eq_some_iff.mp hp
    split at he
    · cases he
    · rw [hp, he]
  · rw [get?_rmdirMonGroup] at hg'
    obtain ⟨g, hg, rfl⟩ := Option.map_eq_some_iff.mp hg'
    refine ⟨g, hg, ?_⟩
    split
    · exact List.filter_subset_self _
    · exact List.Subset.refl _

theorem WellFormed.reduced_rmdirCtrlGroup (h : WellFormed r) :
    Reduced r (Resctrl.rmdirCtrlGroup name r) := by
  refine ⟨kinds_rmdirCtrlGroup, fun pid name' m' hp => ?_, fun name' g' hg' => ?_⟩
  · rw [h.place?_rmdirCtrlGroup] at hp
    obtain ⟨p, hp, he⟩ := Option.map_eq_some_iff.mp hp
    split at he
    · cases he
    · rw [hp, he]
  · rw [get?_rmdirCtrlGroup] at hg'
    split at hg'
    · cases hg'
    · exact ⟨g', hg', List.Subset.refl _⟩

end Remove

end Resctrl

open Resctrl

namespace ResGroup

variable {self : ResGroup} {r r' : Resctrl} {m : String} {u : Unit}

/-- A removal that returns found the group. -/
theorem remove_ok (hwf : r.WellFormed) (h : (self.remove m).run r = .ok u r') :
    ∃ g, r.groups.get? self.name = some g ∧
      r' = if self.name ≠ RESCTRL_ROOT_NAME ∧ g.monGroups.length = 1 then rmdirCtrlGroup self.name r
        else rmdirMonGroup self.name m r := by
  cases hg : r.groups.get? self.name with
  | some g =>
    rw [remove_run hg] at h
    cases h
    exact ⟨g, rfl, rfl⟩
  | none =>
    have hroot : self.name ≠ RESCTRL_ROOT_NAME := by
      intro he
      obtain ⟨g, hroot⟩ := hwf.root
      rw [he, hroot] at hg
      cases hg
    have hmon : self.getMonGroups r = .error (.builtin (.FileNotFoundError self.name)) := by
      simp only [getMonGroups, hg]
    unfold remove at h
    rw [if_neg hroot, bind_of_ok (get_run r)] at h
    obtain ⟨_, _, hfail, -⟩ := bind_ok_iff.mp h
    rw [hmon] at hfail
    cases hfail

theorem remove_wellFormed (hwf : r.WellFormed) (h : (self.remove m).run r = .ok u r') :
    r'.WellFormed := by
  obtain ⟨g, -, rfl⟩ := remove_ok hwf h
  split
  · rename_i hc
    exact hwf.rmdirCtrlGroup hc.1
  · exact hwf.rmdirMonGroup

theorem remove_reduced (hwf : r.WellFormed) (h : (self.remove m).run r = .ok u r') :
    Reduced r r' := by
  obtain ⟨g, -, rfl⟩ := remove_ok hwf h
  split
  · exact hwf.reduced_rmdirCtrlGroup
  · exact hwf.reduced_rmdirMonGroup

end ResGroup

/-! ## Adding pids -/

section Add

variable {r r' : Resctrl} {name m : String} {pids : List Pid}

/-- The group there is keeps its mon groups. -/
theorem Added.monGroups_subset (h : Added name pids m r r') {name' : String} {g : CtrlGroup}
    (hg : r.groups.get? name' = some g) :
    ∃ g', r'.groups.get? name' = some g' ∧ g.monGroups ⊆ g'.monGroups := by
  by_cases he : name' = name
  · subst he
    obtain ⟨old, hold, hget⟩ := h.group
    obtain hold | ⟨hnone, -⟩ := hold
    · rw [hg] at hold
      cases hold
      exact ⟨_, hget, fun m' hm' => mem_addMonGroup.mpr (.inr hm')⟩
    · rw [hg] at hnone
      cases hnone
  · exact ⟨g, by rw [h.other name' he, hg], List.Subset.refl _⟩

theorem Added.mem_monGroups (h : Added name pids m r r') :
    ∃ g, r'.groups.get? name = some g ∧ m ∈ g.monGroups := by
  obtain ⟨old, -, hget⟩ := h.group
  exact ⟨_, hget, mem_addMonGroup.mpr (.inl rfl)⟩

theorem nodup_addMonGroup {monGroups : List String} (h : monGroups.Nodup) :
    (addMonGroup m monGroups).Nodup := by
  unfold addMonGroup
  split
  · exact h
  · rename_i hm
    exact List.nodup_append.mpr ⟨h, List.nodup_singleton m, fun a ha b hb => by
      rw [List.mem_singleton] at hb
      subst hb
      exact fun he => hm (he ▸ ha)⟩

theorem Added.wellFormed (h : Added name pids m r r') (hwf : r.WellFormed) : r'.WellFormed := by
  refine ⟨?_, fun name' g' hg' => ?_, fun pid name' x hp => ?_⟩
  · obtain ⟨g, hg⟩ := hwf.root
    obtain ⟨g', hg', -⟩ := h.monGroups_subset hg
    exact ⟨g', hg'⟩
  · by_cases he : name' = name
    · subst he
      obtain ⟨old, hold, hget⟩ := h.group
      rw [hget] at hg'
      cases hg'
      refine nodup_addMonGroup ?_
      obtain hold | ⟨-, rfl, -⟩ := hold
      · exact hwf.nodup name' old hold
      · exact List.nodup_nil
    · rw [h.other name' he] at hg'
      exact hwf.nodup name' g' hg'
  · rw [h.place] at hp
    split at hp
    · cases hp
      obtain ⟨g, hg, hm⟩ := h.mem_monGroups
      exact ⟨g, hg, fun m' hm' => Option.some.inj hm' ▸ hm⟩
    · obtain ⟨g, hg, hmem⟩ := hwf.place pid name' x hp
      obtain ⟨g', hg', hsub⟩ := h.monGroups_subset hg
      exact ⟨g', hg', fun m' hm' => hsub (hmem m' hm')⟩

end Add

/-! ## Performing a value -/

theorem Resctrl.WellFormed.sameTree {r r' : Resctrl} (hwf : r.WellFormed) (h : SameTree r r') :
    r'.WellFormed := by
  refine ⟨?_, fun name g hg => ?_, fun pid name x hp => ?_⟩
  · obtain ⟨g, hg⟩ := hwf.root
    obtain ⟨g', hg', -⟩ := h.group hg
    exact ⟨g', hg'⟩
  · obtain ⟨g', hg', hsame⟩ := h.symm.group hg
    exact hsame ▸ hwf.nodup name g' hg'
  · rw [h.place?] at hp
    obtain ⟨g, hg, hmem⟩ := hwf.place pid name x hp
    obtain ⟨g', hg', hsame⟩ := h.group hg
    exact ⟨g', hg', fun m hm => hsame ▸ hmem m hm⟩

theorem writeLine_sameTree (name line : String) (r : Resctrl) :
    SameTree r (writeLine name line r) := by
  unfold writeLine
  split
  · rename_i g row hg _
    refine ⟨rfl, fun name' => ?_⟩
    dsimp only
    rw [Dict.get?_set]
    split
    · rename_i he
      rw [he, hg]
      rfl
    · rfl
  · exact .refl r

theorem ResGroup.writeSchemata_sameTree {self : ResGroup} {containerName : String}
    {lines : List String} {r r' : Resctrl} {u : Unit}
    (h : (self.writeSchemata containerName lines).run r = .ok u r') : SameTree r r' := by
  have hfold : ∀ (lines : List String) (r : Resctrl), SameTree r (lines.foldl (fun r line =>
      { writeLine self.name line r with
        schemataWrites := r.schemataWrites ++ [⟨containerName, self.name, line⟩] }) r) := by
    intro lines
    induction lines with
    | nil => exact SameTree.refl
    | cons line lines ih =>
      intro r
      have hwrite := writeLine_sameTree self.name line r
      have hline : SameTree r { writeLine self.name line r with
          schemataWrites := r.schemataWrites ++ [⟨containerName, self.name, line⟩] } :=
        ⟨hwrite.procs, hwrite.monGroups⟩
      exact hline.trans (ih _)
  unfold writeSchemata at h
  rw [bind_of_ok (get_run r)] at h
  split at h
  · rw [set_run] at h
    cases h
    exact hfold lines r
  · cases h

namespace RDTAllocationValue

variable {v : RDTAllocationValue} {w w' : World} {u : Unit}

/-- Performing a value moves its container, if it is asked to, and then only writes schemata. -/
theorem performAllocations_tree (h : v.performAllocations.run w = .ok u w') :
    ∃ r, v.moveIfAsked.run w.host.resctrl = .ok () r ∧ SameTree r w'.host.resctrl := by
  unfold performAllocations at h
  obtain ⟨u₁, w₁, hmove, hrest⟩ := bind_ok_iff.mp h
  obtain ⟨r₁, hr₁, rfl⟩ := onResctrl_ok_iff.mp hmove
  obtain ⟨write, w₂, hshould, hwrite⟩ := bind_ok_iff.mp hrest
  obtain ⟨heap, -, rfl⟩ := zoom_ok_iff.mp hshould
  refine ⟨r₁, hr₁, ?_⟩
  rcases doIf_ok_iff.mp hwrite with ⟨-, hlines⟩ | ⟨-, rfl⟩
  · obtain ⟨r₂, hr₂, rfl⟩ := onResctrl_ok_iff.mp hlines
    unfold writeLines at hr₂
    rcases doIf_ok_iff.mp hr₂ with ⟨-, hschemata⟩ | ⟨-, rfl⟩
    · split at hschemata
      · cases hschemata
      · exact ResGroup.writeSchemata_sameTree hschemata
    · exact .refl _
  · exact .refl _

end RDTAllocationValue

end Wca
