import Wca.GroupTree

/-!
# Room for the groups that are asked for

The RDT values that are left to perform name groups to move to. `Roomy` says that the kernel has the
identifiers for them, and that every container is where its value finds it. Performing a value keeps this
for the ones after it, and it returns when the group is there or has a name that the kernel accepts.
-/

namespace Wca

open Py World Resctrl

/-- There is a mon group of the name in the group. -/
def Lodged (r : Resctrl) (m name : String) : Prop :=
  ∃ g, r.groups.get? name = some g ∧ m ∈ g.monGroups

namespace RDTAllocationValue

/-- The group that the value moves its container to. -/
def destination (v : RDTAllocationValue) : Option String :=
  if v.sourceResgroup.isSome then v.resgroup.map ResGroup.name else none

/-- The kernel accepts the name of the group to move to. -/
def Grantable (v : RDTAllocationValue) : Prop :=
  ∀ name, v.destination = some name → name = RESCTRL_ROOT_NAME ∨ LegalGroupName name

/-- The value asks for nothing, or its container is in the group that it acts on, or in the one that it
is to leave. -/
def Placed (v : RDTAllocationValue) (r : Resctrl) : Prop :=
  v.sourceResgroup = none ∧ v.schemataLines = [] ∨
    v.containerName ≠ "" ∧ ∃ g home : ResGroup, v.resgroup = some g ∧
      Lodged r v.containerName home.name ∧
      (v.sourceResgroup = none ∧ home = g ∨ v.sourceResgroup = some home ∧ home.name ≠ g.name)

end RDTAllocationValue

/-- The groups to move to that are not there. -/
def newGroups (r : Resctrl) (vs : List RDTAllocationValue) : Finset String :=
  (vs.filterMap RDTAllocationValue.destination).toFinset.filter (· ∉ r.groups)

/-- Every value that is left finds its container, and there is a group for each that it moves to. -/
structure Roomy (r : Resctrl) (vs : List RDTAllocationValue) : Prop where
  root : vs ≠ [] → RESCTRL_ROOT_NAME ∈ r.groups
  legal : vs ≠ [] → ∀ name ∈ r.groups, name = RESCTRL_ROOT_NAME ∨ LegalGroupName name
  placed : ∀ v ∈ vs, v.Placed r
  apart : (vs.map RDTAllocationValue.containerName).Nodup
  closids : (newGroups r vs).card ≤ r.freeClosids
  rmids : (newGroups r vs).card + vs.length ≤ r.freeRmids

/-! ## Identifiers -/

section

variable {r r' : Resctrl} {vs : List RDTAllocationValue} {v : RDTAllocationValue}

theorem mem_newGroups {name : String} :
    name ∈ newGroups r vs ↔ (∃ v ∈ vs, v.destination = some name) ∧ name ∉ r.groups := by
  rw [newGroups, Finset.mem_filter, List.mem_toFinset, List.mem_filterMap]

/-- When a value is done with, its group is there and so not a new one any more. -/
theorem card_newGroups_le {name : String} (hv : v.destination = some name)
    (hgroups : ∀ n, n ∈ r'.groups ↔ n = name ∨ n ∈ r.groups) :
    (newGroups r' vs).card + (if name ∈ r.groups then 0 else 1) ≤ (newGroups r (v :: vs)).card := by
  have hsub : newGroups r' vs ⊆ (newGroups r (v :: vs)).erase name := by
    intro n hn
    obtain ⟨⟨u, hu, hdest⟩, hnot⟩ := mem_newGroups.mp hn
    rw [hgroups, not_or] at hnot
    exact Finset.mem_erase.mpr ⟨hnot.1, mem_newGroups.mpr ⟨⟨u, List.mem_cons_of_mem _ hu, hdest⟩, hnot.2⟩⟩
  have hcard := Finset.card_le_card hsub
  split
  · exact hcard.trans (Finset.card_le_card (Finset.erase_subset _ _))
  · rename_i hnew
    have hmem : name ∈ newGroups r (v :: vs) := mem_newGroups.mpr ⟨⟨v, List.mem_cons_self, hv⟩, hnew⟩
    have hpos := Finset.card_pos.mpr ⟨name, hmem⟩
    rw [Finset.card_erase_of_mem hmem] at hcard
    omega

theorem card_newGroups_cons_le : (newGroups r vs).card ≤ (newGroups r (v :: vs)).card := by
  refine Finset.card_le_card fun n hn => ?_
  obtain ⟨⟨u, hu, hdest⟩, hnot⟩ := mem_newGroups.mp hn
  exact mem_newGroups.mpr ⟨⟨u, List.mem_cons_of_mem _ hu, hdest⟩, hnot⟩

/-- The identifiers that adding pids takes: one for a new control group, and one for each directory. -/
theorem ResGroup.addPids_free {self : ResGroup} {pids : List Pid} {m : String}
    (h : (self.addPids pids m).run r = .ok () r') :
    r.freeClosids ≤ r'.freeClosids + (if self.name ∈ r.groups then 0 else 1) ∧
      r.freeRmids ≤ r'.freeRmids + (if self.name ∈ r.groups then 1 else 2) := by
  obtain ⟨-, r₁, r₂, hadds⟩ := exists_addsPids h
  have hlast : r'.freeClosids = r₂.freeClosids ∧ r'.freeRmids = r₂.freeRmids := by
    rw [hadds.last, addPidsToTasksFile_moved.rest]
    exact ⟨rfl, rfl⟩
  have hwritten : (self.addPidsToTasksFile none pids r₁).freeClosids = r₁.freeClosids ∧
      (self.addPidsToTasksFile none pids r₁).freeRmids = r₁.freeRmids := by
    rw [addPidsToTasksFile_moved.rest]
    exact ⟨rfl, rfl⟩
  have hmon : r₁.freeClosids ≤ r₂.freeClosids ∧ r₁.freeRmids ≤ r₂.freeRmids + 1 := by
    obtain ⟨g, -, ⟨-, rfl⟩ | ⟨-, -, rfl⟩⟩ := createMongroupDirectory_ok_iff.mp hadds.mon
    · rw [hwritten.1, hwritten.2]
      exact ⟨le_rfl, Nat.le_succ _⟩
    · simp only [hwritten.1, hwritten.2]
      omega
  rcases control_ok_iff.mp hadds.control with ⟨-, rfl⟩ | ⟨-, hin, -, hc, hr, rfl⟩
  · split <;> omega
  · rw [if_neg hin, if_neg hin]
    simp only at hmon
    omega

/-! ## Leaving a group -/

variable {source m : String} {src : CtrlGroup}

/-- The group is removed when its container was the last one. -/
def Vacates (source : String) (src : CtrlGroup) : Prop :=
  src.monGroups.length = 1 ∧ source ≠ RESCTRL_ROOT_NAME

instance : Decidable (Vacates source src) := inferInstanceAs (Decidable (_ ∧ _))

theorem mem_groups_leave (h : r.groups.get? source = some src) {name : String} :
    name ∈ (leave source m src r).groups ↔ name ∈ r.groups ∧ ¬ (name = source ∧ Vacates source src) := by
  rw [Dict.mem_def, Dict.mem_keys_iff_get?, Dict.mem_def, Dict.mem_keys_iff_get?, get?_leave h]
  by_cases hname : name = source
  · subst hname
    rw [if_pos rfl, h]
    unfold left Vacates
    by_cases h1 : src.monGroups.length = 1 <;> by_cases hroot : name = RESCTRL_ROOT_NAME <;>
      simp [h1, hroot]
  · simp [hname]

/-- A group that is removed gives back its identifiers. -/
theorem leave_free (h : r.groups.get? source = some src) :
    r.freeClosids + (if Vacates source src then 1 else 0) ≤ (leave source m src r).freeClosids ∧
      r.freeRmids + (if Vacates source src then 2 else 0) ≤ (leave source m src r).freeRmids := by
  unfold leave
  by_cases h1 : src.monGroups.length = 1
  · by_cases hroot : source = RESCTRL_ROOT_NAME
    · have hstays : ¬ Vacates source src := fun hv => hv.2 hroot
      rw [if_pos h1, if_pos hroot, if_neg hstays, if_neg hstays]
      simp only [rmdirMonGroup, h]
      split <;> simp
    · have hvacates : Vacates source src := ⟨h1, hroot⟩
      rw [if_pos h1, if_neg hroot, if_pos hvacates, if_pos hvacates, rmdirCtrlGroup_of_get? h]
      simp only [h1]
      omega
  · have hstays : ¬ Vacates source src := fun hv => h1 hv.1
    rw [if_neg h1, if_neg hstays, if_neg hstays]
    exact ⟨le_rfl, le_rfl⟩

theorem card_newGroups_leave_le (h : r.groups.get? source = some src) :
    (newGroups (leave source m src r) vs).card ≤
      (newGroups r vs).card + (if Vacates source src then 1 else 0) := by
  split
  · refine (Finset.card_le_card (t := insert source (newGroups r vs)) fun n hn => ?_).trans
      (Finset.card_insert_le _ _)
    obtain ⟨hdest, hnot⟩ := mem_newGroups.mp hn
    rw [mem_groups_leave h, not_and, not_not] at hnot
    by_cases hin : n ∈ r.groups
    · exact Finset.mem_insert.mpr (.inl (hnot hin).1)
    · exact Finset.mem_insert_of_mem (mem_newGroups.mpr ⟨hdest, hin⟩)
  · rename_i hstays
    rw [Nat.add_zero]
    refine Finset.card_le_card fun n hn => ?_
    obtain ⟨hdest, hnot⟩ := mem_newGroups.mp hn
    rw [mem_groups_leave h, not_and, not_not] at hnot
    exact mem_newGroups.mpr ⟨hdest, fun hin => hstays (hnot hin).2⟩

/-- Those who stay keep their mon groups. -/
theorem Lodged.leave (hsrc : r.groups.get? source = some src) (hm : m ∈ src.monGroups) {m' name : String}
    (h : Lodged r m' name) (hne : m' ≠ m) : Lodged (leave source m src r) m' name := by
  obtain ⟨g, hg, hm'⟩ := h
  rw [Lodged, get?_leave hsrc]
  by_cases hname : name = source
  · subst hname
    cases hsrc.symm.trans hg
    have hlen : src.monGroups.length ≠ 1 := by
      intro h1
      obtain ⟨x, hx⟩ := List.length_eq_one_iff.mp h1
      rw [hx, List.mem_singleton] at hm hm'
      exact hne (hm'.trans hm.symm)
    exact ⟨src, by rw [if_pos rfl, left, if_neg hlen], hm'⟩
  · exact ⟨g, by rw [if_neg hname, hg], hm'⟩

theorem Added.lodged {g : String} {pids : List Pid} (h : Added g pids m r r') {m' name : String}
    (hl : Lodged r m' name) : Lodged r' m' name := by
  obtain ⟨old, hold, hm⟩ := hl
  obtain ⟨g', hg', hsub⟩ := h.monGroups_subset hold
  exact ⟨g', hg', hsub hm⟩

theorem Added.mem_groups {g : String} {pids : List Pid} (h : Added g pids m r r') {name : String} :
    name ∈ r'.groups ↔ name = g ∨ name ∈ r.groups := by
  rw [Dict.mem_def, Dict.mem_keys_iff_get?, Dict.mem_def, Dict.mem_keys_iff_get?]
  by_cases he : name = g
  · subst he
    obtain ⟨old, -, hget⟩ := h.group
    simp [hget]
  · simp [he, h.other name he]

end

/-! ## Performing a value -/

/-- Writing takes no identifiers. -/
theorem ResGroup.writeSchemata_free {self : ResGroup} {containerName : String} {lines : List String}
    {r r' : Resctrl} {u : Unit} (h : (self.writeSchemata containerName lines).run r = .ok u r') :
    r'.freeClosids = r.freeClosids ∧ r'.freeRmids = r.freeRmids := by
  have hline : ∀ (line : String) (r : Resctrl), (writeLine self.name line r).freeClosids = r.freeClosids ∧
      (writeLine self.name line r).freeRmids = r.freeRmids := by
    intro line r
    unfold writeLine
    split <;> exact ⟨rfl, rfl⟩
  have hfold : ∀ (lines : List String) (r : Resctrl), (lines.foldl (fun r line =>
      { writeLine self.name line r with
        schemataWrites := r.schemataWrites ++ [⟨containerName, self.name, line⟩] }) r).freeClosids =
          r.freeClosids ∧ (lines.foldl (fun r line =>
      { writeLine self.name line r with
        schemataWrites := r.schemataWrites ++ [⟨containerName, self.name, line⟩] }) r).freeRmids =
          r.freeRmids := by
    intro lines
    induction lines with
    | nil => exact fun r => ⟨rfl, rfl⟩
    | cons line lines ih =>
      intro r
      obtain ⟨hclosids, hrmids⟩ := hline line r
      exact ⟨(ih _).1.trans hclosids, (ih _).2.trans hrmids⟩
  unfold writeSchemata at h
  rw [bind_of_ok (get_run r)] at h
  split at h
  · rw [set_run] at h
    cases h
    exact hfold lines r
  · cases h

namespace RDTAllocationValue

variable {v : RDTAllocationValue} {vs : List RDTAllocationValue} {r r' : Resctrl} {g source : ResGroup}

/-- A move returns when the directories of the group can be made. -/
theorem moveToGroup_returns_iff (hres : v.resgroup = some g)
    (hlodged : Lodged r v.containerName source.name) :
    (∃ r', (v.moveToGroup source).run r = .ok () r') ↔ g.CanMakeDirectories v.containerName r := by
  have hadd : (∃ r', (g.addPids (v.getPids.getPids true r) v.containerName).run r = .ok () r') ↔
      g.CanMakeDirectories v.containerName r := ResGroup.addPids_returns_iff
  rw [← hadd]
  unfold moveToGroup
  rw [hres]
  simp only
  rw [bind_of_ok (get_run r)]
  constructor
  · rintro ⟨r', h⟩
    obtain ⟨_, r₁, hadd, -⟩ := bind_ok_iff.mp h
    exact ⟨r₁, hadd⟩
  · rintro ⟨r₁, hadd⟩
    have hadded := ResGroup.addPids_ok (fun pid => place?_isSome_of_mem_getPids) hadd
    obtain ⟨src, hsrc, -⟩ := hadded.lodged hlodged
    have hmon : source.getMonGroups r₁ = .ok src.monGroups := by simp only [ResGroup.getMonGroups, hsrc]
    rw [bind_of_ok hadd, bind_of_ok (get_run r₁), bind_of_ok (run_liftM_ok_iff.mpr ⟨hmon, rfl⟩)]
    by_cases h1 : src.monGroups.length = 1
    · rw [doIf_of h1]
      exact ⟨_, ResGroup.remove_run hsrc⟩
    · rw [doIf_of_not h1]
      exact ⟨r₁, rfl⟩

end RDTAllocationValue

namespace Roomy

variable {v : RDTAllocationValue} {vs : List RDTAllocationValue} {r r' : Resctrl} {g source : ResGroup}

/-- There is room for the group of the first value. -/
theorem canMakeDirectories_iff (h : Roomy r (v :: vs)) (hname : v.containerName ≠ "")
    (hdest : v.destination = some g.name) : g.CanMakeDirectories v.containerName r ↔ v.Grantable := by
  have hrmids := h.rmids
  rw [List.length_cons] at hrmids
  have hgrant : v.Grantable ↔ g.name = RESCTRL_ROOT_NAME ∨ LegalGroupName g.name := by
    refine ⟨fun hv => hv g.name hdest, fun hg name hd => ?_⟩
    rwa [← Option.some.inj (hdest.symm.trans hd)]
  rw [hgrant]
  constructor
  · rintro ⟨-, hin | ⟨-, hlegal, -⟩, -⟩
    · exact h.legal (List.cons_ne_nil v vs) _ hin
    · exact .inr hlegal
  · intro hg
    by_cases hin : g.name ∈ r.groups
    · exact ⟨hname, .inl hin, .inr (by rw [if_pos hin]; omega)⟩
    · have hmem : g.name ∈ newGroups r (v :: vs) := mem_newGroups.mpr ⟨⟨v, List.mem_cons_self, hdest⟩, hin⟩
      have hpos := Finset.card_pos.mpr ⟨g.name, hmem⟩
      have hclosids := h.closids
      have hroot : g.name ≠ RESCTRL_ROOT_NAME := fun he => hin (he ▸ h.root (List.cons_ne_nil v vs))
      refine ⟨hname, .inr ⟨hroot, hg.resolve_left hroot, ?_, ?_⟩, .inr ?_⟩
      · omega
      · omega
      · rw [if_neg hin]
        omega

/-- Without the first value, where the groups are as before. -/
theorem tail (h : Roomy r (v :: vs)) : Roomy r vs where
  root := fun _ => h.root (List.cons_ne_nil v vs)
  legal := fun _ => h.legal (List.cons_ne_nil v vs)
  placed := fun u hu => h.placed u (List.mem_cons_of_mem _ hu)
  apart := (List.nodup_cons.mp h.apart).2
  closids := card_newGroups_cons_le.trans h.closids
  rmids := by
    have hrmids := h.rmids
    have hcard : (newGroups r vs).card ≤ (newGroups r (v :: vs)).card := card_newGroups_cons_le
    rw [List.length_cons] at hrmids
    omega

/-- Writing schemata changes no group. -/
theorem rewritten (h : Roomy r vs) (htree : SameTree r r') (hclosids : r'.freeClosids = r.freeClosids)
    (hrmids : r'.freeRmids = r.freeRmids) : Roomy r' vs := by
  have hmem : ∀ name, name ∈ r'.groups ↔ name ∈ r.groups := by
    intro name
    rw [Dict.mem_def, Dict.mem_keys_iff_get?, Dict.mem_def, Dict.mem_keys_iff_get?]
    constructor
    · rintro ⟨g, hg⟩
      obtain ⟨g', hg', -⟩ := htree.symm.group hg
      exact ⟨g', hg'⟩
    · rintro ⟨g, hg⟩
      obtain ⟨g', hg', -⟩ := htree.group hg
      exact ⟨g', hg'⟩
  have hnew : newGroups r' vs = newGroups r vs := by
    ext n
    rw [mem_newGroups, mem_newGroups, hmem]
  refine ⟨fun hne => (hmem _).mpr (h.root hne), fun hne name hn => h.legal hne name ((hmem name).mp hn),
    fun v hv => ?_, h.apart,
    by rw [hnew, hclosids]; exact h.closids, by rw [hnew, hrmids]; exact h.rmids⟩
  refine (h.placed v hv).imp id ?_
  rintro ⟨hname, g, home, hres, ⟨group, hgroup, hm⟩, hwhere⟩
  obtain ⟨group', hgroup', hsame⟩ := htree.group hgroup
  exact ⟨hname, g, home, hres, ⟨group', hgroup', hsame ▸ hm⟩, hwhere⟩

/-- After a move there is room for the values that are left. -/
theorem moved (h : Roomy r (v :: vs)) (hres : v.resgroup = some g) (hsource : v.sourceResgroup = some source)
    (hne : source.name ≠ g.name) (hlodged : Lodged r v.containerName source.name)
    (hrun : (v.moveToGroup source).run r = .ok () r') : Roomy r' vs ∧ g.name ∈ r'.groups := by
  have hdest : v.destination = some g.name := by
    rw [RDTAllocationValue.destination, hsource, hres]
    rfl
  obtain ⟨r₁, src, hadd, hsrc, rfl⟩ := RDTAllocationValue.moveToGroup_steps hres hrun
  have hadded := ResGroup.addPids_ok (fun pid => place?_isSome_of_mem_getPids) hadd
  have hgroups : ∀ name, name ∈ r₁.groups ↔ name = g.name ∨ name ∈ r.groups := fun name => hadded.mem_groups
  have hm : v.containerName ∈ src.monGroups := by
    obtain ⟨src', hsrc', hm⟩ := hadded.lodged hlodged
    cases hsrc.symm.trans hsrc'
    exact hm
  -- one group less is asked for, and one may be removed
  have hadds : (newGroups r₁ vs).card + (if g.name ∈ r.groups then 0 else 1) ≤
      (newGroups r (v :: vs)).card := card_newGroups_le hdest hgroups
  have hleaves : (newGroups (leave source.name v.containerName src r₁) vs).card ≤
      (newGroups r₁ vs).card + (if Vacates source.name src then 1 else 0) := card_newGroups_leave_le hsrc
  obtain ⟨hclosids₁, hrmids₁⟩ := ResGroup.addPids_free hadd
  obtain ⟨hclosids₂, hrmids₂⟩ := leave_free (m := v.containerName) hsrc
  have hclosids := h.closids
  have hrmids := h.rmids
  rw [List.length_cons] at hrmids
  have hroom : (newGroups (leave source.name v.containerName src r₁) vs).card ≤
        (leave source.name v.containerName src r₁).freeClosids ∧
      (newGroups (leave source.name v.containerName src r₁) vs).card + vs.length ≤
        (leave source.name v.containerName src r₁).freeRmids := by
    by_cases hin : g.name ∈ r.groups <;> by_cases hvacates : Vacates source.name src <;>
      simp only [hin, hvacates, if_true, if_false] at hadds hleaves hclosids₁ hrmids₁ hclosids₂ hrmids₂ <;>
      omega
  have hroot : RESCTRL_ROOT_NAME ∈ r₁.groups := (hgroups _).mpr (.inr (h.root (List.cons_ne_nil v vs)))
  refine ⟨⟨fun _ => ?_, fun _ name hname => ?_, fun u hu => ?_, (List.nodup_cons.mp h.apart).2, hroom.1,
    hroom.2⟩, ?_⟩
  · exact (mem_groups_leave hsrc).mpr ⟨hroot, fun hv => hv.2.2 hv.1.symm⟩
  · rcases (hgroups name).mp ((mem_groups_leave hsrc).mp hname).1 with rfl | hname
    · obtain ⟨old, hold | ⟨-, -, -, hlegal⟩, -⟩ := hadded.group
      · exact h.legal (List.cons_ne_nil v vs) _ (Dict.mem_keys_iff_get?.mpr ⟨old, hold⟩)
      · exact .inr hlegal
    · exact h.legal (List.cons_ne_nil v vs) name hname
  · have hother : u.containerName ≠ v.containerName := fun he =>
      (List.nodup_cons.mp h.apart).1 (List.mem_map.mpr ⟨u, hu, he⟩)
    refine (h.placed u (List.mem_cons_of_mem _ hu)).imp id ?_
    rintro ⟨hname, g', home, hres', hlodged', hwhere⟩
    exact ⟨hname, g', home, hres', (hadded.lodged hlodged').leave hsrc hm hother, hwhere⟩
  · exact (mem_groups_leave hsrc).mpr ⟨(hgroups _).mpr (.inl rfl), fun hv => hne hv.1.symm⟩

end Roomy

theorem RDTGroups.shouldPerformSchemataWrite_returns (ref : Ref) (value : RDTAllocationValue) (h : Heap) :
    ∃ write h', (shouldPerformSchemataWrite ref value).run h = .ok write h' := by
  unfold shouldPerformSchemataWrite
  rw [bind_of_ok (get_run h)]
  dsimp only
  split
  · exact ⟨false, h, rfl⟩
  · exact ⟨true, _, rfl⟩

namespace RDTAllocationValue

variable {v : RDTAllocationValue} {vs : List RDTAllocationValue} {r r' : Resctrl} {w : World} {u : Unit}

theorem writeLines_returns
    (h : v.schemataLines ≠ [] → ∃ g : ResGroup, v.resgroup = some g ∧ g.name ∈ r.groups) :
    ∃ r', v.writeLines.run r = .ok () r' := by
  unfold writeLines
  by_cases hlines : v.schemataLines ≠ []
  · obtain ⟨g, hres, hin⟩ := h hlines
    rw [doIf_of hlines, hres]
    dsimp only
    unfold ResGroup.writeSchemata
    rw [bind_of_ok (get_run r), if_pos hin]
    exact ⟨_, rfl⟩
  · rw [doIf_of_not hlines]
    exact ⟨r, rfl⟩

theorem writeLines_ok (h : v.writeLines.run r = .ok u r') :
    SameTree r r' ∧ r'.freeClosids = r.freeClosids ∧ r'.freeRmids = r.freeRmids := by
  unfold writeLines at h
  rcases doIf_ok_iff.mp h with ⟨-, hschemata⟩ | ⟨-, rfl⟩
  · split at hschemata
    · cases hschemata
    · exact ⟨ResGroup.writeSchemata_sameTree hschemata, ResGroup.writeSchemata_free hschemata⟩
  · exact ⟨.refl _, rfl, rfl⟩

theorem moveIfAsked_of_none (h : v.sourceResgroup = none) : v.moveIfAsked.run r = .ok () r := by
  rw [moveIfAsked, h]
  rfl

theorem moveIfAsked_of_some {source : ResGroup} (h : v.sourceResgroup = some source) :
    v.moveIfAsked = v.moveToGroup source := by
  rw [moveIfAsked, h]

/-- The move of the first value, if it makes one. -/
theorem moveIfAsked_step (h : Roomy r (v :: vs)) :
    ((∃ r', v.moveIfAsked.run r = .ok () r') ↔ v.Grantable) ∧
      ∀ r', v.moveIfAsked.run r = .ok () r' → Roomy r' vs ∧ kinds r' = kinds r ∧
        (v.schemataLines ≠ [] → ∃ g : ResGroup, v.resgroup = some g ∧ g.name ∈ r'.groups) := by
  have hstay : v.sourceResgroup = none →
      (v.schemataLines ≠ [] → ∃ g : ResGroup, v.resgroup = some g ∧ g.name ∈ r.groups) →
      ((∃ r', v.moveIfAsked.run r = .ok () r') ↔ v.Grantable) ∧
      ∀ r', v.moveIfAsked.run r = .ok () r' → Roomy r' vs ∧ kinds r' = kinds r ∧
        (v.schemataLines ≠ [] → ∃ g : ResGroup, v.resgroup = some g ∧ g.name ∈ r'.groups) := by
    intro hnone hthere
    have hrun := moveIfAsked_of_none (r := r) hnone
    refine ⟨iff_of_true ⟨r, hrun⟩ fun name hname => ?_, fun r' hr' => ?_⟩
    · rw [destination, hnone] at hname
      cases hname
    · cases hrun.symm.trans hr'
      exact ⟨h.tail, rfl, hthere⟩
  rcases h.placed v List.mem_cons_self with
    ⟨hnone, hlines⟩ | ⟨hname, g, home, hres, hlodged, ⟨hnone, rfl⟩ | ⟨hsource, hne⟩⟩
  · exact hstay hnone fun hsome => absurd hlines hsome
  · obtain ⟨group, hgroup, -⟩ := hlodged
    exact hstay hnone fun _ => ⟨home, hres, Dict.mem_keys_iff_get?.mpr ⟨group, hgroup⟩⟩
  · have hdest : v.destination = some g.name := by
      rw [destination, hsource, hres]
      rfl
    rw [moveIfAsked_of_some hsource, ← h.canMakeDirectories_iff hname hdest,
      ← moveToGroup_returns_iff hres hlodged]
    refine ⟨Iff.rfl, fun r' hr' => ?_⟩
    obtain ⟨hroomy, hin⟩ := h.moved hres hsource hne hlodged hr'
    obtain ⟨r₁, src, hadded, -, rfl⟩ := moveToGroup_ok hres hr'
    exact ⟨hroomy, kinds_leave.trans hadded.kinds, fun _ => ⟨g, hres, hin⟩⟩

/-- **One value.** Performing the first of the values that are left returns when the kernel accepts the
group it moves to, and there is still room for the others. -/
theorem performAllocations_step (h : Roomy w.host.resctrl (v :: vs)) :
    ((∃ w', v.performAllocations.run w = .ok () w') ↔ v.Grantable) ∧
      ∀ w', v.performAllocations.run w = .ok () w' → Roomy w'.host.resctrl vs ∧
        kinds w'.host.resctrl = kinds w.host.resctrl ∧ w'.host.cgroups = w.host.cgroups := by
  obtain ⟨hreturns, hafter⟩ := moveIfAsked_step h
  rw [← hreturns]
  refine ⟨⟨?_, ?_⟩, fun w' hw' => ?_⟩
  · rintro ⟨w', hw'⟩
    obtain ⟨_, w₁, hmove, -⟩ := bind_ok_iff.mp hw'
    obtain ⟨r, hr, -⟩ := onResctrl_ok_iff.mp hmove
    exact ⟨r, hr⟩
  · rintro ⟨r, hr⟩
    obtain ⟨r', hr'⟩ := writeLines_returns (hafter r hr).2.2
    unfold performAllocations
    obtain ⟨write, heap, hshould⟩ := RDTGroups.shouldPerformSchemataWrite_returns v.rdtGroups v w.heap
    have hheap : (onHeap (RDTGroups.shouldPerformSchemataWrite v.rdtGroups v)).run
        { w with host := { w.host with resctrl := r } } =
          .ok write { w with heap := heap, host := { w.host with resctrl := r } } :=
      zoom_ok_iff.mpr ⟨heap, hshould, rfl⟩
    rw [bind_of_ok (onResctrl_ok_iff.mpr ⟨r, hr, rfl⟩), bind_of_ok hheap]
    by_cases hwrite : write = true
    · rw [doIf_of hwrite]
      exact ⟨_, onResctrl_ok_iff.mpr ⟨r', hr', rfl⟩⟩
    · rw [doIf_of_not hwrite]
      exact ⟨_, rfl⟩
  · obtain ⟨_, w₁, hmove, hrest⟩ := bind_ok_iff.mp hw'
    obtain ⟨r, hr, rfl⟩ := onResctrl_ok_iff.mp hmove
    obtain ⟨write, w₂, hshould, hwrite⟩ := bind_ok_iff.mp hrest
    obtain ⟨heap, -, rfl⟩ := zoom_ok_iff.mp hshould
    obtain ⟨hroomy, hkinds, -⟩ := hafter r hr
    rcases doIf_ok_iff.mp hwrite with ⟨-, hlines⟩ | ⟨-, rfl⟩
    · obtain ⟨r', hr', rfl⟩ := onResctrl_ok_iff.mp hlines
      obtain ⟨htree, hclosids, hrmids⟩ := writeLines_ok hr'
      refine ⟨hroomy.rewritten htree hclosids hrmids, ?_, rfl⟩
      have hsame : kinds r' = kinds r := by rw [kinds, htree.procs, kinds]
      exact hsame.trans hkinds
    · exact ⟨hroomy, hkinds, rfl⟩

end RDTAllocationValue

end Wca
