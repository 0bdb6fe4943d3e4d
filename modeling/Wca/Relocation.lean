import Wca.Departures
import Wca.Performing

/-!
# What a run of RDT values does with the groups

A value moves its container or leaves it where it is, and then writes its schemata lines unless a value
with the same `RDTGroups` has acted on the group before. `Effect` says what becomes of one group in a
step. Over a run a group is removed only if the first value that concerns it takes its only mon group
away (`Vacated`); all lines written to a group come after that, so its schemata are those it started with
and these lines.
-/

namespace Wca

open Py World Resctrl

/-! ## One group -/

/-- The group with the mon group of a container that arrives. -/
def CtrlGroup.arrive (m : String) (g : CtrlGroup) : CtrlGroup :=
  { g with monGroups := addMonGroup m g.monGroups }

/-- The schemata once a line was written. -/
def writeRow (schemata : Dict String Row) (line : String) : Dict String Row :=
  match parseSchemataFileRow line with
  | .ok row =>
    let resource := Str.beforeFirst ':' line
    schemata.set resource (((schemata.get? resource).getD ∅).update row)
  | .error _ => schemata

def CtrlGroup.write (lines : List String) (g : CtrlGroup) : CtrlGroup :=
  { g with schemata := lines.foldl writeRow g.schemata }

@[simp] theorem CtrlGroup.write_nil (g : CtrlGroup) : g.write [] = g := rfl

namespace RDTAllocationValue

/-- What the move of a value makes of the group with the name. -/
def regroup (v : RDTAllocationValue) (fresh : Dict String Row) (name : String) (g : Option CtrlGroup) :
    Option CtrlGroup :=
  if v.destination = some name then some ((g.getD ⟨[], fresh⟩).arrive v.containerName)
  else if v.sourceResgroup = some ⟨name⟩ then g.bind (left name v.containerName)
  else g

/-- The lines that the value writes to the group with the name, when some groups were acted on before. -/
def linesFor (v : RDTAllocationValue) (executed : Ref → Finset String) (name : String) : List String :=
  if v.getResgroupName ∉ executed v.rdtGroups ∧ v.resgroup = some ⟨name⟩ then v.schemataLines else []

/-- The groups acted on once the value was performed. -/
def executes (v : RDTAllocationValue) (executed : Ref → Finset String) : Ref → Finset String :=
  Function.update executed v.rdtGroups (insert v.getResgroupName (executed v.rdtGroups))

end RDTAllocationValue

/-- The names of the groups that were acted on. -/
def Heap.executed (h : Heap) (ref : Ref) : Finset String := (h.cell ref).alreadyExecutedResgroupNames

/-- What one value does. -/
structure Effect (v : RDTAllocationValue) (w w' : World) : Prop where
  group : ∀ name, w'.host.resctrl.groups.get? name =
    (v.regroup w.host.resctrl.defaultSchemata name (w.host.resctrl.groups.get? name)).map
      (CtrlGroup.write (v.linesFor w.heap.executed name))
  executed : w'.heap.executed = v.executes w.heap.executed
  defaultSchemata : w'.host.resctrl.defaultSchemata = w.host.resctrl.defaultSchemata

section

variable {v : RDTAllocationValue} {vs : List RDTAllocationValue} {r r' : Resctrl} {w w' : World} {u : Unit}

theorem leave_defaultSchemata {source m : String} {src : CtrlGroup} :
    (leave source m src r).defaultSchemata = r.defaultSchemata := by
  unfold leave rmdirMonGroup rmdirCtrlGroup
  repeat' split
  all_goals rfl

/-- What the move makes of every group. -/
theorem RDTAllocationValue.moveIfAsked_group (hplaced : v.Placed r) (h : v.moveIfAsked.run r = .ok u r') :
    (∀ name, r'.groups.get? name = v.regroup r.defaultSchemata name (r.groups.get? name)) ∧
      r'.defaultSchemata = r.defaultSchemata := by
  have hstay : v.sourceResgroup = none → (∀ name, r'.groups.get? name =
      v.regroup r.defaultSchemata name (r.groups.get? name)) ∧ r'.defaultSchemata = r.defaultSchemata := by
    intro hnone
    rw [moveIfAsked_of_none hnone] at h
    cases h
    refine ⟨fun name => ?_, rfl⟩
    simp [regroup, destination, hnone]
  rcases hplaced with ⟨hnone, -⟩ | ⟨-, g, home, hres, hlodged, ⟨hnone, -⟩ | ⟨hsource, hne⟩⟩
  · exact hstay hnone
  · exact hstay hnone
  rw [moveIfAsked_of_some hsource] at h
  obtain ⟨r₁, src, hadded, hsrc, rfl⟩ := moveToGroup_ok hres h
  have hdest : ∀ name, v.destination = some name ↔ name = g.name := by
    intro name
    rw [destination, hsource, hres]
    simp [eq_comm]
  have hleft : ∀ name, v.sourceResgroup = some ⟨name⟩ ↔ name = home.name := by
    intro name
    rw [hsource, Option.some.injEq, ResGroup.mk.injEq, eq_comm]
  refine ⟨fun name => ?_, leave_defaultSchemata.trans hadded.defaultSchemata⟩
  rw [get?_leave hsrc, regroup]
  by_cases hhome : name = home.name
  · rw [hhome, if_pos rfl, if_neg fun hd => hne ((hdest _).mp hd), if_pos ((hleft _).mpr rfl),
      ← hadded.other _ hne, hsrc]
    rfl
  · rw [if_neg hhome, if_neg fun hl => hhome ((hleft _).mp hl)]
    by_cases hg : name = g.name
    · rw [hg, if_pos ((hdest _).mpr rfl)]
      obtain ⟨old, hold | ⟨hnone, rfl, -⟩, hget⟩ := hadded.group
      · rw [hget, hold]
        rfl
      · rw [hget, hnone]
        rfl
    · rw [if_neg fun hd => hg ((hdest _).mp hd), hadded.other _ hg]

theorem map_write_nil (g : Option CtrlGroup) : g.map (CtrlGroup.write []) = g := by
  cases g <;> rfl

theorem get?_writeLine {group line name : String} :
    (writeLine group line r).groups.get? name =
      if name = group then (r.groups.get? group).map fun g => { g with schemata := writeRow g.schemata line }
      else r.groups.get? name := by
  cases hg : r.groups.get? group with
  | none =>
    have hsame : writeLine group line r = r := by
      unfold writeLine
      rw [hg]
    rw [hsame, Option.map_none]
    split
    · rename_i he
      rw [he, hg]
    · rfl
  | some g =>
    unfold writeLine writeRow
    rw [hg]
    cases parseSchemataFileRow line with
    | ok row => exact Dict.get?_set ..
    | error e =>
      dsimp only
      split
      · rename_i he
        rw [he, hg]
        rfl
      · rfl

/-- The lines that are written to a group go into its schemata one after the other. -/
theorem writeSchemata_group {self : ResGroup} {containerName : String} {lines : List String}
    (h : (self.writeSchemata containerName lines).run r = .ok u r') :
    (∀ name, r'.groups.get? name = (r.groups.get? name).map
      (CtrlGroup.write (if name = self.name then lines else []))) ∧
      r'.defaultSchemata = r.defaultSchemata := by
  have hline : ∀ (line : String) (r : Resctrl),
      (writeLine self.name line r).defaultSchemata = r.defaultSchemata := by
    intro line r
    unfold writeLine
    split <;> rfl
  have hfold : ∀ (lines : List String) (r : Resctrl) (name : String), (lines.foldl (fun r line =>
      { writeLine self.name line r with
        schemataWrites := r.schemataWrites ++ [⟨containerName, self.name, line⟩] }) r).groups.get? name =
          (r.groups.get? name).map (CtrlGroup.write (if name = self.name then lines else [])) ∧
      (lines.foldl (fun r line =>
      { writeLine self.name line r with
        schemataWrites := r.schemataWrites ++ [⟨containerName, self.name, line⟩] }) r).defaultSchemata =
          r.defaultSchemata := by
    intro lines
    induction lines with
    | nil =>
      intro r name
      rw [ite_self]
      exact ⟨(map_write_nil _).symm, rfl⟩
    | cons line lines ih =>
      intro r name
      obtain ⟨hget, hdefault⟩ := ih _ name
      rw [List.foldl_cons, hget, hdefault]
      refine ⟨?_, hline line r⟩
      dsimp only
      rw [get?_writeLine]
      by_cases he : name = self.name
      · subst he
        rw [if_pos rfl, if_pos rfl, if_pos rfl, Option.map_map]
        rfl
      · rw [if_neg he, if_neg he, if_neg he]
  unfold ResGroup.writeSchemata at h
  rw [bind_of_ok (get_run r)] at h
  split at h
  · rw [set_run] at h
    cases h
    exact ⟨fun name => (hfold lines r name).1, (hfold lines r "").2⟩
  · cases h

/-- Whether the lines are written, and what is remembered. -/
theorem RDTGroups.shouldPerformSchemataWrite_run {h h' : Heap} {write : Bool}
    (hrun : (RDTGroups.shouldPerformSchemataWrite v.rdtGroups v).run h = .ok write h') :
    (write = true ↔ v.getResgroupName ∉ h.executed v.rdtGroups) ∧ h'.executed = v.executes h.executed := by
  unfold shouldPerformSchemataWrite at hrun
  rw [bind_of_ok (get_run h)] at hrun
  dsimp only at hrun
  split at hrun
  · rename_i hin
    cases hrun
    refine ⟨iff_of_false Bool.false_ne_true (not_not.mpr hin), ?_⟩
    rw [RDTAllocationValue.executes, Finset.insert_eq_of_mem (by exact hin), Function.update_eq_self]
  · rename_i hout
    cases hrun
    refine ⟨iff_of_true rfl hout, ?_⟩
    funext ref
    rw [RDTAllocationValue.executes, Function.update_apply]
    by_cases href : ref = v.rdtGroups
    · rw [if_pos href, href, Heap.executed, Heap.cell_put_self]
      rfl
    · rw [if_neg href, Heap.executed, Heap.cell_put_of_ne href]
      rfl

/-- **One value.** -/
theorem performAllocations_effect (hplaced : v.Placed w.host.resctrl)
    (h : v.performAllocations.run w = .ok u w') : Effect v w w' := by
  obtain ⟨_, w₁, hmove, hrest⟩ := bind_ok_iff.mp h
  obtain ⟨r, hr, rfl⟩ := onResctrl_ok_iff.mp hmove
  obtain ⟨write, w₂, hshould, hwrite⟩ := bind_ok_iff.mp hrest
  obtain ⟨heap, hheap, rfl⟩ := zoom_ok_iff.mp hshould
  obtain ⟨hgroup, hdefault⟩ := v.moveIfAsked_group hplaced hr
  obtain ⟨hwrites, hexecuted⟩ := RDTGroups.shouldPerformSchemataWrite_run hheap
  have hquiet : (∀ name, v.linesFor w.heap.executed name = []) → w' = { w with
      heap := heap, host := { w.host with resctrl := r } } → Effect v w w' := by
    rintro hnone rfl
    refine ⟨fun name => ?_, hexecuted, hdefault⟩
    rw [hnone name, map_write_nil]
    exact hgroup name
  rcases doIf_ok_iff.mp hwrite with ⟨hyes, hlines⟩ | ⟨hno, rfl⟩
  · obtain ⟨r', hr', rfl⟩ := onResctrl_ok_iff.mp hlines
    have hnew := hwrites.mp hyes
    rcases doIf_ok_iff.mp hr' with ⟨hne, hschemata⟩ | ⟨hempty, rfl⟩
    · cases hres : v.resgroup with
      | none =>
        rw [hres] at hschemata
        cases hschemata
      | some g =>
        rw [hres] at hschemata
        obtain ⟨hwritten, hdefault'⟩ := writeSchemata_group hschemata
        refine ⟨fun name => ?_, hexecuted, hdefault'.trans hdefault⟩
        have hlines : v.linesFor w.heap.executed name = if name = g.name then v.schemataLines else [] := by
          rw [RDTAllocationValue.linesFor, hres]
          by_cases he : name = g.name
          · rw [if_pos he, if_pos ⟨hnew, by rw [he]⟩]
          · rw [if_neg he, if_neg fun hc => he (by rw [Option.some.inj hc.2])]
        rw [hlines, ← hgroup name]
        exact hwritten name
    · refine hquiet (fun name => ?_) rfl
      rw [RDTAllocationValue.linesFor, not_not.mp hempty, ite_self]
  · refine hquiet (fun name => ?_) rfl
    rw [RDTAllocationValue.linesFor, if_neg fun hc => hno (hwrites.mpr hc.1)]

end

/-! ## Schemata over a run -/

/-- The first value that moves a container to the group or away from it moves it away. -/
def LeavesFirst (name : String) : List RDTAllocationValue → Prop
  | [] => False
  | v :: vs => v.sourceResgroup = some ⟨name⟩ ∨ v.destination ≠ some name ∧ LeavesFirst name vs

/-- The group has a single mon group. -/
def Single (r : Resctrl) (name : String) : Prop := ∃ g ∈ r.groups.get? name, g.monGroups.length = 1

instance {r : Resctrl} {name : String} : Decidable (Single r name) := inferInstanceAs (Decidable (∃ _, _))

/-- The group loses its only mon group before another one comes. -/
def Emptied (r : Resctrl) (name : String) (vs : List RDTAllocationValue) : Prop :=
  Single r name ∧ LeavesFirst name vs

/-- It is removed then. -/
def Vacated (r : Resctrl) (name : String) (vs : List RDTAllocationValue) : Prop :=
  name ≠ RESCTRL_ROOT_NAME ∧ Emptied r name vs

/-- All lines that the values write to the group, in order. -/
def linesTo (name : String) : (Ref → Finset String) → List RDTAllocationValue → List String
  | _, [] => []
  | executed, v :: vs => v.linesFor executed name ++ linesTo name (v.executes executed) vs

def LeavesFirst.decide (name : String) : (vs : List RDTAllocationValue) → Decidable (LeavesFirst name vs)
  | [] => .isFalse id
  | _ :: vs => @instDecidableOr _ _ _ (@instDecidableAnd _ _ _ (LeavesFirst.decide name vs))

instance {name : String} {vs : List RDTAllocationValue} : Decidable (LeavesFirst name vs) :=
  LeavesFirst.decide name vs

instance {r : Resctrl} {name : String} {vs : List RDTAllocationValue} : Decidable (Emptied r name vs) :=
  inferInstanceAs (Decidable (_ ∧ _))

instance {r : Resctrl} {name : String} {vs : List RDTAllocationValue} : Decidable (Vacated r name vs) :=
  inferInstanceAs (Decidable (_ ∧ _))

/-- The schemata of a group that is made in the run. -/
def freshSchemata (r : Resctrl) (name : String) (vs : List RDTAllocationValue) : Option (Dict String Row) :=
  if ∃ v ∈ vs, v.destination = some name then some r.defaultSchemata else none

/-- The schemata that the lines are written into: those that the group shows, unless it is vacated or is
not there. -/
def startingSchemata (r : Resctrl) (name : String) (vs : List RDTAllocationValue) :
    Option (Dict String Row) :=
  if Vacated r name vs then freshSchemata r name vs
  else ((r.groups.get? name).map CtrlGroup.schemata).or (freshSchemata r name vs)

section

variable {v : RDTAllocationValue} {vs : List RDTAllocationValue} {r : Resctrl} {name : String}

theorem exists_of_leavesFirst (h : LeavesFirst name vs) : ∃ v ∈ vs, v.sourceResgroup = some ⟨name⟩ := by
  induction vs with
  | nil => cases h
  | cons v vs ih =>
    rcases h with hv | ⟨-, h⟩
    · exact ⟨v, List.mem_cons_self, hv⟩
    · obtain ⟨u, hu, hsource⟩ := ih h
      exact ⟨u, List.mem_cons_of_mem _ hu, hsource⟩

/-- A container that moves away is in the group. -/
theorem RDTAllocationValue.Placed.lodged_of_source (h : v.Placed r)
    (hsource : v.sourceResgroup = some ⟨name⟩) :
    Lodged r v.containerName name ∧ v.destination ≠ some name ∧ v.resgroup ≠ some ⟨name⟩ := by
  rcases h with ⟨hnone, -⟩ | ⟨-, g, home, hres, hlodged, ⟨hnone, -⟩ | ⟨hsome, hne⟩⟩
  · cases hnone.symm.trans hsource
  · cases hnone.symm.trans hsource
  · cases hsome.symm.trans hsource
    have hother : v.resgroup ≠ some ⟨name⟩ := by
      intro hg
      cases hres.symm.trans hg
      exact hne rfl
    refine ⟨hlodged, fun hdest => ?_, hother⟩
    rw [destination, hsource, hres] at hdest
    cases hdest
    exact hne rfl

/-- A container whose lines are written, and that does not move there, is in the group. -/
theorem RDTAllocationValue.Placed.lodged_of_lines (h : v.Placed r) {executed : Ref → Finset String}
    (hlines : v.linesFor executed name ≠ []) (hdest : v.destination ≠ some name) :
    Lodged r v.containerName name := by
  rw [linesFor] at hlines
  obtain ⟨⟨-, hres⟩, hsome⟩ : (v.getResgroupName ∉ executed v.rdtGroups ∧ v.resgroup = some ⟨name⟩) ∧
      v.schemataLines ≠ [] := by
    split at hlines
    · exact ⟨‹_›, hlines⟩
    · exact absurd rfl hlines
  rcases h with ⟨-, hnil⟩ | ⟨-, g, home, hres', hlodged, ⟨-, rfl⟩ | ⟨hsource, -⟩⟩
  · exact absurd hnil hsome
  · cases hres.symm.trans hres'
    exact hlodged
  · rw [destination, hsource, hres] at hdest
    exact absurd rfl hdest

/-- A group is not emptied when a container is in it that does not move. -/
theorem not_emptied_of_lodged (h : ∀ u ∈ vs, u.Placed r) {m : String} (hm : Lodged r m name)
    (hne : ∀ u ∈ vs, u.sourceResgroup = some ⟨name⟩ → u.containerName ≠ m) : ¬ Emptied r name vs := by
  rintro ⟨⟨g, hg, hlen⟩, hleaves⟩
  obtain ⟨u, hu, hsource⟩ := exists_of_leavesFirst hleaves
  obtain ⟨g', hg', hmem⟩ := hm
  cases hg.symm.trans hg'
  obtain ⟨g', hg', humem⟩ := ((h u hu).lodged_of_source hsource).1
  cases hg.symm.trans hg'
  obtain ⟨x, hx⟩ := List.length_eq_one_iff.mp hlen
  rw [hx, List.mem_singleton] at hmem humem
  exact hne u hu hsource (humem.trans hmem.symm)

theorem single_congr {r' : Resctrl} (h : (r'.groups.get? name).map (fun g => g.monGroups.length) =
    (r.groups.get? name).map fun g => g.monGroups.length) : Single r' name ↔ Single r name := by
  have hone : ∀ r : Resctrl, Single r name ↔
      (r.groups.get? name).map (fun g => g.monGroups.length) = some 1 := by
    intro r
    rw [Option.map_eq_some_iff]
    exact Iff.rfl
  rw [hone, hone, h]

end

/-- The value takes the only mon group away from the group. -/
def RDTAllocationValue.Empties (v : RDTAllocationValue) (r : Resctrl) (name : String) : Prop :=
  v.sourceResgroup = some ⟨name⟩ ∧ Single r name

instance {v : RDTAllocationValue} {r : Resctrl} {name : String} : Decidable (v.Empties r name) :=
  inferInstanceAs (Decidable (_ ∧ _))

section

variable {v : RDTAllocationValue} {vs : List RDTAllocationValue} {w w' : World}

/-- The container of a value that is done with stays in its group. -/
theorem Roomy.not_emptied {r r' : Resctrl} {name : String} (hroomy : Roomy r (v :: vs))
    (hroomy' : Roomy r' vs)
    (hlodged : Lodged r' v.containerName name) : ¬ Emptied r' name vs :=
  not_emptied_of_lodged hroomy'.placed hlodged fun u hu _ he =>
    (List.nodup_cons.mp hroomy.apart).1 (List.mem_map.mpr ⟨u, hu, he⟩)

/-- A group is emptied by the first value, or later and not by it. -/
theorem emptied_step (h : Effect v w w') (hroomy : Roomy w.host.resctrl (v :: vs))
    (hroomy' : Roomy w'.host.resctrl vs) (name : String) :
    (Emptied w.host.resctrl name (v :: vs) ↔
      v.Empties w.host.resctrl name ∨ Emptied w'.host.resctrl name vs) ∧
      (v.Empties w.host.resctrl name → ¬ Emptied w'.host.resctrl name vs) := by
  have hplaced := hroomy.placed v List.mem_cons_self
  have hgroup := h.group name
  unfold RDTAllocationValue.regroup at hgroup
  by_cases harrives : v.destination = some name
  · rw [if_pos harrives] at hgroup
    have hstays := hroomy.not_emptied hroomy' ⟨_, hgroup, mem_addMonGroup.mpr (.inl rfl)⟩
    have hnot : v.sourceResgroup ≠ some ⟨name⟩ :=
      fun hsource => (hplaced.lodged_of_source hsource).2.1 harrives
    refine ⟨iff_of_false ?_ ?_, fun hempties => absurd hempties.1 hnot⟩
    · rintro ⟨-, hsource | ⟨hne, -⟩⟩
      · exact hnot hsource
      · exact hne harrives
    · rintro (hempties | hemptied)
      · exact hnot hempties.1
      · exact hstays hemptied
  rw [if_neg harrives] at hgroup
  by_cases hsource : v.sourceResgroup = some ⟨name⟩
  · obtain ⟨⟨src, hsrc, hm⟩, -⟩ := hplaced.lodged_of_source hsource
    rw [if_pos hsource, hsrc, Option.bind_some, left] at hgroup
    have hsingle : Single w.host.resctrl name ↔ src.monGroups.length = 1 := by
      rw [Single, hsrc]
      simp
    have hempties : v.Empties w.host.resctrl name ↔ src.monGroups.length = 1 := by
      rw [RDTAllocationValue.Empties, and_iff_right hsource, hsingle]
    have hbefore : Emptied w.host.resctrl name (v :: vs) ↔ src.monGroups.length = 1 := by
      rw [Emptied, hsingle, and_iff_left (by exact .inl hsource)]
    have hafter : ¬ Emptied w'.host.resctrl name vs := by
      rintro ⟨⟨g, hg, hlen⟩, -⟩
      rw [hgroup] at hg
      by_cases hone : src.monGroups.length = 1
      · -- nothing is left in the root group
        rw [if_pos hone] at hg
        obtain ⟨x, hx⟩ := List.length_eq_one_iff.mp hone
        rw [hx, List.mem_singleton] at hm
        split at hg
        · cases hg
          rw [CtrlGroup.write, hx, ← hm] at hlen
          simp at hlen
        · cases hg
      · rw [if_neg hone] at hg
        cases hg
        exact hone hlen
    rw [hbefore, hempties, or_iff_left hafter]
    exact ⟨Iff.rfl, fun _ => hafter⟩
  · rw [if_neg hsource] at hgroup
    have hempties : ¬ v.Empties w.host.resctrl name := fun hc => hsource hc.1
    have hsingle : Single w'.host.resctrl name ↔ Single w.host.resctrl name := by
      refine single_congr ?_
      rw [hgroup, Option.map_map]
      rfl
    rw [or_iff_right hempties, Emptied, Emptied, hsingle, LeavesFirst, or_iff_right hsource,
      and_iff_right harrives]
    exact ⟨Iff.rfl, fun hc => absurd hc hempties⟩

/-- What one value does to the schemata that a run starts with. -/
theorem startingSchemata_step (h : Effect v w w') (hroomy : Roomy w.host.resctrl (v :: vs))
    (hroomy' : Roomy w'.host.resctrl vs) (name : String) :
    startingSchemata w'.host.resctrl name vs = (startingSchemata w.host.resctrl name (v :: vs)).map
      fun schemata => (v.linesFor w.heap.executed name).foldl writeRow schemata := by
  have hplaced := hroomy.placed v List.mem_cons_self
  have hgroup := h.group name
  obtain ⟨hemptied, hexclusive⟩ := emptied_step h hroomy hroomy' name
  unfold RDTAllocationValue.regroup at hgroup
  by_cases harrives : v.destination = some name
  · -- the container is there for the rest of the run
    rw [if_pos harrives] at hgroup
    have hafter := hroomy.not_emptied hroomy' ⟨_, hgroup, mem_addMonGroup.mpr (.inl rfl)⟩
    have hbefore : ¬ Emptied w.host.resctrl name (v :: vs) := by
      rw [hemptied, or_iff_left hafter]
      exact fun hempties => (hplaced.lodged_of_source hempties.1).2.1 harrives
    have hfresh : freshSchemata w.host.resctrl name (v :: vs) = some w.host.resctrl.defaultSchemata :=
      if_pos ⟨v, List.mem_cons_self, harrives⟩
    rw [startingSchemata, if_neg fun hc => hafter hc.2, hgroup, startingSchemata,
      if_neg fun hc => hbefore hc.2, hfresh]
    cases w.host.resctrl.groups.get? name <;> rfl
  rw [if_neg harrives] at hgroup
  have hfresh : freshSchemata w'.host.resctrl name vs = freshSchemata w.host.resctrl name (v :: vs) := by
    rw [freshSchemata, freshSchemata, h.defaultSchemata]
    simp only [List.exists_mem_cons_iff, harrives, false_or]
  by_cases hvacates : name ≠ RESCTRL_ROOT_NAME ∧ v.Empties w.host.resctrl name
  · -- the group is removed, and made anew when another container comes
    obtain ⟨hroot, hempties⟩ := hvacates
    obtain ⟨⟨src, hsrc, -⟩, -, hother⟩ := hplaced.lodged_of_source hempties.1
    obtain ⟨g, hg, hlen⟩ := hempties.2
    cases hsrc.symm.trans hg
    have hnone : v.linesFor w.heap.executed name = [] := if_neg fun hc => hother hc.2
    rw [if_pos hempties.1, hsrc, Option.bind_some, left, if_pos hlen, if_neg hroot] at hgroup
    rw [hnone, startingSchemata, if_neg fun hc => hexclusive hempties hc.2, hgroup, startingSchemata,
      if_pos ⟨hroot, hemptied.mpr (.inl hempties)⟩, hfresh]
    simp
  have hsame : Vacated w'.host.resctrl name vs ↔ Vacated w.host.resctrl name (v :: vs) := by
    rw [Vacated, Vacated, hemptied]
    exact and_congr_right fun hroot => (or_iff_right fun hempties => hvacates ⟨hroot, hempties⟩).symm
  by_cases hlines : v.linesFor w.heap.executed name = []
  · have hschemata : (w'.host.resctrl.groups.get? name).map CtrlGroup.schemata =
        (w.host.resctrl.groups.get? name).map CtrlGroup.schemata := by
      rw [hgroup, hlines, map_write_nil]
      split
      · rename_i hsource
        obtain ⟨⟨src, hsrc, -⟩, -⟩ := hplaced.lodged_of_source hsource
        rw [hsrc, Option.bind_some, left]
        by_cases hlen : src.monGroups.length = 1
        · have hroot : name = RESCTRL_ROOT_NAME := by
            by_contra hne
            exact hvacates ⟨hne, hsource, src, hsrc, hlen⟩
          rw [if_pos hlen, if_pos hroot]
          rfl
        · rw [if_neg hlen]
      · rfl
    rw [hlines, startingSchemata, startingSchemata, hschemata, hfresh]
    simp only [hsame, List.foldl_nil, Option.map_id']
  · -- only a container that is in the group writes to it
    obtain ⟨g, hg, hm⟩ := hplaced.lodged_of_lines hlines harrives
    have hsource : v.sourceResgroup ≠ some ⟨name⟩ := by
      intro hsource
      refine hlines (if_neg fun hc => ?_)
      exact (hplaced.lodged_of_source hsource).2.2 hc.2
    rw [if_neg hsource, hg] at hgroup
    have hnot := hroomy.not_emptied hroomy' ⟨_, hgroup, hm⟩
    rw [startingSchemata, if_neg fun hc => hnot hc.2, hgroup, startingSchemata,
      if_neg fun hc => hnot (hsame.mpr hc).2, hg]
    rfl

/-- **Schemata after a run.** Every group that is there then has the schemata that it started with, with all
lines written to it. -/
theorem forM_performAllocations_schemata {u : PUnit} (hroomy : Roomy w.host.resctrl vs)
    (hrun : (forM vs RDTAllocationValue.performAllocations).run w = .ok u w') (name : String) :
    (w'.host.resctrl.groups.get? name).map CtrlGroup.schemata =
      (startingSchemata w.host.resctrl name vs).map
        fun schemata => (linesTo name w.heap.executed vs).foldl writeRow schemata := by
  induction vs generalizing w with
  | nil =>
    cases hrun
    rw [startingSchemata, if_neg fun hc => hc.2.2, freshSchemata, if_neg (by simp)]
    simp [linesTo]
    rfl
  | cons v vs ih =>
    rw [List.forM_cons] at hrun
    obtain ⟨_, w₁, hv, hrest⟩ := bind_ok_iff.mp hrun
    obtain ⟨hroomy', -, -⟩ := (RDTAllocationValue.performAllocations_step hroomy).2 w₁ hv
    have heffect := performAllocations_effect (hroomy.placed v List.mem_cons_self) hv
    rw [ih hroomy' hrest, startingSchemata_step heffect hroomy hroomy' name, Option.map_map, linesTo,
      heffect.executed]
    congr 1
    funext schemata
    rw [Function.comp_apply, List.foldl_append]

end

/-! ## Who writes -/

/-- The values share an `RDTGroups` and name the same group. -/
def RDTAllocationValue.SameKey (v u : RDTAllocationValue) : Prop :=
  u.rdtGroups = v.rdtGroups ∧ u.getResgroupName = v.getResgroupName

instance {v u : RDTAllocationValue} : Decidable (v.SameKey u) := inferInstanceAs (Decidable (_ ∧ _))

/-- The value is the first of those with its key, and none of them was performed before. -/
def Writes (name : String) (executed : Ref → Finset String) (vs : List RDTAllocationValue)
    (v : RDTAllocationValue) : Prop :=
  (v.getResgroupName ∉ executed v.rdtGroups ∧ v.resgroup = some ⟨name⟩) ∧
    vs.find? (fun u => v.SameKey u) = some v

instance {name : String} {executed : Ref → Finset String} {vs : List RDTAllocationValue}
    {v : RDTAllocationValue} : Decidable (Writes name executed vs v) := inferInstanceAs (Decidable (_ ∧ _))

theorem writes_cons_iff {name : String} {executed : Ref → Finset String} {vs : List RDTAllocationValue}
    {v u : RDTAllocationValue} (hne : v ≠ u) :
    Writes name executed (v :: vs) u ↔ Writes name (v.executes executed) vs u := by
  rw [Writes, Writes, RDTAllocationValue.executes, Function.update_apply]
  by_cases hsame : u.SameKey v
  · -- the first value has acted on the group
    rw [List.find?_cons_of_pos (by simpa using hsame), if_pos hsame.1.symm, ← hsame.2, hsame.1]
    simp [hne]
  · rw [List.find?_cons_of_neg (by simpa using hsame)]
    by_cases href : u.rdtGroups = v.rdtGroups
    · have hname : u.getResgroupName ≠ v.getResgroupName := fun he => hsame ⟨href.symm, he.symm⟩
      rw [if_pos href, href, Finset.mem_insert, or_iff_right hname]
    · rw [if_neg href]

/-- The first of the values that share an `RDTGroups` and name a group writes its lines. -/
theorem linesTo_eq {vs : List RDTAllocationValue} (hnodup : vs.Nodup) (name : String)
    (executed : Ref → Finset String) : linesTo name executed vs =
      (vs.filter fun v => Writes name executed vs v).flatMap RDTAllocationValue.schemataLines := by
  induction vs generalizing executed with
  | nil => rfl
  | cons v vs ih =>
    obtain ⟨hv, hnodup⟩ := List.nodup_cons.mp hnodup
    have hrest : ∀ u ∈ vs, decide (Writes name (v.executes executed) vs u) =
        decide (Writes name executed (v :: vs) u) := by
      intro u hu
      have hne : v ≠ u := fun he => hv (he ▸ hu)
      exact decide_eq_decide.mpr (writes_cons_iff hne).symm
    have hself : (v :: vs).find? (fun u => v.SameKey u) = some v :=
      List.find?_cons_of_pos (by simp [RDTAllocationValue.SameKey])
    rw [linesTo, ih hnodup, List.filter_congr hrest, RDTAllocationValue.linesFor]
    have hwrites : Writes name executed (v :: vs) v ↔
        v.getResgroupName ∉ executed v.rdtGroups ∧ v.resgroup = some ⟨name⟩ := and_iff_left hself
    rw [List.filter_cons]
    simp only [decide_eq_true_iff, hwrites]
    split
    · rw [List.flatMap_cons]
    · rfl

/-! ## Places over a run -/

/-- Where the last of the values that move the process puts it. -/
def movedTo (r : Resctrl) (pid : Pid) : List RDTAllocationValue → Option (String × Option String)
  | [] => none
  | v :: vs => (movedTo r pid vs).or
      (if pid ∈ v.getPids.getPids true r then v.destination.map fun g => (g, some v.containerName) else none)

section

variable {v : RDTAllocationValue} {vs : List RDTAllocationValue} {r r' : Resctrl} {w w' : World} {u : Unit}
  {pid : Pid}

theorem movedTo_congr (h : kinds r' = kinds r) : movedTo r' pid vs = movedTo r pid vs := by
  induction vs with
  | nil => rfl
  | cons v vs ih => rw [movedTo, movedTo, ih, Container.getPids_congr h]

theorem movedTo_eq_none (h : ∀ u ∈ vs, pid ∈ u.getPids.getPids true r → u.destination = none) :
    movedTo r pid vs = none := by
  induction vs with
  | nil => rfl
  | cons v vs ih =>
    rw [movedTo, ih fun u hu => h u (List.mem_cons_of_mem _ hu), Option.none_or]
    split
    · rename_i hpid
      rw [h v List.mem_cons_self hpid, Option.map_none]
    · rfl

/-- A process that a single value moves. -/
theorem movedTo_eq_some {g : String} (hv : v ∈ vs) (hpid : pid ∈ v.getPids.getPids true r)
    (hdest : v.destination = some g) (h : ∀ u ∈ vs, pid ∈ u.getPids.getPids true r → u = v) :
    movedTo r pid vs = some (g, some v.containerName) := by
  induction vs with
  | nil => cases hv
  | cons u vs ih =>
    have hrest : ∀ u ∈ vs, pid ∈ u.getPids.getPids true r → u = v :=
      fun u hu => h u (List.mem_cons_of_mem _ hu)
    rw [movedTo]
    by_cases hmem : v ∈ vs
    · rw [ih hmem hrest, Option.some_or]
    · obtain rfl := (List.mem_cons.mp hv).resolve_right hmem
      have hnone : movedTo r pid vs = none :=
        movedTo_eq_none fun u hu hmine => absurd (hrest u hu hmine ▸ hu) hmem
      rw [hnone, Option.none_or, if_pos hpid, hdest, Option.map_some]

/-- The processes of a group that is left without a mon group go to the root group. -/
theorem place?_leave_eq {source m : String} {src : CtrlGroup} (hwf : r.WellFormed)
    (hsrc : r.groups.get? source = some src) (hm : m ∈ src.monGroups) :
    place? (leave source m src r) pid = (place? r pid).map fun p =>
      if p.1 = source ∧ src.monGroups.length = 1 then (RESCTRL_ROOT_NAME, none) else p := by
  unfold leave
  by_cases hlen : src.monGroups.length = 1
  · rw [if_pos hlen]
    simp only [hlen, and_true]
    split
    · rename_i hroot
      obtain ⟨x, hx⟩ := List.length_eq_one_iff.mp hlen
      rw [hx, List.mem_singleton] at hm
      rw [hwf.place?_rmdirMonGroup]
      cases hp : place? r pid with
      | none => rfl
      | some p =>
        obtain ⟨name, y⟩ := p
        rw [Option.map_some, Option.map_some]
        by_cases hname : name = source
        · -- in the root group itself, or in its mon group
          subst hname
          obtain ⟨g, hg, hy⟩ := hwf.place pid name y hp
          cases hsrc.symm.trans hg
          rw [if_pos rfl, ← hroot]
          cases y with
          | none => rw [if_neg (by simp)]
          | some m' =>
            have hm' := hy m' rfl
            rw [hx, List.mem_singleton, ← hm] at hm'
            rw [hm', if_pos rfl]
        · rw [if_neg (by simp [hname]), if_neg hname]
    · exact hwf.place?_rmdirCtrlGroup pid
  · rw [if_neg hlen]
    simp [hlen]

/-- Where a process is once a value was performed. -/
theorem performAllocations_place (hwf : w.host.resctrl.WellFormed) (hplaced : v.Placed w.host.resctrl)
    (h : v.performAllocations.run w = .ok u w') (pid : Pid) : w'.host.resctrl.WellFormed ∧
      place? w'.host.resctrl pid = (movedTo w.host.resctrl pid [v]).or
        ((place? w.host.resctrl pid).map fun p =>
          if v.Empties w.host.resctrl p.1 then (RESCTRL_ROOT_NAME, none) else p) := by
  obtain ⟨r, hmove, hsame⟩ := RDTAllocationValue.performAllocations_tree h
  have hstay : v.sourceResgroup = none → w'.host.resctrl.WellFormed ∧
      place? w'.host.resctrl pid = (movedTo w.host.resctrl pid [v]).or
        ((place? w.host.resctrl pid).map fun p =>
          if v.Empties w.host.resctrl p.1 then (RESCTRL_ROOT_NAME, none) else p) := by
    intro hnone
    rw [RDTAllocationValue.moveIfAsked_of_none hnone] at hmove
    cases hmove
    refine ⟨hwf.sameTree hsame, ?_⟩
    rw [hsame.place?]
    simp [movedTo, RDTAllocationValue.destination, RDTAllocationValue.Empties, hnone]
  rcases hplaced with ⟨hnone, -⟩ | ⟨-, g, home, hres, ⟨src, hsrc, hm⟩, ⟨hnone, -⟩ | ⟨hsource, hne⟩⟩
  · exact hstay hnone
  · exact hstay hnone
  rw [RDTAllocationValue.moveIfAsked_of_some hsource] at hmove
  obtain ⟨r₁, src', hadded, hsrc', rfl⟩ := RDTAllocationValue.moveToGroup_ok hres hmove
  have hkept : r₁.groups.get? home.name = some src := by
    rw [hadded.other _ hne, hsrc]
  cases hkept.symm.trans hsrc'
  have hwf₁ := hadded.wellFormed hwf
  refine ⟨(leave_wellFormed hwf₁).sameTree hsame, ?_⟩
  rw [hsame.place?, place?_leave_eq hwf₁ hkept hm, hadded.place, movedTo, movedTo, Option.none_or,
    RDTAllocationValue.destination, hsource, hres]
  dsimp only [Option.isSome_some, if_true, Option.map_some]
  have hempties : ∀ name, v.Empties w.host.resctrl name ↔ name = home.name ∧ src.monGroups.length = 1 := by
    intro name
    rw [RDTAllocationValue.Empties, hsource, Option.some.injEq, ResGroup.mk.injEq, eq_comm]
    refine and_congr_right fun he => ?_
    rw [he, Single, hsrc]
    simp
  simp only [hempties]
  by_cases hpid : pid ∈ v.getPids.getPids true w.host.resctrl
  · rw [if_pos hpid, if_pos hpid, Option.map_some, if_neg fun hc => hne hc.1.symm]
    rfl
  · rw [if_neg hpid, if_neg hpid]
    rfl

/-- **Places after a run.** A process is where the last value that moves it puts it; any other process stays
where it is, unless its group is emptied. -/
theorem forM_performAllocations_place {u : PUnit} (hwf : w.host.resctrl.WellFormed)
    (hroomy : Roomy w.host.resctrl vs)
    (hrun : (forM vs RDTAllocationValue.performAllocations).run w = .ok u w') (pid : Pid) :
    place? w'.host.resctrl pid = (movedTo w.host.resctrl pid vs).or
      ((place? w.host.resctrl pid).map fun p =>
        if Emptied w.host.resctrl p.1 vs then (RESCTRL_ROOT_NAME, none) else p) := by
  induction vs generalizing w with
  | nil =>
    cases hrun
    have hnot : ∀ p : String × Option String, ¬ Emptied w'.host.resctrl p.1 [] := fun p hc => hc.2
    simp [movedTo, hnot]
  | cons v vs ih =>
    rw [List.forM_cons] at hrun
    obtain ⟨_, w₁, hv, hrest⟩ := bind_ok_iff.mp hrun
    obtain ⟨hroomy', hkinds, -⟩ := (RDTAllocationValue.performAllocations_step hroomy).2 w₁ hv
    have hplaced := hroomy.placed v List.mem_cons_self
    have heffect := performAllocations_effect hplaced hv
    obtain ⟨hwf', hplace⟩ := performAllocations_place hwf hplaced hv pid
    rw [ih hwf' hroomy' hrest, movedTo_congr hkinds, movedTo, hplace, Option.or_assoc]
    congr 1
    rw [movedTo, movedTo, Option.none_or]
    cases hmoved : (if pid ∈ v.getPids.getPids true w.host.resctrl then
      v.destination.map fun g => (g, some v.containerName) else none) with
    | some p =>
      -- the group that it is put into is not emptied any more
      obtain ⟨g, hdest, rfl⟩ : ∃ g, v.destination = some g ∧ (g, some v.containerName) = p := by
        split at hmoved
        · exact Option.map_eq_some_iff.mp hmoved
        · cases hmoved
      have hgroup := heffect.group g
      rw [RDTAllocationValue.regroup, if_pos hdest] at hgroup
      have hnot := hroomy.not_emptied hroomy' ⟨_, hgroup, mem_addMonGroup.mpr (.inl rfl)⟩
      rw [Option.some_or, Option.some_or, Option.map_some, if_neg hnot]
    | none =>
      rw [Option.none_or, Option.none_or, Option.map_map]
      congr 1
      funext p
      obtain ⟨hemptied, -⟩ := emptied_step heffect hroomy hroomy' p.1
      rw [Function.comp_apply]
      by_cases hempties : v.Empties w.host.resctrl p.1
      · rw [if_pos hempties, if_pos (hemptied.mpr (.inl hempties)), ite_self]
      · rw [if_neg hempties]
        simp only [hemptied, hempties, false_or]

end

end Wca
