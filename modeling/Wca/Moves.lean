import Wca.ResctrlAllocations
import Wca.Placement
import Mathlib.Logic.Function.Basic

/-!
# Moving containers between groups

A container moves from one group to another with its mon group and all its processes. The move leaves
every other container where it is, because the group it leaves is removed only if no mon group but
its own is there.
-/

namespace Wca

open Py Resctrl

/-- What is done with the group that a container has left: it is removed when a single mon group is
in it, or this mon group is, if it is the root group. -/
def leave (source m : String) (src : CtrlGroup) (r : Resctrl) : Resctrl :=
  if src.monGroups.length = 1 then
    if source = RESCTRL_ROOT_NAME then rmdirMonGroup source m r else rmdirCtrlGroup source r
  else r

@[simp] theorem kinds_leave {source m : String} {src : CtrlGroup} {r : Resctrl} :
    kinds (leave source m src r) = kinds r := by
  unfold leave
  split
  · split
    · exact kinds_rmdirMonGroup
    · exact kinds_rmdirCtrlGroup
  · rfl

/-- The group that a container has left: none if it was removed. -/
def left (source m : String) (src : CtrlGroup) : Option CtrlGroup :=
  if src.monGroups.length = 1 then
    if source = RESCTRL_ROOT_NAME then
      some { src with monGroups := src.monGroups.filter (· ≠ m) }
    else none
  else some src

theorem get?_leave {source m : String} {src : CtrlGroup} {r : Resctrl}
    (h : r.groups.get? source = some src) (g : String) :
    (leave source m src r).groups.get? g = if g = source then left source m src else r.groups.get? g := by
  unfold leave left
  by_cases h1 : src.monGroups.length = 1
  · rw [if_pos h1, if_pos h1]
    by_cases hroot : source = RESCTRL_ROOT_NAME
    · rw [if_pos hroot, if_pos hroot, get?_rmdirMonGroup]
      by_cases hg : g = source
      · subst hg
        rw [h, Option.map_some, if_pos rfl, if_pos rfl]
      · simp [hg]
    · rw [if_neg hroot, if_neg hroot]
      exact get?_rmdirCtrlGroup g
  · rw [if_neg h1, if_neg h1]
    split
    · rename_i he
      rw [he, h]
    · rfl

namespace RDTAllocationValue

variable {v : RDTAllocationValue} {source resgroup : ResGroup} {r r' : Resctrl} {u : Unit}

/-- A move that returns has added the pids, and then left the group it found. -/
theorem moveToGroup_steps (hres : v.resgroup = some resgroup)
    (h : (v.moveToGroup source).run r = .ok u r') :
    ∃ r₁ src, (resgroup.addPids (v.getPids.getPids true r) v.containerName).run r = .ok () r₁ ∧
      r₁.groups.get? source.name = some src ∧ r' = leave source.name v.containerName src r₁ := by
  unfold moveToGroup at h
  rw [hres] at h
  simp only at h
  rw [bind_of_ok (get_run r), bind_ok_iff] at h
  obtain ⟨_, r₁, hadd, h⟩ := h
  rw [bind_of_ok (get_run r₁), bind_ok_iff] at h
  obtain ⟨monGroups, r₂, hmon, h⟩ := h
  obtain ⟨hmon', hr₂⟩ := run_liftM_ok_iff.mp hmon
  subst r₂
  unfold ResGroup.getMonGroups at hmon'
  split at hmon'
  · cases hmon'
  · rename_i src hsrc
    cases hmon'
    refine ⟨r₁, src, hadd, hsrc, ?_⟩
    unfold leave
    rcases doIf_ok_iff.mp h with ⟨h1, h⟩ | ⟨h1, rfl⟩
    · rw [if_pos h1]
      have hrun := ResGroup.remove_run (m := v.containerName) hsrc
      rw [hrun] at h
      cases h
      by_cases hroot : source.name = RESCTRL_ROOT_NAME
      · rw [if_pos hroot, if_neg fun hc => hc.1 hroot]
      · rw [if_neg hroot, if_pos ⟨hroot, h1⟩]
    · rw [if_neg h1]

theorem moveToGroup_ok (hres : v.resgroup = some resgroup)
    (h : (v.moveToGroup source).run r = .ok u r') :
    ∃ r₁ src, Added resgroup.name (v.getPids.getPids true r) v.containerName r r₁ ∧
      r₁.groups.get? source.name = some src ∧ r' = leave source.name v.containerName src r₁ := by
  obtain ⟨r₁, src, hadd, hsrc, hleave⟩ := moveToGroup_steps hres h
  exact ⟨r₁, src, ResGroup.addPids_ok (fun pid => place?_isSome_of_mem_getPids) hadd, hsrc, hleave⟩

end RDTAllocationValue

end Wca
