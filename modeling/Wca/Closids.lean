import Wca.RDTValues
import Mathlib.Data.Finset.SDiff

/-!
# The number of control groups

Current and new values count their groups in objects of their own, so nothing counts the groups of
the target: those that are requested and those in which other tasks stay. `closidsLimit_iff` says
when they fit.
-/

namespace Wca

open Py AllocationsDict

/-- The group that the RDT value of a task names. -/
def resgroupNameOf (values : TasksAllocationsValues) (task : TaskId) : Option String :=
  (rdtValueOf values task).map RDTAllocationValue.getResgroupName

/-- The groups that RDT values name, and the root group. -/
def resgroupNames (values : TasksAllocationsValues) : Finset String :=
  insert RESCTRL_ROOT_NAME (values.keys.filterMap (resgroupNameOf values)).toFinset

theorem mem_resgroupNames {values : TasksAllocationsValues} {g : String} :
    g ∈ resgroupNames values ↔ g = RESCTRL_ROOT_NAME ∨ ∃ task, resgroupNameOf values task = some g := by
  rw [resgroupNames, Finset.mem_insert, List.mem_toFinset, List.mem_filterMap]
  refine or_congr_right ⟨fun ⟨task, _, h⟩ => ⟨task, h⟩, fun ⟨task, h⟩ => ⟨task, ?_, h⟩⟩
  obtain ⟨v, hv, -⟩ := Option.map_eq_some_iff.mp h
  obtain ⟨m, hm, -⟩ := leaf_mem.mp (rdtValueOf_eq_some_iff.mp hv)
  exact Dict.mem_keys.mpr ⟨m, hm⟩

namespace AllocationRunner

variable (self : AllocationRunner)

/-- The group that the RDT allocation of a task names, or else its container. -/
def requestedGroup (raws : TasksAllocations) (task : TaskId) : Option String :=
  (self.containers.get? task).bind fun p =>
    (rdtAllocationOf raws task).map fun a => a.name.getD p.2.name

def requestedGroups (raws : TasksAllocations) : Finset String :=
  (raws.keys.filterMap (self.requestedGroup raws)).toFinset

/-- The groups of the tasks that get no RDT allocation, and the root group. -/
def stayingGroups (current new : TasksAllocations) : Finset String :=
  insert RESCTRL_ROOT_NAME ((current.keys.filter fun task =>
    self.requestedGroup new task = none).filterMap (self.requestedGroup current)).toFinset

variable {self}

theorem mem_keys_of_requestedGroup {raws : TasksAllocations} {task : TaskId} {g : String}
    (h : self.requestedGroup raws task = some g) : task ∈ raws.keys := by
  obtain ⟨p, -, hp⟩ := Option.bind_eq_some_iff.mp h
  obtain ⟨a, ha, -⟩ := Option.map_eq_some_iff.mp hp
  cases hm : raws.get? task with
  | none => rw [rdtAllocationOf, hm] at ha; cases ha
  | some m => exact Dict.mem_keys_iff_get?.mpr ⟨m, hm⟩

theorem mem_requestedGroups {raws : TasksAllocations} {g : String} :
    g ∈ self.requestedGroups raws ↔ ∃ task, self.requestedGroup raws task = some g := by
  rw [requestedGroups, List.mem_toFinset, List.mem_filterMap]
  exact ⟨fun ⟨task, _, h⟩ => ⟨task, h⟩, fun ⟨task, h⟩ => ⟨task, mem_keys_of_requestedGroup h, h⟩⟩

theorem mem_stayingGroups {current new : TasksAllocations} {g : String} :
    g ∈ self.stayingGroups current new ↔ g = RESCTRL_ROOT_NAME ∨
      ∃ task, self.requestedGroup current task = some g ∧ self.requestedGroup new task = none := by
  rw [stayingGroups, Finset.mem_insert, List.mem_toFinset, List.mem_filterMap]
  refine or_congr_right ⟨fun ⟨task, ht, h⟩ => ⟨task, h, ?_⟩, fun ⟨task, h, hn⟩ => ⟨task, ?_, h⟩⟩
  · simpa using (List.mem_filter.mp ht).2
  · exact List.mem_filter.mpr ⟨mem_keys_of_requestedGroup h, by simpa using hn⟩

/-- The groups of the values that `create` makes. -/
theorem resgroupNameOf_create {raws : TasksAllocations} {d : TasksAllocationsValues} {h h' : Heap}
    (hd : (self.create raws).run h = .ok d h') (task : TaskId) :
    resgroupNameOf d task = self.requestedGroup raws task := by
  obtain ⟨-, hexists, registry, h₀, -, hvalue⟩ := rdtValueOf_of_create hd
  unfold resgroupNameOf requestedGroup
  cases hv : rdtValueOf d task with
  | none =>
    cases ha : rdtAllocationOf raws task with
    | none => cases self.containers.get? task <;> rfl
    | some a =>
      obtain ⟨v, hv'⟩ := hexists task a ha
      rw [hv] at hv'
      cases hv'
  | some v =>
    obtain ⟨tk, container, a, ctx, hc, ha, -, rfl⟩ := hvalue task v hv
    rw [hc, ha]
    rfl

/-- A task of the target is in the group that is requested for it, or else where it is. -/
theorem resgroupNameOf_target {new current target : TasksAllocationsValues}
    {changeset : Option TasksAllocationsValues}
    (h : calculateChangeset new current = .ok (target, changeset)) (hn : RdtTyped new)
    (hc : RdtTyped current) (task : TaskId) :
    resgroupNameOf target task = (resgroupNameOf new task).or (resgroupNameOf current task) := by
  have hentry := rdtEntry_of_ok h hn hc task
  unfold resgroupNameOf
  cases hv : rdtValueOf new task with
  | none =>
    rw [hv] at hentry
    rw [hentry.1]
    rfl
  | some v =>
    rw [hv] at hentry
    cases hw : rdtValueOf current task with
    | none =>
      rw [hw] at hentry
      rw [hentry.1]
      rfl
    | some c =>
      rw [hw] at hentry
      generalize changedRdtValueOf changeset task = change at hentry
      obtain ⟨t, hcalc, htarget⟩ := hentry
      rw [htarget]
      change some t.getResgroupName = some v.getResgroupName
      simp only [RDTAllocationValue.calculateChangeset] at hcalc
      split at hcalc
      · cases hcalc
        rfl
      · rename_i hsame
        rw [mergeInto_target hcalc]
        exact congrArg some (not_ne_iff.mp hsame)

/-- The groups of the target are those requested and those in which tasks stay. -/
theorem resgroupNames_target {current new : TasksAllocations} {currentValues : TasksAllocationsValues}
    {h₀ : Heap} {s t : TryState} {u : Unit}
    (hc : (self.create current).run h₀ = .ok currentValues s.heap)
    (hrun : (self.tryAllocations new currentValues).run s = .ok u t) :
    resgroupNames t.targetAllocationsValues =
      self.requestedGroups new ∪ self.stayingGroups current new := by
  obtain ⟨-, newValues, h, target, changeset, hn, hcalc, rfl⟩ := (tryAllocations_ok_iff hc).mp hrun
  have htarget := resgroupNameOf_target hcalc (rdtValueOf_of_create hn).1 (rdtValueOf_of_create hc).1
  ext g
  rw [mem_resgroupNames, Finset.mem_union, mem_requestedGroups, mem_stayingGroups]
  simp only [htarget, resgroupNameOf_create hc, resgroupNameOf_create hn, Option.or_eq_some_iff]
  constructor
  · rintro (hroot | ⟨task, hnew | ⟨hnone, hcur⟩⟩)
    · exact .inr (.inl hroot)
    · exact .inl ⟨task, hnew⟩
    · exact .inr (.inr ⟨task, hcur, hnone⟩)
  · rintro (⟨task, hnew⟩ | hroot | ⟨task, hcur, hnone⟩)
    · exact .inr ⟨task, .inl hnew⟩
    · exact .inl hroot
    · exact .inr ⟨task, .inr ⟨hnone, hcur⟩⟩

/-- The groups of an accepted target fit into the CLOSIDs exactly when the requested groups fit
into those that the root group and the tasks without a request leave free. -/
theorem closids_fit_iff {current new : TasksAllocations} {currentValues : TasksAllocationsValues}
    {h₀ : Heap} {s t : TryState} {u : Unit} {closidsLimit : ℤ}
    (_hlimit : (self.platform.rdtInformation.bind RDTInformation.numClosids) = some closidsLimit)
    (hc : (self.create current).run h₀ = .ok currentValues s.heap)
    (hrun : (self.tryAllocations new currentValues).run s = .ok u t) :
    ((resgroupNames t.targetAllocationsValues).card : ℤ) ≤ closidsLimit ↔
      ((self.requestedGroups new \ self.stayingGroups current new).card : ℤ) ≤
        closidsLimit - (self.stayingGroups current new).card := by
  rw [resgroupNames_target hc hrun, ← Finset.card_sdiff_add_card]
  push_cast
  omega

section

open SmallHost

def threeTasks : List (TaskId × String) := [("t1", "a"), ("t2", "a"), ("t3", "b")]

def threeCurrent : TasksAllocations := Dict.ofItems [
  ("t1", rdt (some "a") (some "L3:0=fff") none),
  ("t2", rdt (some "a") (some "L3:0=fff") none),
  ("t3", rdt (some "b") (some "L3:0=fff") none)]

/-- The task `t1` asks for a group. -/
def moveTo (group : String) : TasksAllocations :=
  Dict.ofItems [("t1", rdt (some group) (some "L3:0=f") none)]

/-- What happens to a request of `t1` for a group. -/
theorem runs_moveTo (group : String) {p : TasksAllocationsValues → TryState → Bool}
    (h : returnsSuch (fun currentValues h₁ => returnsSuch (fun _ t => p currentValues t)
        (((runner threeTasks).tryAllocations (moveTo group) currentValues).run
          (tryState (state threeTasks) currentValues h₁)))
      (((runner threeTasks).create threeCurrent).run heap) = true) :
    ∃ currentValues h₁ t, ((runner threeTasks).create threeCurrent).run heap = .ok currentValues h₁ ∧
      ((runner threeTasks).tryAllocations (moveTo group) currentValues).run
        (tryState (state threeTasks) currentValues h₁) = .ok () t ∧ p currentValues t = true := by
  obtain ⟨currentValues, h₁, hc, hrun⟩ := exists_of_returnsSuch h
  obtain ⟨_, t, ht, hp⟩ := exists_of_returnsSuch hrun
  exact ⟨currentValues, h₁, t, hc, ht, hp⟩

/-- A move to the group of another task fits. -/
theorem closids_fit_iff_sample : ∃ currentValues h₁ t,
    ((runner threeTasks).create threeCurrent).run heap = .ok currentValues h₁ ∧
      ((runner threeTasks).tryAllocations (moveTo "b") currentValues).run
        (tryState (state threeTasks) currentValues h₁) = .ok () t ∧
      ((resgroupNames t.targetAllocationsValues).card : ℤ) ≤ 3 := by
  obtain ⟨currentValues, h₁, t, hc, ht, -⟩ := runs_moveTo "b" (p := fun _ _ => true)
    (by decide +kernel)
  exact ⟨currentValues, h₁, t, hc, ht, (closids_fit_iff rfl hc ht).mpr (by decide +kernel)⟩

/-- A move to a third group, out of a group where another task stays, is accepted and makes one
group too many with the root group. -/
theorem closids_exceeded : ∃ currentValues h₁ t,
    ((runner threeTasks).create threeCurrent).run heap = .ok currentValues h₁ ∧
      ((runner threeTasks).tryAllocations (moveTo "c") currentValues).run
        (tryState (state threeTasks) currentValues h₁) = .ok () t ∧
      (runner threeTasks).platform.rdtInformation.bind RDTInformation.numClosids = some 3 ∧
      (resgroupNames currentValues).card ≤ 3 ∧ (resgroupNames t.targetAllocationsValues).card = 4 := by
  obtain ⟨currentValues, h₁, t, hc, ht, hp⟩ := runs_moveTo "c"
    (p := fun currentValues t => (resgroupNames currentValues).card ≤ 3 ∧
      (resgroupNames t.targetAllocationsValues).card = 4)
    (by decide +kernel)
  exact ⟨currentValues, h₁, t, hc, ht, rfl, of_decide_eq_true hp⟩

end

end AllocationRunner

end Wca
