import Wca.Validation

/-!
# A rejected iteration changes nothing

The changeset is bound before the target is validated, and the handler does not take it back. That
is harmless because the validation of a target never raises (`target_validates`): an
`InvalidAllocations` comes before the changeset is bound (`tryAllocations_error`).
-/

namespace Wca

open Py World

namespace AllocationRunner

variable {self : AllocationRunner}

/-- The target of two validated values is valid, and validating it changes nothing. -/
theorem target_validates {current new : TasksAllocations}
    {currentValues newValues target : TasksAllocationsValues}
    {changeset : Option TasksAllocationsValues} {h₀ h₁ h₂ : Heap}
    (hc : (self.create current).run h₀ = .ok currentValues h₁)
    (hn : (self.create new).run h₁ = .ok newValues h₂)
    (hcalc : calculateChangeset newValues currentValues = .ok (target, changeset)) :
    (validate newValues).run h₂ = .ok () h₂ ∧ (validate target).run h₂ = .ok () h₂ := by
  obtain ⟨hcacc, -⟩ := create_ok hc
  obtain ⟨hnacc, hkeep, -⟩ := create_ok hn
  have hcacc₂ : AllAccepted h₂ currentValues := fun m hm v hv => hkeep v (hcacc m hm v hv)
  exact ⟨validate_of_allAccepted hnacc, validate_of_allAccepted
    (allAccepted_target hcalc hnacc hcacc₂ (samePlatform_of_create hn hc))⟩

/-- When the `try` block raises, the two variables and the counter are what they were. -/
theorem tryAllocations_error {current new : TasksAllocations}
    {currentValues : TasksAllocationsValues} {h₀ : Heap} {s t : TryState} {e : Exc}
    (hc : (self.create current).run h₀ = .ok currentValues s.heap)
    (he : (self.tryAllocations new currentValues).run s = .error e t) :
    ∃ h, t = { s with heap := h } := by
  unfold tryAllocations at he
  rw [bind_error_iff] at he
  rcases he with he | ⟨_, s₁, hk, he⟩
  · exact ⟨s.heap, (run_liftM_error_iff.mp he).2⟩
  obtain ⟨-, rfl⟩ := run_liftM_ok_iff.mp hk
  rw [bind_error_iff] at he
  rcases he with he | ⟨newValues, s₂, hn, he⟩
  · obtain ⟨h, -, rfl⟩ := zoom_error_iff.mp he
    exact ⟨h, rfl⟩
  obtain ⟨h₂, hn', rfl⟩ := zoom_ok_iff.mp hn
  rw [bind_error_iff] at he
  rcases he with he | ⟨_, s₃, hv, he⟩
  · obtain ⟨h, -, rfl⟩ := zoom_error_iff.mp he
    exact ⟨h, rfl⟩
  obtain ⟨h₃, hv', rfl⟩ := zoom_ok_iff.mp hv
  rw [bind_error_iff] at he
  rcases he with he | ⟨⟨target, changeset⟩, s₄, hcalc, he⟩
  · exact ⟨h₃, (run_liftM_error_iff.mp he).2⟩
  -- from here on nothing raises
  obtain ⟨hcalc', rfl⟩ := run_liftM_ok_iff.mp hcalc
  obtain ⟨hnv, htv⟩ := target_validates hc hn' hcalc'
  have h₃₂ : h₃ = h₂ := by
    have := hv'.symm.trans hnv
    cases this
    rfl
  subst h₃₂
  rw [bind_of_ok (modify_run _ _), bind_error_iff] at he
  rcases he with he | ⟨_, s₅, -, he⟩
  · obtain ⟨h, he, -⟩ := zoom_error_iff.mp he
    exact nomatch htv.symm.trans he
  · cases he

theorem inTry_ok {α : Type} {x : EStateM Exc Heap α} {s : TryState} {a : α} {h : Heap}
    (hx : x.run s.heap = .ok a h) : (inTry x).run s = .ok a { s with heap := h } :=
  zoom_ok_iff.mpr ⟨h, hx, rfl⟩

/-- The `try` block returns when the Kubernetes check passes, the new values can be made and the
comparison returns. -/
theorem tryAllocations_ok_iff {current new : TasksAllocations}
    {currentValues : TasksAllocationsValues} {h₀ : Heap} {s t : TryState} {u : Unit}
    (hc : (self.create current).run h₀ = .ok currentValues s.heap) :
    (self.tryAllocations new currentValues).run s = .ok u t ↔
      validateSharesAllocationForKubernetes self.tasks new = .ok () ∧
      ∃ newValues h target changeset, (self.create new).run s.heap = .ok newValues h ∧
        calculateChangeset newValues currentValues = .ok (target, changeset) ∧
        t = {
          heap := h
          allocationsCounter := s.allocationsCounter + new.len
          targetAllocationsValues := target
          allocationsChangesetValues := changeset } := by
  unfold tryAllocations
  constructor
  · intro hrun
    rw [bind_ok_iff] at hrun
    obtain ⟨_, s₁, hk, hrun⟩ := hrun
    obtain ⟨hk', rfl⟩ := run_liftM_ok_iff.mp hk
    rw [bind_ok_iff] at hrun
    obtain ⟨newValues, s₂, hn, hrun⟩ := hrun
    obtain ⟨h₂, hn', rfl⟩ := zoom_ok_iff.mp hn
    rw [bind_ok_iff] at hrun
    obtain ⟨_, s₃, hv, hrun⟩ := hrun
    obtain ⟨h₃, hv', rfl⟩ := zoom_ok_iff.mp hv
    rw [bind_ok_iff] at hrun
    obtain ⟨⟨target, changeset⟩, s₄, hcalc, hrun⟩ := hrun
    obtain ⟨hcalc', rfl⟩ := run_liftM_ok_iff.mp hcalc
    obtain ⟨hnv, htv⟩ := target_validates hc hn' hcalc'
    cases hv'.symm.trans hnv
    rw [bind_of_ok (modify_run _ _), bind_of_ok (inTry_ok htv)] at hrun
    cases hrun
    exact ⟨hk', newValues, _, target, changeset, hn', hcalc', rfl⟩
  · rintro ⟨hk, newValues, h, target, changeset, hn, hcalc, rfl⟩
    obtain ⟨hnv, htv⟩ := target_validates hc hn hcalc
    rw [bind_of_ok (run_liftM_ok_iff.mpr ⟨hk, rfl⟩), bind_of_ok (inTry_ok hn),
      bind_of_ok (inTry_ok hnv), bind_of_ok (run_liftM_ok_iff.mpr ⟨hcalc, rfl⟩),
      bind_of_ok (modify_run _ _), bind_of_ok (inTry_ok htv)]
    rfl

/-- The `try` block at the start of an iteration. -/
def tryState (s : RunnerState) (currentValues : TasksAllocationsValues) (h : Heap) : TryState where
  heap := h
  allocationsCounter := s.allocationsCounter
  targetAllocationsValues := currentValues
  allocationsChangesetValues := none

/-- Rejecting is atomic. When `InvalidAllocations` is raised in the `try` block nothing is
performed, the current values are reported, one error is counted and no success; and once two
validated values are merged nothing of the kind is raised any more. -/
theorem rejected_iteration_atomic {current new : TasksAllocations}
    {currentValues : TasksAllocationsValues} {s : RunnerState} {h₁ : Heap}
    (hc : (self.create current).run s.world.heap = .ok currentValues h₁) :
    (∀ why t, (self.tryAllocations new currentValues).run (tryState s currentValues h₁) =
        .error (.InvalidAllocations why) t →
      (self.iterateBodyFrom current new).run s = .ok ⟨currentValues, none⟩
        { world := { s.world with heap := t.heap }
          allocationsCounter := s.allocationsCounter
          allocationsErrors := s.allocationsErrors + 1 }) ∧
    ∀ newValues h₂ h₃ target changeset, (self.create new).run h₁ = .ok newValues h₂ →
      (validate newValues).run h₂ = .ok () h₃ →
      calculateChangeset newValues currentValues = .ok (target, changeset) →
      (validate target).run h₃ = .ok () h₃ := by
  constructor
  · intro why t he
    obtain ⟨h, rfl⟩ := tryAllocations_error hc he
    have hcreate : (onWorld (onHeap (self.create current))).run s =
        .ok currentValues { s with world := { s.world with heap := h₁ } } := by
      rw [onWorld, zoom_run, onHeap, zoom_run, hc]
    have hhandle : (self.handleAllocations new currentValues).run
        { s with world := { s.world with heap := h₁ } } = .ok ⟨currentValues, none⟩
          { world := { s.world with heap := h }
            allocationsCounter := s.allocationsCounter
            allocationsErrors := s.allocationsErrors + 1 } := by
      unfold handleAllocations
      rw [bind_of_ok (get_run _)]
      unfold tryState at he
      simp only [he]
      rfl
    rw [iterateBodyFrom, bind_of_ok hcreate, bind_of_ok hhandle]
    rfl
  · intro newValues h₂ h₃ target changeset hn hv hcalc
    obtain ⟨hnv, htv⟩ := target_validates hc hn hcalc
    cases hv.symm.trans hnv
    exact htv

section

open SmallHost

/-- The tasks `t1` and `t2` share a group. -/
def sharedCurrent : TasksAllocations := Dict.ofItems [
  ("t1", (rdt (some "a") (some "L3:0=fff") (some "MB:0=100")).set .QUOTA (.num (.int 1))),
  ("t2", (rdt (some "a") (some "L3:0=fff") (some "MB:0=100")).set .CPUSET_CPUS (.str "0-3"))]

/-- The mask for `t2` has a gap. -/
def gapInMask : TasksAllocations := Dict.ofItems [
  ("t1", rdt (some "b") (some "L3:0=f") none),
  ("t2", (rdt (some "a") (some "L3:0=f0f") none).set .CPUSET_CPUS (.str "0,1"))]

/-- Nothing is done for either task when the mask for `t2` has a gap. -/
theorem rejected_iteration_atomic_gap :
    let self := runner [("t1", "a"), ("t2", "a")]
    let s := state [("t1", "a"), ("t2", "a")]
    ∃ currentValues t, (self.iterateBodyFrom sharedCurrent gapInMask).run s =
        .ok ⟨currentValues, none⟩ t ∧
      t.world.host = s.world.host ∧ t.allocationsErrors = 1 ∧ t.allocationsCounter = 0 := by
  intro self s
  obtain ⟨currentValues, h₁, hc, hrejected⟩ := exists_of_returnsSuch
    (r := (self.create sharedCurrent).run s.world.heap)
    (p := fun currentValues h₁ => raisesSuch Exc.isInvalidAllocations
      ((self.tryAllocations gapInMask currentValues).run (tryState s currentValues h₁)))
    (by decide +kernel)
  obtain ⟨e, t, he, hinvalid⟩ := exists_of_raisesSuch hrejected
  obtain ⟨why, rfl⟩ := e.isInvalidAllocations_iff.mp hinvalid
  exact ⟨currentValues, _, (rejected_iteration_atomic hc).1 why t he, rfl, rfl, rfl⟩

end

end AllocationRunner

end Wca
