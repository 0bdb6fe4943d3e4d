import Wca.Derived.Cgroup
import Wca.Derived.Uncore

/-!
# Snapshots in turn

Both generators, over calls that come one after the other. They show what they should of every
snapshot just when every two snapshots in turn meet the condition of the generator.
-/

namespace Wca.Derived

open Py

/-- What a generator leaves of all its calls: none of them raises, the counters are as they were and
the derived metrics are where they should be. -/
def Leaves {M : Type} (derive : M → ℚ → M → Except Exc M) (shows : M → ℚ → M → M → Prop)
    (calls : List (M × ℚ)) : Prop :=
  ∃ results, runs derive none calls = .ok results ∧ ShowsAll shows none calls results

/-- The calls give no derived metric themselves, and the time does not go back. -/
def Follows {M : Type} (Raw : M → Prop) (calls : List (M × ℚ)) : Prop :=
  (∀ call ∈ calls, Raw call.1) ∧ calls.IsChain fun c c' => c.2 ≤ c'.2

/-- Every two snapshots in turn meet the condition of the generators just when what they leave of
the run is what they should. -/
theorem snapshots_derive_iff (levels : Nat) (cgroup : List (Measurements levels × ℚ))
    (hcgroup : Follows (Raw PerfCgroup.derivedNames) cgroup)
    (platform : List (Uncore.PlatformMeasurements × ℚ))
    (hplatform : Follows Uncore.PlatformMeasurements.Raw platform) :
    (Leaves (PerfCgroup.derive levels) PerfCgroup.Shows cgroup ↔
      cgroup.IsChain fun c c' => PerfCgroup.Meets c.1 (c'.2 - c.2) c'.1) ∧
    (Leaves Uncore.derive Uncore.Shows platform ↔
      platform.IsChain fun c c' => Uncore.Meets c.1 (c'.2 - c.2) c'.1) :=
  ⟨PerfCgroup.derives.runs_iff hcgroup.1 hcgroup.2,
    Uncore.derives.runs_iff hplatform.1 hplatform.2⟩

/-! ## A cgroup and a platform -/

/-- A counter of one cpu, of a cgroup that does not add the cpus up. -/
def ofCpu (name : MetricName) (value : ℚ) (measurements : Measurements 1) : Measurements 1 :=
  measurements.set name (Dict.set ∅ 0 value)

/-- A second in which the cpu was busy, and one in which it was idle. -/
def busyThenIdle : List (Measurements 1 × ℚ) :=
  [(ofCpu taskCycles 200 (ofCpu taskInstructions 100 ∅), 0),
    (ofCpu taskCycles 600 (ofCpu taskInstructions 900 ∅), 1),
    (ofCpu taskCycles 600 (ofCpu taskInstructions 900 ∅), 2)]

/-- A counter of one PMU of one socket. -/
def ofPmu (name : MetricName) (value : ℚ) (measurements : Measurements 2) : Measurements 2 :=
  measurements.set name (Dict.set ∅ 0 (Dict.set ∅ 13 value))

/-- A memory that was read and written for a second. -/
def readAndWritten : List (Uncore.PlatformMeasurements × ℚ) :=
  [({ perPmu := ofPmu platformCasCountWrites 0 (ofPmu platformCasCountReads 0 ∅) }, 0),
    ({ perPmu := ofPmu platformCasCountWrites 3 (ofPmu platformCasCountReads 5 ∅) }, 1)]

theorem covered_single {k : Key} {q q' : ℚ} : Covered 1 (Dict.set ∅ k q) (Dict.set ∅ k q') :=
  .singleton trivial

theorem covered_pmu {q q' : ℚ} :
    Covered 2 (Dict.set ∅ 0 (Dict.set ∅ 13 q)) (Dict.set ∅ 0 (Dict.set ∅ 13 q')) :=
  .singleton covered_single

/-- A cgroup of one cpu, with cycles and instructions, whatever they are. -/
theorem cyclesAndInstructions_meet (c i c' i' timeDelta : ℚ) :
    PerfCgroup.Meets (ofCpu taskCycles c (ofCpu taskInstructions i ∅)) timeDelta
      (ofCpu taskCycles c' (ofCpu taskInstructions i' ∅)) := by
  refine ⟨⟨fun _ _ => ⟨?_, ?_, ?_, fun h => (nomatch h)⟩, fun _ hnot => absurd ⟨rfl, rfl⟩ hnot⟩,
    fun h => absurd h.1 (Bool.eq_false_iff.mp rfl), fun h => absurd h.1 (Bool.eq_false_iff.mp rfl)⟩
  · exact (Counter.tracked_iff rfl rfl).mpr covered_single
  · exact (Counter.tracked_iff rfl rfl).mpr covered_single
  · exact (Counter.within_iff rfl rfl).mpr covered_single

theorem readAndWritten_meets :
    readAndWritten.IsChain fun c c' => Uncore.Meets c.1 (c'.2 - c.2) c'.1 := by
  refine .cons_cons ⟨⟨fun _ _ => ⟨?_, ?_, ?_, fun hzero => ?_, fun hzero => ?_⟩,
    Uncore.together_of_exists ⟨rfl, rfl⟩ ⟨rfl, rfl⟩⟩, ⟨?_, ?_, ?_⟩, ?_, ?_⟩ (.singleton _)
  · exact (Counter.tracked_iff rfl rfl).mpr covered_pmu
  · exact (Counter.tracked_iff rfl rfl).mpr covered_pmu
  · exact (Counter.within_iff rfl rfl).mpr covered_pmu
  · norm_num at hzero
  · norm_num at hzero
  -- there are no other counters
  all_goals exact fun h => absurd h.1 (Bool.eq_false_iff.mp rfl)

theorem snapshots_derive_iff_busyThenIdle :
    Leaves (PerfCgroup.derive 1) PerfCgroup.Shows busyThenIdle ∧
      Leaves Uncore.derive Uncore.Shows readAndWritten := by
  have hbusy : Follows (Raw PerfCgroup.derivedNames) busyThenIdle := by
    refine ⟨fun call hcall name hname => ?_, by decide +kernel⟩
    revert call name
    decide +kernel
  have hread : Follows Uncore.PlatformMeasurements.Raw readAndWritten := by
    refine ⟨fun call hcall => ⟨fun name hname => ?_, ?_⟩, by decide +kernel⟩
    · revert call name
      decide +kernel
    · revert call
      decide +kernel
  have h := snapshots_derive_iff 1 busyThenIdle hbusy readAndWritten hread
  exact ⟨h.1.mpr (.cons_cons (cyclesAndInstructions_meet ..)
    (.cons_cons (cyclesAndInstructions_meet ..) (.singleton _))), h.2.mpr readAndWritten_meets⟩

/-- Snapshots of an aggregated cgroup that ran no instruction in a second. -/
def stalled : List (Measurements 0 × ℚ) :=
  [((Dict.set ∅ taskInstructions 1000).set taskCacheMisses 5, 0),
    ((Dict.set ∅ taskInstructions 1000).set taskCacheMisses 5, 1)]

theorem stalled_divides_by_zero : Follows (Raw PerfCgroup.derivedNames) stalled ∧
    runs (PerfCgroup.derive 0) none stalled = .error .ZeroDivisionError ∧
    ¬Leaves (PerfCgroup.derive 0) PerfCgroup.Shows stalled := by
  have hraises : runs (PerfCgroup.derive 0) none stalled = .error .ZeroDivisionError := by
    decide +kernel
  refine ⟨⟨fun call hcall name hname => ?_, by decide +kernel⟩, hraises, fun h => ?_⟩
  · revert call name
    decide +kernel
  · obtain ⟨results, hrun, -⟩ := h
    rw [hraises] at hrun
    cases hrun

end Wca.Derived
