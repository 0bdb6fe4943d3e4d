import Mathlib.Algebra.Order.Field.Rat
import Wca.Derived.Levels

/-!
# `BaseDerivedMetricsGenerator`

The generator keeps the last measurements and the time they were made at. What it derives is made of
counters, each in two snapshots (`Counter`): a ratio of changes, or a change in a time.
-/

namespace Wca.Derived

open Py

abbrev MetricName := String

/-- The metrics of one subsystem, which have as many levels each. -/
abbrev Measurements (levels : Nat) := Dict MetricName (Leveled levels)

section Deltas

variable {levels : Nat}

/-- `available(*names)` -/
def Available (prev measurements : Measurements levels) (names : List MetricName) : Prop :=
  ∀ name ∈ names, name ∈ measurements ∧ name ∈ prev

instance (prev measurements : Measurements levels) (names : List MetricName) :
    Decidable (Available prev measurements names) :=
  inferInstanceAs (Decidable (∀ name ∈ names, name ∈ measurements ∧ name ∈ prev))

/-- `delta` of one metric. It is only asked for what is available. -/
def delta : (levels : Nat) → Measurements levels → Measurements levels → MetricName →
    Except Exc (Leveled levels)
  | 0, prev, measurements, name => do
    let now ← item measurements name
    let before ← item prev name
    pure (now - before)
  | levels + 1, prev, measurements, name => do
    let now ← item measurements name
    let before ← item prev name
    operationOnLeveledDicts sub levels now before

/-! ## Ratios -/

/-- A ratio, where both numbers are there and the lower one is not zero. -/
def ratioOf (x y : Option ℚ) : Option ℚ :=
  x.bind fun a => y.bind fun b => if b = 0 then none else some (a / b)

theorem ratioOf_eq_truediv {x y : Option ℚ} :
    ratioOf x y = x.bind fun a => y.bind fun b => (truediv a b).toOption := by
  refine Option.bind_congr fun a _ => Option.bind_congr fun b _ => ?_
  rw [truediv]
  split <;> rfl

theorem ratioOf_none_left {y : Option ℚ} : ratioOf none y = none := rfl

theorem ratioOf_none_right {x : Option ℚ} : ratioOf x none = none := by
  cases x <;> rfl

theorem truediv_ok {a b : ℚ} (h : b ≠ 0) : truediv a b = .ok (a / b) := by
  rw [truediv, if_neg h]

theorem truediv_ok_iff {a b q : ℚ} : truediv a b = .ok q ↔ b ≠ 0 ∧ q = a / b := by
  rw [truediv]
  split
  · next h => exact ⟨fun hq => (nomatch hq), fun hq => absurd h hq.1⟩
  · next h => exact ⟨fun hq => ⟨h, (Except.ok.inj hq).symm⟩, fun hq => by rw [hq.2]⟩

theorem truediv_zero {a : ℚ} : truediv a 0 = .error .ZeroDivisionError := by
  rw [truediv, if_pos rfl]

/-! ## A counter in two snapshots -/

/-- A counter now and before, where a snapshot has it. -/
structure Counter (levels : Nat) where
  now : Option (Leveled levels)
  before : Option (Leveled levels)

def counter (prev measurements : Measurements levels) (name : MetricName) : Counter levels :=
  ⟨measurements.get? name, prev.get? name⟩

namespace Counter

/-- Both snapshots have the counter. -/
def Exists (c : Counter levels) : Prop := c.now.isSome ∧ c.before.isSome

/-- The change at the end of a path, if both snapshots have it. -/
def change (c : Counter levels) (path : List Key) : Option ℚ :=
  (c.now.bind fun now => leaf? levels now path).bind fun now =>
    (c.before.bind fun before => leaf? levels before path).map fun before => now - before

/-- No rate of the counter is to be shown: no time went by, or the snapshots share no path of it. -/
def Idle (c : Counter levels) (timeDelta : ℚ) : Prop :=
  timeDelta = 0 ∨ ∀ path, c.change path = none

/-- The keys of the counter were there before. -/
def Tracked (c : Counter levels) : Prop :=
  ∀ now before, c.now = some now → c.before = some before → Covered levels now before

/-- The keys of a counter are keys of the other one. -/
def Within (c c' : Counter levels) : Prop :=
  ∀ a b, c.now = some a → c'.now = some b → Covered levels a b

theorem change_eq_none {c : Counter levels} (h : ¬c.Exists) (path : List Key) :
    c.change path = none := by
  rw [change]
  cases hnow : c.now with
  | none => rfl
  | some now =>
    cases hbefore : c.before with
    | none => simp
    | some before => exact absurd ⟨by simp [hnow], by simp [hbefore]⟩ h

theorem tracked_iff {c : Counter levels} {now before : Leveled levels} (hnow : c.now = some now)
    (hbefore : c.before = some before) : c.Tracked ↔ Covered levels now before := by
  rw [Tracked, hnow, hbefore]
  constructor
  · exact fun h => h now before rfl rfl
  · intro h now' before' hnow' hbefore'
    cases hnow'
    cases hbefore'
    exact h

theorem within_iff {c c' : Counter levels} {a b : Leveled levels} (ha : c.now = some a)
    (hb : c'.now = some b) : c.Within c' ↔ Covered levels a b := by
  rw [Within, ha, hb]
  constructor
  · exact fun h => h a b rfl rfl
  · intro h a' b' ha' hb'
    cases ha'
    cases hb'
    exact h

theorem idle_iff {c : Counter levels} {timeDelta : ℚ} :
    c.Idle timeDelta ↔ ∀ path, ratioOf (c.change path) (some timeDelta) = none := by
  constructor
  · intro h path
    obtain hzero | hnone := h
    · rw [hzero]
      cases c.change path <;> rfl
    · rw [hnone path, ratioOf_none_left]
  · intro h
    by_cases hzero : timeDelta = 0
    · exact Or.inl hzero
    · refine Or.inr fun path => ?_
      have hover := h path
      cases hc : c.change path with
      | none => rfl
      | some x =>
        rw [hc, ratioOf, Option.bind_some, Option.bind_some, if_neg hzero] at hover
        cases hover

end Counter

variable {prev measurements : Measurements levels} {name : MetricName}

theorem available_iff {names : List MetricName} : Available prev measurements names ↔
    ∀ name ∈ names, (counter prev measurements name).Exists := by
  refine forall₂_congr fun name _ => ?_
  simp only [Counter.Exists, counter, Option.isSome_iff_exists, Dict.mem_def,
    Dict.mem_keys_iff_get?]

theorem divides_sub : Divides sub := fun _ _ _ h => nomatch h

theorem divides_add : Divides add := fun _ _ _ h => nomatch h

theorem divides_truediv : Divides truediv := by
  intro x y e h
  rw [truediv] at h
  split at h
  · cases h
    rfl
  · cases h

theorem delta_returns_iff (h : (counter prev measurements name).Exists) :
    (∃ r, delta levels prev measurements name = .ok r) ↔
      (counter prev measurements name).Tracked := by
  obtain ⟨now, hnow⟩ := Option.isSome_iff_exists.mp h.1
  obtain ⟨before, hbefore⟩ := Option.isSome_iff_exists.mp h.2
  rw [Counter.tracked_iff hnow hbefore]
  cases levels with
  | zero =>
    rw [delta, item_ok_iff.mpr hnow, item_ok_iff.mpr hbefore]
    exact ⟨fun _ => trivial, fun _ => ⟨_, rfl⟩⟩
  | succ levels =>
    rw [delta, item_ok_iff.mpr hnow, item_ok_iff.mpr hbefore]
    exact operation_returns_iff divides_sub

theorem leaf?_delta {r : Leveled levels} (h : delta levels prev measurements name = .ok r)
    (path : List Key) : leaf? levels r path = (counter prev measurements name).change path := by
  cases levels with
  | zero =>
    obtain ⟨now, hnow, h⟩ := except_bind_ok_iff.mp h
    obtain ⟨before, hbefore, h⟩ := except_bind_ok_iff.mp h
    cases h
    rw [Counter.change, counter, item_ok_iff.mp hnow, item_ok_iff.mp hbefore]
    by_cases hpath : path = [] <;> simp [leaf?, hpath]
  | succ levels =>
    obtain ⟨now, hnow, h⟩ := except_bind_ok_iff.mp h
    obtain ⟨before, hbefore, h⟩ := except_bind_ok_iff.mp h
    rw [leaf?_operation divides_sub h, Counter.change, counter, item_ok_iff.mp hnow,
      item_ok_iff.mp hbefore, Option.bind_some, Option.bind_some]
    refine Option.bind_congr fun x _ => ?_
    cases leaf? (levels + 1) before path <;> rfl

/-- The change of a counter has the keys that the counter has now. -/
theorem covered_delta {r now : Leveled levels} (h : delta levels prev measurements name = .ok r)
    (hnow : (counter prev measurements name).now = some now) :
    Covered levels r now ∧ Covered levels now r := by
  cases levels with
  | zero => exact ⟨trivial, trivial⟩
  | succ levels =>
    obtain ⟨now', hnow', h⟩ := except_bind_ok_iff.mp h
    obtain ⟨before, -, h⟩ := except_bind_ok_iff.mp h
    rw [counter, item_ok_iff.mp hnow'] at hnow
    cases hnow
    exact ⟨covered_operation h, covered_of_operation (fun x y => ⟨x - y, rfl⟩) h⟩

/-- One change covers another just when the counters do. -/
theorem covered_deltas_iff {name' : MetricName} {r r' : Leveled levels}
    (h : delta levels prev measurements name = .ok r)
    (h' : delta levels prev measurements name' = .ok r')
    (hexists : (counter prev measurements name).Exists)
    (hexists' : (counter prev measurements name').Exists) : Covered levels r r' ↔
      (counter prev measurements name).Within (counter prev measurements name') := by
  obtain ⟨now, hnow⟩ := Option.isSome_iff_exists.mp hexists.1
  obtain ⟨now', hnow'⟩ := Option.isSome_iff_exists.mp hexists'.1
  obtain ⟨hdown, hup⟩ := covered_delta h hnow
  obtain ⟨hdown', hup'⟩ := covered_delta h' hnow'
  rw [Counter.within_iff hnow hnow']
  constructor
  · exact fun hcovered => (hup.trans hcovered).trans hdown'
  · exact fun hwithin => (hdown.trans hwithin).trans hup'

end Deltas

/-! ## Measurements before and after -/

section Measurements

variable {levels : Nat} {prev prev' measurements measurements' : Measurements levels}
  {derivedNames : List MetricName}

theorem available_pair_iff {name name' : MetricName} :
    Available prev measurements [name, name'] ↔
      (counter prev measurements name).Exists ∧ (counter prev measurements name').Exists := by
  simp [available_iff]

theorem over_change_none {name name' : MetricName}
    (h : ¬Available prev measurements [name, name']) (path : List Key) :
    (counter prev measurements name).change path = none ∨
      (counter prev measurements name').change path = none := by
  rw [available_pair_iff] at h
  by_cases he : (counter prev measurements name).Exists
  · exact .inr (Counter.change_eq_none (fun he' => h ⟨he, he'⟩) path)
  · exact .inl (Counter.change_eq_none he path)

/-- The two changes, where both counters are available and their keys were there before. -/
theorem deltas_returns {name name' : MetricName} (h : Available prev measurements [name, name'])
    (htracked : (counter prev measurements name).Tracked)
    (htracked' : (counter prev measurements name').Tracked) : ∃ a b,
      delta levels prev measurements name = .ok a ∧
        delta levels prev measurements name' = .ok b := by
  obtain ⟨he, he'⟩ := available_pair_iff.mp h
  obtain ⟨a, ha⟩ := (delta_returns_iff he).mpr htracked
  obtain ⟨b, hb⟩ := (delta_returns_iff he').mpr htracked'
  exact ⟨a, b, ha, hb⟩

/-- What a metric shows at the end of a path. -/
def shown (measurements : Measurements levels) (name : MetricName) (path : List Key) : Option ℚ :=
  (measurements.get? name).bind fun metric => leaf? levels metric path

theorem shown_of_none {name : MetricName} (h : measurements.get? name = none) (path : List Key) :
    shown measurements name path = none := by
  rw [shown, h, Option.bind_none]

theorem shown_set_self {name : MetricName} {metric : Leveled levels} (path : List Key) :
    shown (measurements.set name metric) name path = leaf? levels metric path := by
  rw [shown, Dict.get?_set_self, Option.bind_some]

theorem shown_congr {measurements' : Measurements levels} {name : MetricName}
    (h : measurements.get? name = measurements'.get? name) (path : List Key) :
    shown measurements name path = shown measurements' name path := by
  rw [shown, shown, h]

/-- What a subsystem gives: no metric that is derived. -/
def Raw (derivedNames : List MetricName) (measurements : Measurements levels) : Prop :=
  ∀ name ∈ derivedNames, measurements.get? name = none

/-- The metrics that are not derived are the same. -/
def Agrees (derivedNames : List MetricName) (measurements measurements' : Measurements levels) :
    Prop :=
  ∀ name ∉ derivedNames, measurements'.get? name = measurements.get? name

namespace Agrees

theorem refl (measurements : Measurements levels) : Agrees derivedNames measurements measurements :=
  fun _ _ => rfl

theorem symm (h : Agrees derivedNames prev prev') : Agrees derivedNames prev' prev :=
  fun name hname => (h name hname).symm

theorem trans {r : Measurements levels} (h : Agrees derivedNames measurements measurements')
    (h' : Agrees derivedNames measurements' r) : Agrees derivedNames measurements r :=
  fun name hname => (h' name hname).trans (h name hname)

/-- The generator sees the same counters after a block. -/
theorem counter (h : Agrees derivedNames measurements measurements') {name : MetricName}
    (hname : name ∉ derivedNames) :
    Derived.counter prev measurements' name = Derived.counter prev measurements name := by
  rw [Derived.counter, Derived.counter, h name hname]

/-- The generator sees the same counters in what it made of the last measurements. -/
theorem counter_before (h : Agrees derivedNames prev prev') {name : MetricName}
    (hname : name ∉ derivedNames) :
    Derived.counter prev' measurements name = Derived.counter prev measurements name := by
  rw [Derived.counter, Derived.counter, h name hname]

end Agrees

end Measurements

/-! ## Runs -/

section Runs

variable {M : Type}

/-- `_get_measurements_with_derived_metrics`, with what was measured last and when. -/
def getMeasurementsWithDerivedMetrics (derive : M → ℚ → M → Except Exc M) (prev : Option (M × ℚ))
    (measurements : M) (now : ℚ) : Except Exc M :=
  match prev with
  | none => pure measurements
  | some (prevMeasurements, prevTs) => derive prevMeasurements (now - prevTs) measurements

/-- The measurements of some calls, each with what the counters gave and the time. -/
def runs (derive : M → ℚ → M → Except Exc M) : Option (M × ℚ) → List (M × ℚ) → Except Exc (List M)
  | _, [] => pure []
  | prev, (measurements, now) :: calls => do
    let result ← getMeasurementsWithDerivedMetrics derive prev measurements now
    let results ← runs derive (some (result, now)) calls
    pure (result :: results)

/-- What the results are of calls that follow a snapshot: the first one is the snapshot itself. -/
def ShowsAll (shows : M → ℚ → M → M → Prop) : Option (M × ℚ) → List (M × ℚ) → List M → Prop
  | _, [], results => results = []
  | _, _ :: _, [] => False
  | none, call :: calls, result :: results =>
    result = call.1 ∧ ShowsAll shows (some call) calls results
  | some prev, call :: calls, result :: results =>
    shows prev.1 (call.2 - prev.2) call.1 result ∧ ShowsAll shows (some call) calls results

/-- What a generator is known by: `Meets` says when it shows what it should, of snapshots that are
`Raw`, and both see of the last measurements only what `Agrees` keeps. -/
structure Derives (derive : M → ℚ → M → Except Exc M) (Raw : M → Prop) (Agrees : M → M → Prop)
    (shows : M → ℚ → M → M → Prop) (Meets : M → ℚ → M → Prop) : Prop where
  iff : ∀ prev timeDelta measurements, 0 ≤ timeDelta → Raw measurements →
    ((∃ r, derive prev timeDelta measurements = .ok r ∧ shows prev timeDelta measurements r) ↔
      Meets prev timeDelta measurements)
  agrees : ∀ prev timeDelta measurements r, shows prev timeDelta measurements r →
    Agrees measurements r
  refl : ∀ measurements, Agrees measurements measurements
  shows_congr : ∀ prev prev' timeDelta measurements r, Agrees prev prev' →
    (shows prev timeDelta measurements r ↔ shows prev' timeDelta measurements r)
  meets_congr : ∀ prev prev' timeDelta measurements, Agrees prev prev' →
    (Meets prev timeDelta measurements ↔ Meets prev' timeDelta measurements)

variable {derive : M → ℚ → M → Except Exc M} {Raw : M → Prop} {Agrees : M → M → Prop}
  {shows : M → ℚ → M → M → Prop} {Meets : M → ℚ → M → Prop}

/-- The calls after a snapshot that was shown as `prev'`. -/
theorem Derives.runs_after (h : Derives derive Raw Agrees shows Meets) {prev : M × ℚ} {prev' : M}
    {calls : List (M × ℚ)} (hprev : Agrees prev.1 prev')
    (hraw : ∀ call ∈ calls, Raw call.1) (htime : (prev :: calls).IsChain fun c c' => c.2 ≤ c'.2) :
    (∃ results, runs derive (some (prev', prev.2)) calls = .ok results ∧
        ShowsAll shows (some prev) calls results) ↔
      (prev :: calls).IsChain fun c c' => Meets c.1 (c'.2 - c.2) c'.1 := by
  induction calls generalizing prev prev' with
  | nil => exact ⟨fun _ => .singleton _, fun _ => ⟨[], rfl, rfl⟩⟩
  | cons call calls ih =>
    obtain ⟨hle, htime⟩ := List.isChain_cons_cons.mp htime
    have hstep := h.iff prev' (call.2 - prev.2) call.1 (sub_nonneg.mpr hle)
      (hraw call List.mem_cons_self)
    have hrest : ∀ c ∈ calls, Raw c.1 := fun c hc => hraw c (.tail _ hc)
    rw [List.isChain_cons_cons, h.meets_congr _ _ _ _ hprev, ← hstep]
    constructor
    · intro hrun
      obtain ⟨results, hruns, hshows⟩ := hrun
      obtain ⟨r, hr, hruns⟩ := except_bind_ok_iff.mp hruns
      obtain ⟨results', hresults, hruns⟩ := except_bind_ok_iff.mp hruns
      cases hruns
      have hshown := (h.shows_congr _ _ _ _ _ hprev).mp hshows.1
      exact ⟨⟨r, hr, hshown⟩,
        (ih (h.agrees _ _ _ _ hshown) hrest htime).mp ⟨results', hresults, hshows.2⟩⟩
    · intro hmeets
      obtain ⟨⟨r, hr, hshown⟩, hchain⟩ := hmeets
      obtain ⟨results, hruns, hshows⟩ := (ih (h.agrees _ _ _ _ hshown) hrest htime).mpr hchain
      refine ⟨r :: results, ?_, (h.shows_congr _ _ _ _ _ hprev).mpr hshown, hshows⟩
      exact except_bind_ok_iff.mpr ⟨r, hr, except_bind_ok_iff.mpr ⟨results, hruns, rfl⟩⟩

/-- A run shows what it should just when every two snapshots in turn meet the condition. -/
theorem Derives.runs_iff (h : Derives derive Raw Agrees shows Meets) {calls : List (M × ℚ)}
    (hraw : ∀ call ∈ calls, Raw call.1) (htime : calls.IsChain fun c c' => c.2 ≤ c'.2) :
    (∃ results, runs derive none calls = .ok results ∧ ShowsAll shows none calls results) ↔
      calls.IsChain fun c c' => Meets c.1 (c'.2 - c.2) c'.1 := by
  cases calls with
  | nil => exact ⟨fun _ => .nil, fun _ => ⟨[], rfl, rfl⟩⟩
  | cons call calls =>
    rw [← h.runs_after (h.refl call.1) (fun c hc => hraw c (.tail _ hc)) htime]
    constructor
    · intro hrun
      obtain ⟨results, hruns, hshows⟩ := hrun
      obtain ⟨r, hr, hruns⟩ := except_bind_ok_iff.mp hruns
      cases hr
      obtain ⟨results', hresults, hruns⟩ := except_bind_ok_iff.mp hruns
      cases hruns
      exact ⟨results', hresults, hshows.2⟩
    · intro hrun
      obtain ⟨results, hruns, hshows⟩ := hrun
      refine ⟨call.1 :: results, ?_, rfl, hshows⟩
      exact except_bind_ok_iff.mpr ⟨call.1, rfl, except_bind_ok_iff.mpr ⟨results, hruns, rfl⟩⟩

end Runs

end Wca.Derived
