import Wca.Py.Exec
import Wca.Py.Dict

/-!
# Operations on levelled metrics

A metric is a number, or a dictionary of metrics with one level less. What it shows is read at the
end of a path of keys (`leaf?`); the operations on levelled metrics are known by what they leave
there, and by the keys that they need (`Covered`).
-/

namespace Wca.Derived

open Py

/-- The exceptions that deriving raises. The last one is a `NameError`. -/
inductive Exc where
  | KeyError
  | ZeroDivisionError
  | UnboundLocalError (name : String)
  deriving DecidableEq

/-- A socket, a PMU, a cpu. -/
abbrev Key := ℤ

/-- A metric with some levels. -/
abbrev Leveled : Nat → Type
  | 0 => ℚ
  | levels + 1 => Dict Key (Leveled levels)

def Leveled.decEq : (levels : Nat) → DecidableEq (Leveled levels)
  | 0 => inferInstanceAs (DecidableEq ℚ)
  | levels + 1 =>
    have := Leveled.decEq levels
    inferInstanceAs (DecidableEq (Dict Key (Leveled levels)))

instance {levels : Nat} : DecidableEq (Leveled levels) := Leveled.decEq levels

/-- The number at the end of a path, if any. -/
def leaf? : (levels : Nat) → Leveled levels → List Key → Option ℚ
  | 0, q, path => if path = [] then some q else none
  | _ + 1, _, [] => none
  | levels + 1, d, k :: path => (Dict.get? d k).bind fun v => leaf? levels v path

/-- Every key of one metric is a key of the other, on every level. -/
def Covered : (levels : Nat) → Leveled levels → Leveled levels → Prop
  | 0, _, _ => True
  | levels + 1, a, b => ∀ k v, Dict.get? a k = some v → ∃ w, Dict.get? b k = some w ∧
    Covered levels v w

theorem Covered.trans {levels : Nat} {a b c : Leveled levels} (hab : Covered levels a b)
    (hbc : Covered levels b c) : Covered levels a c := by
  induction levels with
  | zero => exact trivial
  | succ levels ih =>
    intro k u hu
    obtain ⟨v, hv, huv⟩ := hab k u hu
    obtain ⟨w, hw, hvw⟩ := hbc k v hv
    exact ⟨w, hw, ih huv hvw⟩

theorem Covered.singleton {levels : Nat} {k : Key} {v w : Leveled levels} (h : Covered levels v w) :
    Covered (levels + 1) (Dict.set ∅ k v) (Dict.set ∅ k w) := by
  intro k' u hu
  rw [Dict.get?_set] at hu
  split at hu
  · next hk =>
    cases hu
    exact ⟨w, by rw [hk, Dict.get?_set_self], h⟩
  · cases hu

/-! ## The operations -/

abbrev Operation := ℚ → ℚ → Except Exc ℚ

def sub : Operation := fun a b => .ok (a - b)

def add : Operation := fun a b => .ok (a + b)

def truediv : Operation := fun a b => if b = 0 then .error .ZeroDivisionError else .ok (a / b)

/-- `d[k]` -/
def item {V : Type} {K : Type} [DecidableEq K] (d : Dict K V) (k : K) : Except Exc V :=
  match d.get? k with
  | some v => .ok v
  | none => .error .KeyError

/-- What is left out, where the body of the loop divides by zero. -/
def exceptZeroDivision {α : Type} : Except Exc α → Except Exc (Option α)
  | .ok a => .ok (some a)
  | .error .ZeroDivisionError => .ok none
  | .error e => .error e

/-- `_operation_on_leveled_dicts`, of metrics with a level at least. -/
def operationOnLeveledDicts (operation : Operation) : (levels : Nat) → Leveled (levels + 1) →
    Leveled (levels + 1) → Except Exc (Leveled (levels + 1))
  | 0, a, b => Dict.collectM a fun k (value : ℚ) => exceptZeroDivision do
    let other ← item b k
    operation value other
  | levels + 1, a, b => Dict.comprehendM a fun k value => do
    let other ← item b k
    operationOnLeveledDicts operation levels value other

/-- `_operation_on_leveled_metric`, of a metric with a level at least. -/
def operationOnLeveledMetric (operation : ℚ → Except Exc ℚ) : (levels : Nat) →
    Leveled (levels + 1) → Except Exc (Leveled (levels + 1))
  | 0, d => Dict.comprehendM d fun _ (value : ℚ) => operation value
  | levels + 1, d => Dict.comprehendM d fun _ value =>
    operationOnLeveledMetric operation levels value

theorem item_ok_iff {V K : Type} [DecidableEq K] {d : Dict K V} {k : K} {v : V} :
    item d k = .ok v ↔ d.get? k = some v := by
  rw [item]
  cases d.get? k <;> simp

section Operations

variable {operation : Operation}

/-- The operation divides by zero, or does not raise. -/
def Divides (operation : Operation) : Prop :=
  ∀ x y e, operation x y = .error e → e = .ZeroDivisionError

theorem exceptZeroDivision_operation (h : Divides operation) {x y : ℚ} :
    exceptZeroDivision (operation x y) = .ok (operation x y).toOption := by
  cases hxy : operation x y with
  | ok z => rfl
  | error e =>
    rw [h x y e hxy]
    rfl

/-- The turn of the inner loop. -/
theorem leafTurn (h : Divides operation) {b : Dict Key ℚ} {k : Key} {x : ℚ} {z : Option ℚ} :
    (exceptZeroDivision do
        let other ← item b k
        operation x other) = .ok z ↔
      ∃ y, b.get? k = some y ∧ z = (operation x y).toOption := by
  rw [item]
  cases b.get? k with
  | none => exact ⟨fun h => (nomatch h), fun ⟨_, h, _⟩ => (nomatch h)⟩
  | some y =>
    have hturn : (exceptZeroDivision do
        let other ← (Except.ok y : Except Exc ℚ)
        operation x other) = .ok (operation x y).toOption := exceptZeroDivision_operation h
    rw [hturn, Except.ok.injEq]
    constructor
    · exact fun h => ⟨y, rfl, h.symm⟩
    · intro h
      obtain ⟨y', hy, hz⟩ := h
      cases hy
      exact hz.symm

theorem operation_returns_iff (h : Divides operation) {levels : Nat}
    {a b : Leveled (levels + 1)} :
    (∃ r, operationOnLeveledDicts operation levels a b = .ok r) ↔ Covered (levels + 1) a b := by
  induction levels with
  | zero =>
    rw [operationOnLeveledDicts, Dict.collectM_returns_iff]
    refine forall₂_congr fun k v => forall_congr' fun _ => ?_
    simp only [leafTurn h]
    constructor
    · intro hturn
      obtain ⟨_, y, hy, -⟩ := hturn
      exact ⟨y, hy, trivial⟩
    · intro hkey
      obtain ⟨y, hy, -⟩ := hkey
      exact ⟨_, y, hy, rfl⟩
  | succ levels ih =>
    rw [operationOnLeveledDicts, Dict.comprehendM_returns_iff]
    refine forall₂_congr fun k v => forall_congr' fun _ => ?_
    simp only [except_bind_ok_iff, item_ok_iff]
    constructor
    · intro hturn
      obtain ⟨r, w, hw, hr⟩ := hturn
      exact ⟨w, hw, ih.mp ⟨r, hr⟩⟩
    · intro hkey
      obtain ⟨w, hw, hcovered⟩ := hkey
      obtain ⟨r, hr⟩ := ih.mpr hcovered
      exact ⟨r, w, hw, hr⟩

/-- What the operation leaves at the end of a path. -/
theorem leaf?_operation (h : Divides operation) {levels : Nat} {a b r : Leveled (levels + 1)}
    (hr : operationOnLeveledDicts operation levels a b = .ok r) (path : List Key) :
    leaf? (levels + 1) r path = (leaf? (levels + 1) a path).bind fun x =>
      (leaf? (levels + 1) b path).bind fun y => (operation x y).toOption := by
  induction levels generalizing path with
  | zero =>
    cases path with
    | nil => rfl
    | cons k path =>
      have hturns := Dict.collectM_returns_iff.mp ⟨r, hr⟩
      simp only [leaf?]
      rw [Dict.get?_collectM hr]
      cases hk : Dict.get? a k with
      | none => rfl
      | some x =>
        obtain ⟨z, hz⟩ := hturns k x hk
        obtain ⟨y, hy, hzy⟩ := (leafTurn h).mp hz
        rw [Option.bind_some, hz, hzy, hy, Option.bind_some, Option.bind_some]
        by_cases hpath : path = []
        · simp only [hpath, if_true, Option.bind_some]
          cases operation x y <;> rfl
        · simp only [if_neg hpath]
          cases operation x y <;> rfl
  | succ levels ih =>
    cases path with
    | nil => rfl
    | cons k path =>
      have hturns := Dict.comprehendM_returns_iff.mp ⟨r, hr⟩
      simp only [leaf?]
      rw [Dict.get?_comprehendM hr]
      cases hk : Dict.get? a k with
      | none => rfl
      | some v =>
        obtain ⟨r', hr'⟩ := hturns k v hk
        obtain ⟨w, hw, hop⟩ := except_bind_ok_iff.mp hr'
        rw [Option.bind_some, hr', item_ok_iff.mp hw]
        exact ih hop path

/-- The operation makes no key up. -/
theorem covered_operation {levels : Nat} {a b r : Leveled (levels + 1)}
    (hr : operationOnLeveledDicts operation levels a b = .ok r) : Covered (levels + 1) r a := by
  induction levels with
  | zero =>
    intro k z hz
    rw [Dict.get?_collectM hr] at hz
    obtain ⟨x, hx, -⟩ := Option.bind_eq_some_iff.mp hz
    exact ⟨x, hx, trivial⟩
  | succ levels ih =>
    intro k z hz
    rw [Dict.get?_comprehendM hr] at hz
    obtain ⟨v, hv, hz⟩ := Option.bind_eq_some_iff.mp hz
    obtain ⟨r', hr'⟩ := Dict.comprehendM_returns_iff.mp ⟨r, hr⟩ k v hv
    obtain ⟨w, hw, hop⟩ := except_bind_ok_iff.mp hr'
    rw [hr'] at hz
    cases hz
    exact ⟨v, hv, ih hop⟩

/-- An operation that does not raise keeps every key. -/
theorem covered_of_operation (h : ∀ x y, ∃ z, operation x y = .ok z) {levels : Nat}
    {a b r : Leveled (levels + 1)} (hr : operationOnLeveledDicts operation levels a b = .ok r) :
    Covered (levels + 1) a r := by
  have hdivides : Divides operation := fun x y e he => by
    obtain ⟨z, hz⟩ := h x y
    rw [hz] at he
    cases he
  induction levels with
  | zero =>
    intro k x hx
    obtain ⟨z, hz⟩ := Dict.collectM_returns_iff.mp ⟨r, hr⟩ k x hx
    obtain ⟨y, -, hzy⟩ := (leafTurn hdivides).mp hz
    obtain ⟨z', hz'⟩ := h x y
    refine ⟨z', ?_, trivial⟩
    rw [Dict.get?_collectM hr, hx, Option.bind_some, hz, hzy, hz']
    rfl
  | succ levels ih =>
    intro k v hv
    obtain ⟨r', hr'⟩ := Dict.comprehendM_returns_iff.mp ⟨r, hr⟩ k v hv
    obtain ⟨w, hw, hop⟩ := except_bind_ok_iff.mp hr'
    refine ⟨r', ?_, ih hop⟩
    rw [Dict.get?_comprehendM hr, hv, Option.bind_some, hr']
    rfl

end Operations

section Metric

variable {operation : ℚ → Except Exc ℚ}

theorem metric_returns_iff {levels : Nat} {d : Leveled (levels + 1)} :
    (∃ r, operationOnLeveledMetric operation levels d = .ok r) ↔
      ∀ path q, leaf? (levels + 1) d path = some q → ∃ q', operation q = .ok q' := by
  induction levels with
  | zero =>
    rw [operationOnLeveledMetric, Dict.comprehendM_returns_iff]
    constructor
    · intro h path q hq
      cases path with
      | nil => cases hq
      | cons k path =>
        obtain ⟨x, hx, hpath⟩ := Option.bind_eq_some_iff.mp hq
        rw [leaf?] at hpath
        split at hpath
        · cases hpath
          exact h k q hx
        · cases hpath
    · intro h k q hq
      exact h [k] q (by simp [leaf?, hq])
  | succ levels ih =>
    rw [operationOnLeveledMetric, Dict.comprehendM_returns_iff]
    constructor
    · intro h path q hq
      cases path with
      | nil => cases hq
      | cons k path =>
        obtain ⟨v, hv, hpath⟩ := Option.bind_eq_some_iff.mp hq
        exact ih.mp (h k v hv) path q hpath
    · intro h k v hv
      refine ih.mpr fun path q hq => h (k :: path) q ?_
      rw [leaf?, hv]
      exact hq

theorem leaf?_metric {levels : Nat} {d r : Leveled (levels + 1)}
    (hr : operationOnLeveledMetric operation levels d = .ok r) (path : List Key) :
    leaf? (levels + 1) r path =
      (leaf? (levels + 1) d path).bind fun q => (operation q).toOption := by
  induction levels generalizing path with
  | zero =>
    cases path with
    | nil => rfl
    | cons k path =>
      simp only [leaf?]
      rw [Dict.get?_comprehendM hr]
      cases hk : Dict.get? d k with
      | none => rfl
      | some x =>
        by_cases hpath : path = []
        · simp [hpath]
        · simp [hpath]
  | succ levels ih =>
    cases path with
    | nil => rfl
    | cons k path =>
      have hturns := Dict.comprehendM_returns_iff.mp ⟨r, hr⟩
      simp only [leaf?]
      rw [Dict.get?_comprehendM hr]
      cases hk : Dict.get? d k with
      | none => rfl
      | some v =>
        obtain ⟨r', hr'⟩ := hturns k v hk
        rw [Option.bind_some, hr']
        exact ih hr' path

/-- An operation on a metric keeps its keys. -/
theorem covered_metric {levels : Nat} {d r : Leveled (levels + 1)}
    (hr : operationOnLeveledMetric operation levels d = .ok r) :
    Covered (levels + 1) r d ∧ Covered (levels + 1) d r := by
  induction levels with
  | zero =>
    refine ⟨fun k q hq => ?_, fun k x hx => ?_⟩
    · rw [Dict.get?_comprehendM hr] at hq
      obtain ⟨x, hx, -⟩ := Option.bind_eq_some_iff.mp hq
      exact ⟨x, hx, trivial⟩
    · obtain ⟨q, hq⟩ := Dict.comprehendM_returns_iff.mp ⟨r, hr⟩ k x hx
      refine ⟨q, ?_, trivial⟩
      rw [Dict.get?_comprehendM hr, hx, Option.bind_some, hq]
      rfl
  | succ levels ih =>
    refine ⟨fun k z hz => ?_, fun k v hv => ?_⟩
    · rw [Dict.get?_comprehendM hr] at hz
      obtain ⟨v, hv, hz⟩ := Option.bind_eq_some_iff.mp hz
      obtain ⟨r', hr'⟩ := Dict.comprehendM_returns_iff.mp ⟨r, hr⟩ k v hv
      rw [hr'] at hz
      cases hz
      exact ⟨v, hv, (ih hr').1⟩
    · obtain ⟨r', hr'⟩ := Dict.comprehendM_returns_iff.mp ⟨r, hr⟩ k v hv
      refine ⟨r', ?_, (ih hr').2⟩
      rw [Dict.get?_comprehendM hr, hv, Option.bind_some, hr']
      rfl

end Metric

end Wca.Derived
