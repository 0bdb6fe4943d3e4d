import Wca.Allocators

/-!
# Working set size

`WSS` watches how many bytes a task has referenced since they were last reset. When they grow slowly,
compared with the memory traffic, for so many cycles in a row, they are taken for its working set.
`reports` is what that comes to over whole runs.
-/

namespace Wca

open Py

structure WSS where
  wssResetCycles : Option ℤ
  wssStableCycles : ℤ
  wssMembwThreshold : Option ℚ
  cycle : Nat := 0
  prevReferenced : Option ℤ := none
  prevMembwCounter : Option ℚ := none
  stableCyclesCounter : Nat := 0
  firstStableReferenced : Option ℤ := none
  lastStableWss : Option ℚ := none
  /-- nothing was stable so far -/
  firstWss : Bool := true
  deriving DecidableEq

namespace WSS

/-- A new object. -/
def create (wssResetCycles : Option ℤ) (wssStableCycles : ℤ) (wssMembwThreshold : Option ℚ) : WSS where
  wssResetCycles := wssResetCycles
  wssStableCycles := wssStableCycles
  wssMembwThreshold := wssMembwThreshold

/-- What one call measures, and whether it resets the referenced bytes of the processes. -/
structure Measurements where
  taskWssReferencedBytes : ℤ
  taskWorkingSetSizeBytes : Option ℚ
  shouldReset : Bool
  deriving DecidableEq

/-- The part of the referenced bytes by which they may go down: one in fifty. -/
def maxDecreaseDivider : ℚ := 50

/-- `_check_stability`: update the counter of stable cycles in a row. -/
def checkStability (self : WSS) (wssMembwThreshold : ℚ) (prevReferenced : ℤ) (prevMembwCounter : ℚ)
    (currMembwCounter : ℚ) (currReferenced : ℤ) : WSS :=
  let currMembwDelta := currMembwCounter - prevMembwCounter
  let currReferencedDelta : ℚ := currReferenced - prevReferenced
  let membwThresholdBytes := currMembwDelta * wssMembwThreshold
  if 0 ≤ currReferencedDelta ∨ |currReferencedDelta| < currReferenced / maxDecreaseDivider then
    let currReferencedDelta := if currReferencedDelta < 0 then 0 else currReferencedDelta
    if currReferencedDelta < membwThresholdBytes then
      { self with
        firstStableReferenced :=
          if self.stableCyclesCounter = 0 then some currReferenced else self.firstStableReferenced
        stableCyclesCounter := self.stableCyclesCounter + 1 }
    else { self with stableCyclesCounter := 0 }
  else { self with stableCyclesCounter := 0 }

/-- Check the stability while it is looked for, and remember the measurements for the next call. -/
def track (self : WSS) (wssMembwThreshold currMembwCounter : ℚ) (currReferenced : ℤ) : WSS :=
  let checked :=
    match self.prevReferenced, self.prevMembwCounter with
    | some prevReferenced, some prevMembwCounter =>
      if self.stableCyclesCounter < self.wssStableCycles.natAbs then
        self.checkStability wssMembwThreshold prevReferenced prevMembwCounter currMembwCounter
          currReferenced
      else self
    | _, _ => self
  { checked with
    prevReferenced := some currReferenced
    prevMembwCounter := some currMembwCounter }

/-- The last of so many stable cycles; the counter is moved above the limit to catch it just once.
The answer is whether the referenced bytes are reset for it. -/
def catchStable (currReferenced : ℤ) : EStateM Exc WSS Bool := do
  let self ← get
  if self.stableCyclesCounter = self.wssStableCycles.natAbs then
    match self.firstStableReferenced with
    | none => throw (.builtin (.TypeError "unsupported operand type(s) for /: 'NoneType' and 'int'"))
    | some firstStableReferenced => do
      set { self with
        -- the first one is ignored
        lastStableWss :=
          if self.firstWss then self.lastStableWss
          else some ((firstStableReferenced + currReferenced) / 2)
        firstWss := false
        stableCyclesCounter := self.stableCyclesCounter + 1 }
      pure (self.wssResetCycles = some 0 ∧ 0 < self.wssStableCycles)
  else pure false

/-- The cycle is one of those that reset the referenced bytes anyway. -/
def isResetCycle (self : WSS) : Bool :=
  self.wssResetCycles.any fun wssResetCycles => 0 < wssResetCycles ∧ (self.cycle : ℤ) % wssResetCycles = 0

/-- The end of a call. -/
def finish (currReferenced : ℤ) (lastStableWss : Option ℚ) (shouldReset : Bool) :
    EStateM Exc WSS Measurements := do
  let self ← get
  let shouldReset := shouldReset || self.isResetCycle
  doIf (shouldReset = true) <|
    set { self with stableCyclesCounter := 0, prevReferenced := none }
  pure ⟨currReferenced, lastStableWss, shouldReset⟩

/-- One call, with the bytes that are referenced and the bandwidth counter, if there is one. -/
def getMeasurements (currReferenced : ℤ) (membwCounter : Option ℚ) :
    EStateM Exc WSS Measurements := do
  modify fun self => { self with cycle := self.cycle + 1 }
  let self ← get
  match self.wssMembwThreshold with
  | none => finish currReferenced none false
  | some wssMembwThreshold =>
    if self.wssStableCycles = 0 then finish currReferenced none false
    else
      match membwCounter with
      | none => pure ⟨currReferenced, none, false⟩
      | some currMembwCounter => do
        modify fun self => self.track wssMembwThreshold currMembwCounter currReferenced
        let shouldReset ← catchStable currReferenced
        let self ← get
        finish currReferenced self.lastStableWss shouldReset

/-! ## Runs -/

/-- What a call reads. -/
structure Sample where
  referenced : ℤ
  membwCounter : ℚ

/-- The object after so many calls. -/
def after (self : WSS) (input : ℕ → Sample) : ℕ → WSS
  | 0 => self
  | k + 1 =>
    match (getMeasurements (input k).referenced (some (input k).membwCounter)).run
      (self.after input k) with
    | .ok _ s => s
    | .error _ s => s

/-- What a call of the run measures. -/
def measured (self : WSS) (input : ℕ → Sample) (k : ℕ) : Option Measurements :=
  match (getMeasurements (input k).referenced (some (input k).membwCounter)).run
    (self.after input k) with
  | .ok m _ => some m
  | .error _ _ => none

/-- The working set that a call of the run reports. -/
def reported (self : WSS) (input : ℕ → Sample) (k : ℕ) : Option ℚ :=
  (self.measured input k).bind Measurements.taskWorkingSetSizeBytes

/-- The working set that was reported by the call before, if there was one. -/
def reportedBefore (self : WSS) (input : ℕ → Sample) : ℕ → Option ℚ
  | 0 => none
  | k + 1 => self.reported input k

/-- A call of the run resets the referenced bytes. -/
def Resets (self : WSS) (input : ℕ → Sample) (k : ℕ) : Prop :=
  (self.measured input k).any Measurements.shouldReset = true

/-- The referenced bytes did not drop by a fiftieth, and grew by less than a part of the traffic. -/
def Unchanged (wssMembwThreshold : ℚ) (prev curr : Sample) : Prop :=
  (prev.referenced ≤ curr.referenced ∨
    ((prev.referenced - curr.referenced : ℤ) : ℚ) < curr.referenced / 50) ∧
  ((max (curr.referenced - prev.referenced) 0 : ℤ) : ℚ) <
    wssMembwThreshold * (curr.membwCounter - prev.membwCounter)

/-- A cycle is stable: there are values of the call before, which reset nothing, and they have not
changed much. -/
def Stable (self : WSS) (wssMembwThreshold : ℚ) (input : ℕ → Sample) : ℕ → Prop
  | 0 => False
  | k + 1 => ¬ self.Resets input k ∧ Unchanged wssMembwThreshold (input k) (input (k + 1))

instance (wssMembwThreshold : ℚ) (prev curr : Sample) : Decidable (Unchanged wssMembwThreshold prev curr) :=
  inferInstanceAs (Decidable (_ ∧ _))

instance (self : WSS) (input : ℕ → Sample) (k : ℕ) : Decidable (self.Resets input k) :=
  inferInstanceAs (Decidable (_ = true))

instance (self : WSS) (wssMembwThreshold : ℚ) (input : ℕ → Sample) :
    DecidablePred (self.Stable wssMembwThreshold input)
  | 0 => inferInstanceAs (Decidable False)
  | _ + 1 => inferInstanceAs (Decidable (¬ (_ = true) ∧ _))

/-- A cycle is the last of `n` stable ones in a row, and there are no more in this row. -/
def NthStable (self : WSS) (wssMembwThreshold : ℚ) (input : ℕ → Sample) (n k : ℕ) : Prop :=
  (∀ j < n, self.Stable wssMembwThreshold input (k - j)) ∧
    ¬ self.Stable wssMembwThreshold input (k - n)

/-! ## One call -/

section

variable {self : WSS} {t : ℚ} {prev curr : Sample}

/-- The test of `_check_stability` is `Unchanged`. -/
theorem unchanged_iff : Unchanged t prev curr ↔
    (0 ≤ (curr.referenced - prev.referenced : ℚ) ∨
      |(curr.referenced - prev.referenced : ℚ)| < curr.referenced / maxDecreaseDivider) ∧
    (if (curr.referenced - prev.referenced : ℚ) < 0 then 0 else
      (curr.referenced - prev.referenced : ℚ)) < (curr.membwCounter - prev.membwCounter) * t := by
  have hle : 0 ≤ (curr.referenced - prev.referenced : ℚ) ↔ prev.referenced ≤ curr.referenced := by
    rw [sub_nonneg, Int.cast_le]
  unfold Unchanged maxDecreaseDivider
  rw [hle, mul_comm t]
  by_cases h : prev.referenced ≤ curr.referenced
  · have hmax : max (curr.referenced - prev.referenced) 0 = curr.referenced - prev.referenced :=
      max_eq_left (by omega)
    rw [if_neg (not_lt.mpr (hle.mpr h)), hmax]
    push_cast
    exact and_congr_left fun _ => ⟨fun _ => .inl h, fun _ => .inl h⟩
  · have hmax : max (curr.referenced - prev.referenced) 0 = 0 := max_eq_right (by omega)
    have hneg : (curr.referenced - prev.referenced : ℚ) < 0 := not_le.mp fun hn => h (hle.mp hn)
    rw [if_pos hneg, abs_of_neg hneg, hmax, neg_sub]
    push_cast
    exact Iff.rfl

theorem checkStability_eq :
    self.checkStability t prev.referenced prev.membwCounter curr.membwCounter curr.referenced =
      if Unchanged t prev curr then
        { self with
          firstStableReferenced :=
            if self.stableCyclesCounter = 0 then some curr.referenced else self.firstStableReferenced
          stableCyclesCounter := self.stableCyclesCounter + 1 }
      else { self with stableCyclesCounter := 0 } := by
  simp only [checkStability, unchanged_iff]
  split
  · rename_i h
    simp only [h, true_and]
  · rename_i h
    simp only [h, false_and, if_false]

end

/-- What `catchStable` leaves. -/
def caught (self : WSS) (currReferenced : ℤ) : WSS :=
  if self.stableCyclesCounter = self.wssStableCycles.natAbs then
    { self with
      lastStableWss :=
        if self.firstWss then self.lastStableWss
        else some ((self.firstStableReferenced.getD 0 + currReferenced) / 2)
      firstWss := false
      stableCyclesCounter := self.stableCyclesCounter + 1 }
  else self

/-- The call resets the referenced bytes. -/
def resets (self : WSS) : Bool :=
  (self.stableCyclesCounter = self.wssStableCycles.natAbs ∧ self.wssResetCycles = some 0 ∧
    0 < self.wssStableCycles) || self.isResetCycle

theorem catchStable_run {self : WSS} {currReferenced : ℤ}
    (h : self.stableCyclesCounter = self.wssStableCycles.natAbs → ∃ first,
      self.firstStableReferenced = some first) :
    (catchStable currReferenced).run self =
      .ok (self.stableCyclesCounter = self.wssStableCycles.natAbs ∧ self.wssResetCycles = some 0 ∧
        0 < self.wssStableCycles) (self.caught currReferenced) := by
  unfold catchStable caught
  rw [bind_of_ok (get_run _)]
  by_cases hc : self.stableCyclesCounter = self.wssStableCycles.natAbs
  · obtain ⟨first, hfirst⟩ := h hc
    rw [if_pos hc, if_pos hc]
    simp only [hfirst, bind_of_ok (set_run _ _), pure_run, Option.getD_some, hc, true_and]
  · rw [if_neg hc, if_neg hc, pure_run]
    simp only [hc, false_and, decide_false]

/-- One call, when a stable cycle has a first one. -/
theorem getMeasurements_run {self : WSS} {t : ℚ} {x : Sample} (ht : self.wssMembwThreshold = some t)
    (hn : self.wssStableCycles ≠ 0) {tracked : WSS}
    (htracked : tracked = { self with cycle := self.cycle + 1 }.track t x.membwCounter x.referenced)
    (hfirst : tracked.stableCyclesCounter = tracked.wssStableCycles.natAbs → ∃ first,
      tracked.firstStableReferenced = some first) :
    (getMeasurements x.referenced (some x.membwCounter)).run self =
      .ok ⟨x.referenced, (tracked.caught x.referenced).lastStableWss, tracked.resets⟩
        (if tracked.resets = true then
          { tracked.caught x.referenced with stableCyclesCounter := 0, prevReferenced := none }
        else tracked.caught x.referenced) := by
  unfold getMeasurements
  rw [bind_of_ok (modify_run _ _), bind_of_ok (get_run _)]
  obtain ⟨s, hs⟩ : ∃ s : WSS, s = { self with cycle := self.cycle + 1 } := ⟨_, rfl⟩
  rw [← hs] at htracked ⊢
  have ht' : s.wssMembwThreshold = some t := by rw [hs, ht]
  have hn' : s.wssStableCycles ≠ 0 := by rw [hs]; exact hn
  simp only [ht', hn', if_false]
  rw [bind_of_ok (modify_run _ _), ← htracked, bind_of_ok (catchStable_run hfirst),
    bind_of_ok (get_run _)]
  have hcycle : (tracked.caught x.referenced).isResetCycle = tracked.isResetCycle := by
    unfold caught
    split <;> rfl
  unfold finish
  rw [bind_of_ok (get_run _), hcycle]
  unfold resets
  generalize (_ || tracked.isResetCycle) = r
  cases r <;> rfl

/-! ## Stable cycles in a row -/

section

variable (self : WSS) (t : ℚ) (input : ℕ → Sample)

/-- The number of stable cycles in a row up to a cycle. -/
def streak : ℕ → ℕ
  | 0 => 0
  | k + 1 => if self.Stable t input (k + 1) then streak k + 1 else 0

/-- The number of stable cycles in a row that go on with the next cycle. -/
def streakBefore : ℕ → ℕ
  | 0 => 0
  | k + 1 => if self.Resets input k then 0 else self.streak t input k

/-- The measurements of the call before, if it did not reset. -/
def prevSample : ℕ → Option Sample
  | 0 => none
  | k + 1 => if self.Resets input k then none else some (input k)

/-- Enough stable cycles were counted since the last reset. -/
def CaughtSince (n k : ℕ) : Prop :=
  ∃ j < k, self.streak t input j = n ∧ ∀ i, j ≤ i → i < k → ¬ self.Resets input i

variable {self t input}

theorem stable_iff {k : ℕ} : self.Stable t input k ↔
    ∃ p, self.prevSample input k = some p ∧ Unchanged t p (input k) := by
  cases k with
  | zero => simp [Stable, prevSample]
  | succ k => by_cases h : self.Resets input k <;> simp [Stable, prevSample, h]

theorem streakBefore_of_none {k : ℕ} (h : self.prevSample input k = none) :
    self.streakBefore t input k = 0 := by
  cases k with
  | zero => rfl
  | succ k =>
    by_cases hr : self.Resets input k
    · rw [streakBefore, if_pos hr]
    · rw [prevSample, if_neg hr] at h
      cases h

theorem streak_eq (k : ℕ) : self.streak t input k =
    if self.Stable t input k then self.streakBefore t input k + 1 else 0 := by
  cases k with
  | zero => rfl
  | succ k =>
    rw [streak]
    by_cases h : self.Stable t input (k + 1)
    · rw [if_pos h, if_pos h, streakBefore, if_neg h.1]
    · rw [if_neg h, if_neg h]

theorem nthStable_streak (k : ℕ) : self.NthStable t input (self.streak t input k) k := by
  induction k with
  | zero => exact ⟨fun j hj => absurd hj (Nat.not_lt_zero j), fun h => h⟩
  | succ k ih =>
    rw [streak]
    by_cases h : self.Stable t input (k + 1)
    · rw [if_pos h]
      constructor
      · intro j hj
        cases j with
        | zero => exact h
        | succ j => rw [Nat.add_sub_add_right]; exact ih.1 j (by omega)
      · rw [Nat.add_sub_add_right]
        exact ih.2
    · rw [if_neg h]
      exact ⟨fun j hj => absurd hj (Nat.not_lt_zero j), h⟩

/-- The row that ends at a cycle has one length. -/
theorem nthStable_iff {n k : ℕ} : self.NthStable t input n k ↔ self.streak t input k = n := by
  constructor
  · intro h
    have hs : self.NthStable t input (self.streak t input k) k := nthStable_streak k
    rcases Nat.lt_trichotomy (self.streak t input k) n with hlt | heq | hgt
    · exact absurd (h.1 _ hlt) hs.2
    · exact heq
    · exact absurd (hs.1 _ hgt) h.2
  · rintro rfl
    exact nthStable_streak k

theorem caughtSince_succ {n k : ℕ} : self.CaughtSince t input n (k + 1) ↔
    ¬ self.Resets input k ∧ (self.CaughtSince t input n k ∨ self.streak t input k = n) := by
  constructor
  · rintro ⟨j, hj, hjn, hr⟩
    refine ⟨hr k (by omega) (by omega), ?_⟩
    by_cases he : j = k
    · subst he
      exact .inr hjn
    · exact .inl ⟨j, by omega, hjn, fun i hi hik => hr i hi (by omega)⟩
  · rintro ⟨hk, ⟨j, hj, hjn, hr⟩ | hn⟩
    · refine ⟨j, by omega, hjn, fun i hi hik => ?_⟩
      by_cases he : i = k
      · rw [he]
        exact hk
      · exact hr i hi (by omega)
    · refine ⟨k, by omega, hn, fun i hi hik => ?_⟩
      rw [show i = k by omega]
      exact hk

end

/-! ## The invariant of a run -/

/-- What holds of the object before a call of the run. -/
structure Inv (wss : WSS) (t : ℚ) (input : ℕ → Sample) (k : ℕ) (s : WSS) : Prop where
  wssStableCycles : s.wssStableCycles = wss.wssStableCycles
  wssMembwThreshold : s.wssMembwThreshold = some t
  prevReferenced : s.prevReferenced = (wss.prevSample input k).map Sample.referenced
  prevMembwCounter : ∀ p, wss.prevSample input k = some p → s.prevMembwCounter = some p.membwCounter
  counter : s.stableCyclesCounter = wss.wssStableCycles.natAbs + 1 ∧
      wss.CaughtSince t input wss.wssStableCycles.natAbs k ∨
    s.stableCyclesCounter = wss.streakBefore t input k ∧
      s.stableCyclesCounter < wss.wssStableCycles.natAbs ∧
      ¬ wss.CaughtSince t input wss.wssStableCycles.natAbs k
  first : 0 < s.stableCyclesCounter → s.stableCyclesCounter < wss.wssStableCycles.natAbs →
    s.firstStableReferenced = some (input (k - s.stableCyclesCounter)).referenced
  firstWss : s.firstWss = true ↔ ∀ j < k, wss.streak t input j ≠ wss.wssStableCycles.natAbs
  lastStableWss : s.firstWss = true → s.lastStableWss = none

section

variable {self s : WSS} {t : ℚ} {input : ℕ → Sample} {k : ℕ}

theorem Inv.init (ht : self.wssMembwThreshold = some t) (hn : self.wssStableCycles ≠ 0)
    (hself : self = create self.wssResetCycles self.wssStableCycles self.wssMembwThreshold) :
    Inv self t input 0 self where
  wssStableCycles := rfl
  wssMembwThreshold := ht
  prevReferenced := by rw [hself]; rfl
  prevMembwCounter := fun p hp => (nomatch hp)
  counter := by
    refine .inr ⟨by rw [hself]; rfl, ?_, fun ⟨j, hj, _⟩ => absurd hj (Nat.not_lt_zero j)⟩
    rw [hself]
    exact Int.natAbs_pos.mpr hn
  first := fun h _ => by rw [hself] at h; exact absurd h (Nat.not_lt_zero 0)
  firstWss := by
    rw [hself]
    exact ⟨fun _ j hj => absurd hj (Nat.not_lt_zero j), fun _ => rfl⟩
  lastStableWss := fun _ => by rw [hself]; rfl

/-- The number of cycles does not matter. -/
theorem Inv.nextCycle (h : Inv self t input k s) : Inv self t input k { s with cycle := s.cycle + 1 } :=
  ⟨h.1, h.2, h.3, h.4, h.5, h.6, h.7, h.8⟩

/-- The object once a call has checked the stability. -/
structure Tracked (wss : WSS) (t : ℚ) (input : ℕ → Sample) (k : ℕ) (s tracked : WSS) : Prop where
  wssStableCycles : tracked.wssStableCycles = wss.wssStableCycles
  wssMembwThreshold : tracked.wssMembwThreshold = some t
  prevReferenced : tracked.prevReferenced = some (input k).referenced
  prevMembwCounter : tracked.prevMembwCounter = some (input k).membwCounter
  counter : tracked.stableCyclesCounter = wss.wssStableCycles.natAbs + 1 ∧
      wss.CaughtSince t input wss.wssStableCycles.natAbs k ∨
    tracked.stableCyclesCounter = wss.streak t input k ∧
      tracked.stableCyclesCounter ≤ wss.wssStableCycles.natAbs ∧
      ¬ wss.CaughtSince t input wss.wssStableCycles.natAbs k
  first : 0 < tracked.stableCyclesCounter →
    tracked.stableCyclesCounter ≤ wss.wssStableCycles.natAbs →
    tracked.firstStableReferenced = some (input (k + 1 - tracked.stableCyclesCounter)).referenced
  firstWss : tracked.firstWss = s.firstWss
  lastStableWss : tracked.lastStableWss = s.lastStableWss

theorem Inv.tracked (h : Inv self t input k s) : Tracked self t input k s
    (s.track t (input k).membwCounter (input k).referenced) := by
  have hstreak : self.streak t input k = _ := streak_eq k
  have hcounter := h.counter
  have hfirst := h.first
  unfold track
  cases hp : self.prevSample input k with
  | none =>
    have hprev : s.prevReferenced = none := by rw [h.prevReferenced, hp]; rfl
    have hbefore : self.streakBefore t input k = 0 := streakBefore_of_none hp
    have hstable : ¬ self.Stable t input k := fun hc => by
      obtain ⟨p, hp', -⟩ := stable_iff.mp hc
      rw [hp] at hp'
      cases hp'
    rw [if_neg hstable] at hstreak
    simp only [hprev]
    refine ⟨h.wssStableCycles, h.wssMembwThreshold, rfl, rfl, ?_, fun hpos hle => ?_, rfl, rfl⟩
    · rcases hcounter with hc | ⟨hc, hlt, hnone⟩
      · exact .inl hc
      · exact .inr ⟨hc.trans (hbefore.trans hstreak.symm), hlt.le, hnone⟩
    · simp only at hpos hle
      omega
  | some p =>
    have hprev : s.prevReferenced = some p.referenced := by rw [h.prevReferenced, hp]; rfl
    have hlimit : s.wssStableCycles.natAbs = self.wssStableCycles.natAbs := by rw [h.wssStableCycles]
    simp only [hprev, h.prevMembwCounter p hp, hlimit]
    by_cases hlt : s.stableCyclesCounter < self.wssStableCycles.natAbs
    · rw [if_pos hlt, checkStability_eq]
      obtain ⟨hc, -, hnone⟩ := hcounter.resolve_left fun hc => by omega
      by_cases hu : Unchanged t p (input k)
      · have hstable : self.Stable t input k := stable_iff.mpr ⟨p, hp, hu⟩
        rw [if_pos hstable] at hstreak
        rw [if_pos hu]
        refine ⟨h.wssStableCycles, h.wssMembwThreshold, rfl, rfl, .inr ⟨?_, ?_, hnone⟩, fun _ _ => ?_,
          rfl, rfl⟩
        · simp only
          omega
        · exact hlt
        · simp only [Nat.add_sub_add_right]
          split
          · rename_i hzero
            rw [hzero]
            rfl
          · exact hfirst (by omega) hlt
      · have hstable : ¬ self.Stable t input k := fun hc => by
          obtain ⟨p', hp', hu'⟩ := stable_iff.mp hc
          rw [hp] at hp'
          cases hp'
          exact hu hu'
        rw [if_neg hstable] at hstreak
        rw [if_neg hu]
        refine ⟨h.wssStableCycles, h.wssMembwThreshold, rfl, rfl, .inr ⟨hstreak.symm, ?_, hnone⟩,
          fun hpos => absurd hpos (Nat.not_lt_zero 0), rfl, rfl⟩
        exact Nat.zero_le _
    · rw [if_neg hlt]
      obtain ⟨hc, hcaught⟩ := hcounter.resolve_right fun hc => hlt hc.2.1
      refine ⟨h.wssStableCycles, h.wssMembwThreshold, rfl, rfl, .inl ⟨hc, hcaught⟩, fun _ hle => ?_, rfl,
        rfl⟩
      simp only at hle
      omega

/-- The cycle is the last of a row that is counted for the first time since the last reset. -/
def Catches (self : WSS) (t : ℚ) (input : ℕ → Sample) (k : ℕ) : Prop :=
  self.streak t input k = self.wssStableCycles.natAbs ∧
    ¬ self.CaughtSince t input self.wssStableCycles.natAbs k

/-- The middle between the bytes at the first and at the last of so many cycles. -/
def average (input : ℕ → Sample) (n k : ℕ) : ℚ :=
  ((input (k + 1 - n)).referenced + (input k).referenced) / 2

theorem Tracked.catches_iff {tracked : WSS} (h : Tracked self t input k s tracked) :
    tracked.stableCyclesCounter = tracked.wssStableCycles.natAbs ↔ self.Catches t input k := by
  rw [h.wssStableCycles]
  constructor
  · intro he
    obtain ⟨hc, -, hnone⟩ := h.counter.resolve_left fun hc => by omega
    exact ⟨hc.symm.trans he, hnone⟩
  · rintro ⟨hstreak, hnone⟩
    obtain ⟨hc, -⟩ := h.counter.resolve_left fun hc => hnone hc.2
    exact hc.trans hstreak

/-- The object once a call has caught the last of a row of stable cycles. -/
structure Caught (wss : WSS) (t : ℚ) (input : ℕ → Sample) (k : ℕ) (s caught : WSS) : Prop where
  wssStableCycles : caught.wssStableCycles = wss.wssStableCycles
  wssMembwThreshold : caught.wssMembwThreshold = some t
  prevReferenced : caught.prevReferenced = some (input k).referenced
  prevMembwCounter : caught.prevMembwCounter = some (input k).membwCounter
  counter : caught.stableCyclesCounter = wss.wssStableCycles.natAbs + 1 ∧
      (wss.CaughtSince t input wss.wssStableCycles.natAbs k ∨
        wss.streak t input k = wss.wssStableCycles.natAbs) ∨
    caught.stableCyclesCounter = wss.streak t input k ∧
      caught.stableCyclesCounter < wss.wssStableCycles.natAbs ∧
      ¬ wss.CaughtSince t input wss.wssStableCycles.natAbs k
  first : 0 < caught.stableCyclesCounter → caught.stableCyclesCounter < wss.wssStableCycles.natAbs →
    caught.firstStableReferenced = some (input (k + 1 - caught.stableCyclesCounter)).referenced
  firstWss : caught.firstWss = true ↔ s.firstWss = true ∧ ¬ wss.Catches t input k
  average : wss.Catches t input k → s.firstWss = false →
    caught.lastStableWss = some (average input wss.wssStableCycles.natAbs k)
  lastStableWss : ¬ (wss.Catches t input k ∧ s.firstWss = false) →
    caught.lastStableWss = s.lastStableWss

theorem Tracked.caught {tracked : WSS} (h : Tracked self t input k s tracked)
    (hn : self.wssStableCycles ≠ 0) : Caught self t input k s (tracked.caught (input k).referenced) := by
  have hpos : 0 < self.wssStableCycles.natAbs := Int.natAbs_pos.mpr hn
  have hcatches := h.catches_iff
  have hlimit : tracked.wssStableCycles.natAbs = self.wssStableCycles.natAbs := by rw [h.wssStableCycles]
  rw [hlimit] at hcatches
  unfold WSS.caught
  rw [hlimit]
  by_cases hc : tracked.stableCyclesCounter = self.wssStableCycles.natAbs
  · have hcatch := hcatches.mp hc
    rw [if_pos hc]
    refine ⟨h.wssStableCycles, h.wssMembwThreshold, h.prevReferenced, h.prevMembwCounter,
      .inl ⟨congrArg (· + 1) hc, .inr hcatch.1⟩, fun _ hlt => ?_, ?_, fun _ hfalse => ?_, fun hnot => ?_⟩
    · simp only at hlt
      omega
    · exact ⟨fun hf => (nomatch hf), fun hf => absurd hcatch hf.2⟩
    · have hfirst := h.first (by omega) (by omega)
      rw [hc] at hfirst
      simp only [h.firstWss, hfalse, hfirst]
      rfl
    · have hfirst : s.firstWss = true := Bool.not_eq_false _ ▸ fun hf => hnot ⟨hcatch, hf⟩
      simp only [h.firstWss, hfirst, if_true]
      exact h.lastStableWss
  · have hcatch : ¬ self.Catches t input k := fun hcatch => hc (hcatches.mpr hcatch)
    rw [if_neg hc]
    refine ⟨h.wssStableCycles, h.wssMembwThreshold, h.prevReferenced, h.prevMembwCounter, ?_,
      fun h0 hlt => h.first h0 hlt.le, ?_, fun hf => absurd hf hcatch, fun _ => h.lastStableWss⟩
    · rcases h.counter with ⟨he, hcaught⟩ | ⟨he, hle, hnone⟩
      · exact .inl ⟨he, .inl hcaught⟩
      · exact .inr ⟨he, lt_of_le_of_ne hle hc, hnone⟩
    · rw [h.firstWss]
      exact ⟨fun hf => ⟨hf, hcatch⟩, fun hf => hf.1⟩

/-- No row was counted in full before the object caught one. -/
theorem Inv.firstWss_succ (h : Inv self t input k s) :
    (s.firstWss = true ∧ ¬ self.Catches t input k) ↔
      ∀ j < k + 1, self.streak t input j ≠ self.wssStableCycles.natAbs := by
  rw [h.firstWss]
  constructor
  · rintro ⟨hall, hcatch⟩ j hj
    rcases Nat.lt_succ_iff_lt_or_eq.mp hj with hj | rfl
    · exact hall j hj
    · exact fun he => hcatch ⟨he, fun ⟨i, hi, hin, _⟩ => hall i hi hin⟩
  · intro hall
    exact ⟨fun j hj => hall j (by omega), fun hcatch => hall k (by omega) hcatch.1⟩

/-- One call of a run: what it reports, and what holds after it. -/
theorem Inv.step (h : Inv self t input k s) (hn : self.wssStableCycles ≠ 0)
    (hs : self.after input k = s) :
    ∃ m s', (getMeasurements (input k).referenced (some (input k).membwCounter)).run s = .ok m s' ∧
      m.taskWorkingSetSizeBytes = s'.lastStableWss ∧
      (self.Catches t input k → s.firstWss = false →
        s'.lastStableWss = some (average input self.wssStableCycles.natAbs k)) ∧
      (¬ (self.Catches t input k ∧ s.firstWss = false) → s'.lastStableWss = s.lastStableWss) ∧
      Inv self t input (k + 1) s' := by
  have htracked := h.nextCycle.tracked
  have hpos : 0 < self.wssStableCycles.natAbs := Int.natAbs_pos.mpr hn
  obtain ⟨tracked, he⟩ : ∃ tracked, tracked =
    { s with cycle := s.cycle + 1 }.track t (input k).membwCounter (input k).referenced := ⟨_, rfl⟩
  rw [← he] at htracked
  have hfirst : tracked.stableCyclesCounter = tracked.wssStableCycles.natAbs → ∃ first,
      tracked.firstStableReferenced = some first := by
    intro hc
    rw [htracked.wssStableCycles] at hc
    exact ⟨_, htracked.first (by omega) (by omega)⟩
  have hrun := getMeasurements_run h.wssMembwThreshold (h.wssStableCycles ▸ hn) he hfirst
  have hresets : self.Resets input k ↔ tracked.resets = true := by
    unfold Resets measured
    rw [hs, hrun]
    simp
  have hcaught := htracked.caught hn
  generalize tracked.caught (input k).referenced = caught at hrun hcaught
  have hlast : caught.lastStableWss =
      (if tracked.resets = true then { caught with stableCyclesCounter := 0, prevReferenced := none }
        else caught).lastStableWss := by
    split <;> rfl
  refine ⟨_, _, hrun, hlast, fun hc hf => hlast.symm.trans (hcaught.average hc hf),
    fun hc => hlast.symm.trans (hcaught.lastStableWss hc), ?_⟩
  have hfirstWss := hcaught.firstWss.trans h.firstWss_succ
  have hnone : caught.firstWss = true → caught.lastStableWss = none := by
    intro hf
    obtain ⟨hf, hc⟩ := hcaught.firstWss.mp hf
    rw [hcaught.lastStableWss fun hc' => hc hc'.1, h.lastStableWss hf]
  by_cases hr : tracked.resets = true
  · have hreset := hresets.mpr hr
    rw [if_pos hr]
    refine ⟨hcaught.wssStableCycles, hcaught.wssMembwThreshold, ?_, fun p hp => ?_,
      .inr ⟨?_, hpos, fun hc => (caughtSince_succ.mp hc).1 hreset⟩, fun h0 => absurd h0 (Nat.lt_irrefl 0),
      hfirstWss, hnone⟩
    · rw [prevSample, if_pos hreset]
      rfl
    · rw [prevSample, if_pos hreset] at hp
      cases hp
    · rw [streakBefore, if_pos hreset]
  · have hreset : ¬ self.Resets input k := fun hc => hr (hresets.mp hc)
    rw [if_neg hr]
    refine ⟨hcaught.wssStableCycles, hcaught.wssMembwThreshold, ?_, fun p hp => ?_, ?_, hcaught.first,
      hfirstWss, hnone⟩
    · rw [prevSample, if_neg hreset]
      exact hcaught.prevReferenced
    · rw [prevSample, if_neg hreset] at hp
      cases hp
      exact hcaught.prevMembwCounter
    · rw [caughtSince_succ, streakBefore, if_neg hreset]
      rcases hcaught.counter with ⟨hc, hor⟩ | ⟨hc, hlt, hnot⟩
      · exact .inl ⟨hc, hreset, hor⟩
      · refine .inr ⟨hc, hlt, fun hor => ?_⟩
        rcases hor.2 with hsince | hstreak
        · exact hnot hsince
        · omega

/-- The invariant holds throughout a run, and no call raises. -/
theorem Inv.run (ht : self.wssMembwThreshold = some t) (hn : self.wssStableCycles ≠ 0)
    (hself : self = create self.wssResetCycles self.wssStableCycles self.wssMembwThreshold) (k : ℕ) :
    Inv self t input k (self.after input k) := by
  induction k with
  | zero => exact .init ht hn hself
  | succ k ih =>
    obtain ⟨m, s', hrun, -, -, -, hinv⟩ := ih.step hn rfl
    rw [after, hrun]
    exact hinv

theorem catches_iff : self.Catches t input k ↔
    self.NthStable t input self.wssStableCycles.natAbs k ∧
      ∀ j < k, self.NthStable t input self.wssStableCycles.natAbs j →
        ∃ i, j ≤ i ∧ i < k ∧ self.Resets input i := by
  simp only [Catches, CaughtSince, nthStable_iff]
  refine and_congr_right fun _ => ⟨fun h j hj hs => ?_, fun h ⟨j, hj, hs, hr⟩ => ?_⟩
  · by_contra hc
    exact h ⟨j, hj, hs, fun i hi hik hr => hc ⟨i, hi, hik, hr⟩⟩
  · obtain ⟨i, hi, hik, hir⟩ := h j hj hs
    exact hr i hi hik hir

/-- What a call of a run reports, and what was reported before it. -/
theorem reported_eq (ht : self.wssMembwThreshold = some t) (hn : self.wssStableCycles ≠ 0)
    (hself : self = create self.wssResetCycles self.wssStableCycles self.wssMembwThreshold) (k : ℕ) :
    (∃ m, self.measured input k = some m) ∧
      self.reported input k = (self.after input (k + 1)).lastStableWss ∧
      self.reportedBefore input k = (self.after input k).lastStableWss := by
  have hcall : ∀ k, ∃ m, self.measured input k = some m ∧
      self.reported input k = (self.after input (k + 1)).lastStableWss := by
    intro k
    have hinv : Inv self t input k (self.after input k) := .run ht hn hself k
    obtain ⟨m, s', hrun, hm, -⟩ := hinv.step hn rfl
    have hmeasured : self.measured input k = some m := by rw [measured, hrun]
    refine ⟨m, hmeasured, ?_⟩
    rw [reported, hmeasured, after, hrun]
    exact hm
  obtain ⟨m, hm, hreported⟩ := hcall k
  refine ⟨⟨m, hm⟩, hreported, ?_⟩
  cases k with
  | zero => rw [reportedBefore, after, hself]; rfl
  | succ k =>
    obtain ⟨-, -, hbefore⟩ := hcall k
    exact hbefore

end

/-- Constant referenced bytes, and a counter that goes up by a million. -/
def steady (k : ℕ) : Sample := ⟨15360000, 1234567 + 1000000 * k⟩

end WSS

end Wca
