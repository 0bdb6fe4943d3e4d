import Wca.Allocators

/-!
# Lines of a schemata file

The functions of `resctrl_allocations` on texts: the parser of a line, the comparison of two lines
and the two validators.
-/

namespace Wca

open Py

/-- A line without its resource: from domain ids to values, both as written. -/
abbrev Row := Dict String String

/-- One `domain=value` item of a line. -/
def parseDomain (domains : Row) (domainWithValue : String) : Except Exn Row :=
  if domainWithValue = "" then .error (.ValueError "domain cannot be empty")
  else if '=' ∉ domainWithValue.toList then .error (.ValueError "Value separator is missing \"=\"!")
  else
    let domainId := Str.beforeFirst '=' domainWithValue
    let value := Str.afterFirst '=' domainWithValue
    if domainId = "" then .error (.ValueError "domain_id cannot be empty!")
    else if value = "" then .error (.ValueError "value cannot be empty!")
    else if domainId ∈ domains then .error (.ValueError "Conflicting domain id found!")
    else .ok (domains.set domainId value)

def parseSchemataFileRow (line : String) : Except Exn Row :=
  if line = "" then .ok ∅
  else (Str.split ';' (Str.afterFirst ':' line)).foldlM parseDomain ∅

/-- The equality of values inside `_is_rdt_suballocation_changed`. -/
def isEqual (first second : String) : Bool :=
  Str.lstrip [' ', '0'] first = Str.lstrip [' ', '0'] second

def isRdtSuballocationChanged (current new : Option String) : Except Exc Bool :=
  match current, new with
  | _, none => .ok false
  | none, some _ => .error (.builtin (.AssertionError ""))
  | some current, some new => do
    let currentDomains ← parseSchemataFileRow current
    let newDomains ← parseSchemataFileRow new
    assert (∀ domain ∈ newDomains.keys, domain ∈ currentDomains.keys)
      "Assume that new allocations domain is subset of current allocations domain."
    pure (newDomains.items.any fun p =>
      (currentDomains.get? p.1).any fun value => !isEqual value p.2)

/-! ### The comparison of two lines -/

/-- A line that can be parsed, or none. -/
def WellFormedLine (line : Option String) : Prop :=
  ∀ l, line = some l → ∃ row, parseSchemataFileRow l = .ok row

/-- The new line is given only where there is a current one, and for domains it has. -/
def Covers (current new : Option String) : Prop :=
  ∀ n, new = some n → ∃ c, current = some c ∧ ∀ rc rn, parseSchemataFileRow c = .ok rc →
    parseSchemataFileRow n = .ok rn → ∀ domain ∈ rn.keys, domain ∈ rc.keys

/-- Some domain of the new line has another value in the current one. -/
def LineDiffers (current new : Option String) : Prop :=
  ∃ c n rc rn domain value newValue, current = some c ∧ new = some n ∧
    parseSchemataFileRow c = .ok rc ∧ parseSchemataFileRow n = .ok rn ∧
    rc.get? domain = some value ∧ rn.get? domain = some newValue ∧ isEqual value newValue = false

@[simp] theorem isEqual_self (value : String) : isEqual value value = true := decide_eq_true rfl

@[simp] theorem isRdtSuballocationChanged_none (current : Option String) :
    isRdtSuballocationChanged current none = .ok false := by
  cases current <;> rfl

theorem isRdtSuballocationChanged_some {c n : String} {rc rn : Row}
    (hc : parseSchemataFileRow c = .ok rc) (hn : parseSchemataFileRow n = .ok rn)
    (hsub : ∀ domain ∈ rn.keys, domain ∈ rc.keys) :
    isRdtSuballocationChanged (some c) (some n) =
      .ok (rn.items.any fun p => (rc.get? p.1).any fun value => !isEqual value p.2) := by
  simp only [isRdtSuballocationChanged, hc, hn, liftM_ok, except_ok_bind, assert_of hsub, except_pure]

/-- The comparison of two lines that can be compared is `LineDiffers`. -/
theorem isRdtSuballocationChanged_of_covers {current new : Option String}
    (hc : WellFormedLine current) (hn : WellFormedLine new) (h : Covers current new) :
    ∃ b, isRdtSuballocationChanged current new = .ok b ∧ (b = true ↔ LineDiffers current new) := by
  cases new with
  | none =>
    refine ⟨false, by simp, by simp, ?_⟩
    rintro ⟨_, _, _, _, _, _, _, _, hnew, _⟩
    cases hnew
  | some n =>
    obtain ⟨c, rfl, hsub⟩ := h n rfl
    obtain ⟨rc, hrc⟩ := hc c rfl
    obtain ⟨rn, hrn⟩ := hn n rfl
    refine ⟨_, isRdtSuballocationChanged_some hrc hrn (hsub rc rn hrc hrn), ?_⟩
    rw [List.any_eq_true]
    constructor
    · rintro ⟨⟨domain, newValue⟩, hmem, hany⟩
      rw [Option.any_eq_true] at hany
      obtain ⟨value, hget, hne⟩ := hany
      exact ⟨c, n, rc, rn, domain, value, newValue, rfl, rfl, hrc, hrn, hget,
        Dict.get?_eq_some_iff.mpr hmem, by simpa using hne⟩
    · rintro ⟨c', n', rc', rn', domain, value, newValue, hc', hn', hrc', hrn', hget, hmem, hne⟩
      cases hc'
      cases hn'
      rw [hrc] at hrc'
      rw [hrn] at hrn'
      cases hrc'
      cases hrn'
      refine ⟨(domain, newValue), Dict.get?_eq_some_iff.mp hmem, ?_⟩
      rw [Option.any_eq_true]
      exact ⟨value, hget, by simpa using hne⟩

theorem covers_self (line : Option String) : Covers line line := by
  intro n hn
  refine ⟨n, hn, fun rc rn hrc hrn domain hd => ?_⟩
  rw [hrc] at hrn
  cases hrn
  exact hd

theorem not_lineDiffers_self (line : Option String) : ¬ LineDiffers line line := by
  rintro ⟨c, n, rc, rn, domain, value, newValue, hc, hn, hrc, hrn, hv, hnv, hne⟩
  rw [hc] at hn
  cases hn
  rw [hrc] at hrn
  cases hrn
  rw [hv] at hnv
  cases hnv
  rw [isEqual_self] at hne
  cases hne

/-! ### The validators -/

/-- The check of one domain id against the sockets. -/
def validateDomain (platformSockets : Nat) (domain : String) : Except Exc Unit :=
  match Str.int 10 domain with
  | .ok domainInt =>
    if 0 ≤ domainInt ∧ domainInt < platformSockets then .ok ()
    else invalid (.domainOutOfRange domainInt platformSockets)
  | .error e => invalid (.domainNonNumeric domain e)

def validateDomains (domains : List String) (platformSockets : Nat) : Except Exc Unit :=
  forM domains (validateDomain platformSockets)

/-- `format(n, 'b')` without its sign, most significant bit first. -/
def bits (n : ℤ) : List Bool := (Nat.toDigits 2 n.natAbs).map (· = '1')

/-- The loop of `check_cbm_mask` over the bits: the number of ones so far, whether a series of ones
is finished, and the previous bit. -/
def countSeries (s : Nat × Bool × Bool) (bit : Bool) : Except Exc (Nat × Bool × Bool) :=
  let (numberOfCbmBits, seriesOfOnesFinished, previous) := s
  if bit then
    if seriesOfOnesFinished then invalid .maskWithGap
    else .ok (numberOfCbmBits + 1, seriesOfOnesFinished, true)
  else .ok (numberOfCbmBits, seriesOfOnesFinished || previous, false)

def checkCbmMask (mask cbmMask minCbmBits : String) : Except Exc Unit := do
  let mask ← Str.int 16 mask
  let cbmMask ← Str.int 16 cbmMask
  doIf (mask > cbmMask) (invalid .maskTooBig)
  let (numberOfCbmBits, _, _) ← (bits mask).foldlM countSeries (0, false, false)
  let minCbmBits ← Str.int 10 minCbmBits
  doIf ((numberOfCbmBits : ℤ) < minCbmBits) (invalid (.maskTooFewBits numberOfCbmBits minCbmBits))

def validateL3String (l3 : String) (platformSockets : Nat) (rdtCbmMask rdtMinCbmBits : Option String) :
    Except Exc Unit :=
  match rdtCbmMask, rdtMinCbmBits with
  | some rdtCbmMask, some rdtMinCbmBits => do
    doIf (¬ Str.startsWith "L3:" l3) (invalid (.l3Prefix l3))
    let domains ← parseSchemataFileRow l3
    validateDomains domains.keys platformSockets
    forM domains.values fun maskValue => checkCbmMask maskValue rdtCbmMask rdtMinCbmBits
  | _, _ => .error (.builtin (.AssertionError ""))

/-- The value rounded up to the granulation. -/
def normalizeMbValue (mbValue mbMinBandwidth mbBandwidthGran : ℤ) : Except Exc ℤ :=
  if mbValue < mbMinBandwidth then invalid (.mbTooSmall mbMinBandwidth)
  else if mbBandwidthGran > 0 then .ok (⌈(mbValue : ℚ) / mbBandwidthGran⌉ * mbBandwidthGran)
  else .ok mbValue

/-- One domain of an MB line with its value normalized. -/
def normalizeMbDomain (mbMinBandwidth mbBandwidthGran : ℤ) (domain value : String) :
    Except Exc String := do
  let mbValue ← (Str.int 10 value).mapError fun _ => Exc.InvalidAllocations (.mbNotInteger value)
  let normalized ← normalizeMbValue mbValue mbMinBandwidth mbBandwidthGran
  pure (domain ++ "=" ++ toString normalized)

def normalizeMbString (mb : String) (platformSockets : Nat)
    (mbMinBandwidth mbBandwidthGran : Option ℤ) : Except Exc String :=
  match mbMinBandwidth, mbBandwidthGran with
  | some mbMinBandwidth, some mbBandwidthGran => do
    doIf (¬ Str.startsWith "MB:" mb) (invalid (.mbPrefix mb))
    let domains ← parseSchemataFileRow mb
    validateDomains domains.keys platformSockets
    let items ← domains.items.mapM fun p => normalizeMbDomain mbMinBandwidth mbBandwidthGran p.1 p.2
    pure ("MB:" ++ Str.join ';' items)
  | _, _ => .error (.builtin (.AssertionError ""))

end Wca
