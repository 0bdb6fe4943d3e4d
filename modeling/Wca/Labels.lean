import Mathlib.Data.Bool.AllAny
import Mathlib.Data.Set.Function
import Mathlib.Data.Set.Pairwise.Basic
import Wca.Storage

/-!
# Names of labels

The labels of a pod and those of a Mesos task become labels of metrics. What is made of their keys is
accepted by the storage, and no two keys become one, just when no key begins with a digit and no two
are alike, and, for Mesos, when what is left of a key is a name but for its dots
(`labels_storable_iff`).
-/

namespace Wca

open Py

/-! ## The two sanitizers -/

namespace Kubernetes

/-- `_sanitize_label`. -/
def sanitizeLabel (labelKey : String) : String :=
  Str.replace '/' "__" (Str.replace '-' "_" (Str.replace '.' "_" labelKey))

end Kubernetes

namespace Mesos

def MESOS_LABELS_PREFIXES_TO_DROP : List String := ["org.apache.", "aurora.metadata."]

/-- The loop over the unwanted prefixes. -/
def dropPrefixes (labelKey : String) : String :=
  MESOS_LABELS_PREFIXES_TO_DROP.foldl (fun labelKey unwantedPrefix =>
    if Str.startsWith unwantedPrefix labelKey then Str.remove unwantedPrefix labelKey
    else labelKey) labelKey

def sanitizeLabel (labelKey : String) : String := Str.replace '.' "_" (dropPrefixes labelKey)

end Mesos

/-! ## Keys -/

def isAlnum (c : Char) : Bool := isAsciiLetter c || c.isDigit

def isLowerAlnum (c : Char) : Bool := ('a' ≤ c && c ≤ 'z') || c.isDigit

/-- The characters of keys. -/
def isKeyChar (c : Char) : Bool := isAlnum c || c ∈ ['.', '_', '-', '/']

/-- Not empty, with characters of one kind at both ends. -/
def EndsIn (p : Char → Bool) (cs : List Char) : Prop :=
  ∃ first ∈ cs.head?, ∃ last ∈ cs.getLast?, p first ∧ p last

/-- A DNS subdomain. -/
def IsSubdomain (cs : List Char) : Prop :=
  cs.length ≤ 253 ∧ ∀ label ∈ cs.splitOn '.',
    EndsIn isLowerAlnum label ∧ ∀ c ∈ label, isLowerAlnum c ∨ c = '-'

/-- The name of a key, after the domain. -/
def IsKeyName (cs : List Char) : Prop :=
  cs.length ≤ 63 ∧ EndsIn isAlnum cs ∧ ∀ c ∈ cs, isAlnum c ∨ c ∈ ['.', '_', '-']

/-- A key that Kubernetes accepts. -/
abbrev KubernetesKey := { key : String // IsKeyName key.toList ∨
  ∃ domain name, key.toList = domain ++ '/' :: name ∧ IsSubdomain domain ∧ IsKeyName name }

/-- A key made of the same characters. -/
abbrev MesosKey := { key : String // ∀ c ∈ key.toList, isKeyChar c }

theorem EndsIn.exists_cons {p : Char → Bool} {cs : List Char} (h : EndsIn p cs) :
    ∃ c rest, cs = c :: rest ∧ p c := by
  obtain ⟨first, hfirst, -, -, hp, -⟩ := h
  cases cs with
  | nil => cases hfirst
  | cons c rest =>
    cases hfirst
    exact ⟨first, rest, rfl, hp⟩

theorem isAlnum_of_isLowerAlnum {c : Char} (h : isLowerAlnum c = true) : isAlnum c = true := by
  rw [isLowerAlnum, Bool.or_eq_true] at h
  rw [isAlnum, isAsciiLetter, Bool.or_eq_true, Bool.or_eq_true]
  obtain h | h := h
  · exact .inl (.inl h)
  · exact .inr h

theorem isKeyChar_of_nameChar {c : Char} (h : isAlnum c ∨ c ∈ ['.', '_', '-']) :
    isKeyChar c = true := by
  rw [isKeyChar, Bool.or_eq_true, decide_eq_true_eq]
  obtain h | h := h
  · exact .inl h
  · exact .inr (List.mem_append_left ['/'] h)

namespace KubernetesKey

/-- A key begins with a letter or a digit. -/
theorem exists_cons (key : KubernetesKey) : ∃ c rest, key.1.toList = c :: rest ∧ isAlnum c := by
  obtain hname | ⟨domain, name, hkey, hdomain, -⟩ := key.2
  · exact hname.2.1.exists_cons
  · have hjoin : ['.'].intercalate (domain.splitOn '.') = domain := List.intercalate_splitOn '.'
    cases hsplit : domain.splitOn '.' with
    | nil => exact absurd hsplit (List.splitOn_ne_nil _ _)
    | cons label labels =>
      have hlabel := (hdomain.2 label (by rw [hsplit]; exact List.mem_cons_self)).1
      obtain ⟨c, rest, rfl, hc⟩ := hlabel.exists_cons
      rw [hsplit, List.intercalate_cons_cons_left] at hjoin
      exact ⟨c, _, by rw [hkey, ← hjoin]; rfl, isAlnum_of_isLowerAlnum hc⟩

theorem isKeyChar_of_mem (key : KubernetesKey) : ∀ c ∈ key.1.toList, isKeyChar c = true := by
  intro c hc
  obtain hname | ⟨domain, name, hkey, hdomain, hname⟩ := key.2
  · exact isKeyChar_of_nameChar (hname.2.2 c hc)
  · rw [hkey, List.mem_append, List.mem_cons] at hc
    obtain hc | rfl | hc := hc
    · have hjoin : ['.'].intercalate (domain.splitOn '.') = domain := List.intercalate_splitOn '.'
      rw [← hjoin] at hc
      obtain rfl | ⟨label, hlabel, hc⟩ := Str.mem_intercalate hc
      · rfl
      · apply isKeyChar_of_nameChar
        obtain hlower | rfl := (hdomain.2 label hlabel).2 c hc
        · exact .inl (isAlnum_of_isLowerAlnum hlower)
        · exact .inr (by decide)
    · rfl
    · exact isKeyChar_of_nameChar (hname.2.2 c hc)

end KubernetesKey

/-! ## What the storage accepts -/

/-- The names are different and the storage takes them. -/
def Storable {K : Type} (sanitize : K → String) (keys : Set K) : Prop :=
  Set.InjOn sanitize keys ∧
    ∀ key ∈ keys, ∀ name value, checkLabel name (sanitize key, .str value) = none

theorem checkLabel_iff {label : String} (hlabel : '\n' ∉ label.toList) {name value : String} :
    checkLabel name (label, .str value) = none ↔
      ∃ c cs, label.toList = c :: cs ∧ isLabelNameStart c ∧ (∀ x ∈ cs, isLabelNameChar x) ∧
        ¬ (c = '_' ∧ cs.head? = some '_') := by
  have hdrop : ∀ cs : List Char, '\n' ∉ cs → dropFinalNewline cs = cs := by
    intro cs hcs
    rw [dropFinalNewline, if_neg]
    exact fun hlast => hcs (List.mem_of_getLast? hlast)
  have hmatches : metricLabelNameMatches label = true ↔ ∃ c cs, label.toList = c :: cs ∧
      isLabelNameStart c = true ∧ ∀ x ∈ cs, isLabelNameChar x = true := by
    rw [metricLabelNameMatches, matchesName, hdrop _ hlabel]
    cases label.toList with
    | nil => simp
    | cons c cs => simp
  have hreserved : reservedMetricLabelNameMatches label = true ↔
      ∃ cs, label.toList = '_' :: '_' :: cs := by
    have htail : '\n' ∉ label.toList.drop 2 := fun hmem => hlabel (List.mem_of_mem_drop hmem)
    rw [reservedMetricLabelNameMatches, hdrop _ htail, Bool.and_eq_true, Str.startsWith]
    constructor
    · rintro ⟨hstart, -⟩
      obtain ⟨rest, hrest⟩ := List.isPrefixOf_iff_prefix.mp hstart
      exact ⟨rest, hrest.symm⟩
    · rintro ⟨rest, hrest⟩
      refine ⟨by rw [hrest]; rfl, List.all_eq_true.mpr fun x hx => decide_eq_true fun he => ?_⟩
      exact htail (he ▸ hx)
  rw [checkLabel]
  cases hm : metricLabelNameMatches label with
  | false =>
    refine iff_of_false (fun h => by cases h) fun h => ?_
    obtain ⟨c, cs, hcs, hc, hrest, -⟩ := h
    rw [hmatches.mpr ⟨c, cs, hcs, hc, hrest⟩] at hm
    cases hm
  | true =>
    obtain ⟨c, cs, hcs, hc, hrest⟩ := hmatches.mp hm
    have hhead : reservedMetricLabelNameMatches label = true ↔ c = '_' ∧ cs.head? = some '_' := by
      rw [hreserved, hcs]
      cases cs <;> simp
    constructor
    · intro hnone
      refine ⟨c, cs, hcs, hc, hrest, fun he => ?_⟩
      rw [hhead.mpr he] at hnone
      cases hnone
    · rintro ⟨c', cs', hcs', -, -, hne⟩
      cases hcs.symm.trans hcs'
      cases hr : reservedMetricLabelNameMatches label with
      | false => rfl
      | true => exact absurd (hhead.mp hr) hne

/-! ## Keys that become one -/

/-- Separators, one of which is put for each of the others. -/
def separators : List Char := ['.', '-', '_']

/-- Keys that differ in their separators only, where a slash counts as two. -/
inductive Alike : List Char → List Char → Prop
  | nil : Alike [] []
  | same (c : Char) {cs cs' : List Char} : Alike cs cs' → Alike (c :: cs) (c :: cs')
  | separator {c c' : Char} {cs cs' : List Char} : c ∈ separators → c' ∈ separators → Alike cs cs' →
      Alike (c :: cs) (c' :: cs')
  | slash_left {cs cs' : List Char} : Alike ('_' :: '_' :: cs) cs' → Alike ('/' :: cs) cs'
  | slash_right {cs cs' : List Char} : Alike cs ('_' :: '_' :: cs') → Alike cs ('/' :: cs')

/-- What is put for a character. -/
def sanitizedChar (c : Char) : List Char :=
  if c ∈ separators then ['_'] else if c = '/' then ['_', '_'] else [c]

theorem toList_sanitizeLabel (labelKey : String) :
    (Kubernetes.sanitizeLabel labelKey).toList = labelKey.toList.flatMap sanitizedChar := by
  rw [Kubernetes.sanitizeLabel, Str.toList_replace, Str.toList_replace, Str.toList_replace,
    List.flatMap_assoc, List.flatMap_assoc]
  refine List.flatMap_congr fun c _ => ?_
  by_cases hdot : c = '.'
  · subst hdot
    rfl
  · by_cases hdash : c = '-'
    · subst hdash
      rfl
    · by_cases hslash : c = '/'
      · subst hslash
        rfl
      · by_cases hunder : c = '_'
        · subst hunder
          rfl
        · simp [sanitizedChar, separators, hdot, hdash, hslash, hunder]

theorem Alike.flatMap_eq {cs cs' : List Char} (h : Alike cs cs') :
    cs.flatMap sanitizedChar = cs'.flatMap sanitizedChar := by
  induction h with
  | nil => rfl
  | same c _ ih => rw [List.flatMap_cons, List.flatMap_cons, ih]
  | separator hc hc' _ ih =>
    rw [List.flatMap_cons, List.flatMap_cons, ih, sanitizedChar, if_pos hc, sanitizedChar,
      if_pos hc']
  | slash_left _ ih => exact ih
  | slash_right _ ih => exact ih

/-- Characters other than the slash are put for by one character each. -/
theorem sanitizedChar_of_ne {c : Char} (h : c ≠ '/') :
    sanitizedChar c = [if c ∈ separators then '_' else c] := by
  rw [sanitizedChar, if_neg h]
  split <;> rfl

theorem count_slash (cs : List Char) :
    ('_' :: '_' :: cs).count '/' < ('/' :: cs).count '/' := by
  rw [List.count_cons_self, List.count_cons_of_ne (by decide), List.count_cons_of_ne (by decide)]
  exact Nat.lt_succ_self _

theorem Alike.of_flatMap_eq {cs cs' : List Char}
    (h : cs.flatMap sanitizedChar = cs'.flatMap sanitizedChar) : Alike cs cs' := by
  -- a slash counts less than the two separators it stands for, and both are as long
  induction hn : (cs.flatMap sanitizedChar).length + cs.count '/' + cs'.count '/'
    using Nat.strong_induction_on generalizing cs cs' with
  | _ n ih =>
    cases cs with
    | nil =>
      cases cs' with
      | nil => exact .nil
      | cons c' cs' =>
        have hempty := congrArg List.length h
        by_cases hc' : c' = '/'
        · subst hc'
          cases h
        · rw [List.flatMap_cons, sanitizedChar_of_ne hc'] at h
          cases h
    | cons c cs =>
      by_cases hc : c = '/'
      · subst hc
        apply Alike.slash_left
        refine ih _ ?_ h rfl
        have hlength : ('_' :: '_' :: cs).flatMap sanitizedChar =
            ('/' :: cs).flatMap sanitizedChar := rfl
        rw [← hn, hlength]
        have hcount := count_slash cs
        omega
      · cases cs' with
        | nil =>
          rw [List.flatMap_cons, sanitizedChar_of_ne hc] at h
          cases h
        | cons c' cs' =>
          by_cases hc' : c' = '/'
          · subst hc'
            apply Alike.slash_right
            refine ih _ ?_ h rfl
            rw [← hn]
            have hcount := count_slash cs'
            omega
          · rw [List.flatMap_cons, List.flatMap_cons, sanitizedChar_of_ne hc,
              sanitizedChar_of_ne hc', List.singleton_append, List.singleton_append] at h
            obtain ⟨hhead, htail⟩ := List.cons.inj h
            have halike : Alike cs cs' := by
              refine ih _ ?_ htail rfl
              rw [← hn, List.flatMap_cons, sanitizedChar_of_ne hc, List.count_cons_of_ne hc,
                List.count_cons_of_ne hc', List.length_append, List.length_singleton]
              omega
            by_cases hsep : c ∈ separators
            · by_cases hsep' : c' ∈ separators
              · exact .separator hsep hsep' halike
              · rw [if_pos hsep, if_neg hsep'] at hhead
                exact absurd (hhead ▸ by decide) hsep'
            · by_cases hsep' : c' ∈ separators
              · rw [if_neg hsep, if_pos hsep'] at hhead
                exact absurd (hhead ▸ by decide) hsep
              · rw [if_neg hsep, if_neg hsep'] at hhead
                exact hhead ▸ .same c halike

/-! ## Names that are accepted -/

section Accepted

variable {c : Char} {name value : String}

theorem isAsciiLetter_of_isDigit (h : c.isDigit = true) : isAsciiLetter c = false := by
  have hc := Str.toNat_of_isDigit h
  have hlow : ¬ 'a' ≤ c := fun hle => by
    have : 0x61 ≤ c.toNat := UInt32.le_iff_toNat_le.mp hle
    omega
  have hup : ¬ 'A' ≤ c := fun hle => by
    have : 0x41 ≤ c.toNat := UInt32.le_iff_toNat_le.mp hle
    omega
  simp [isAsciiLetter, hlow, hup]

theorem isLabelNameStart_iff : isLabelNameStart c = true ↔ isAsciiLetter c = true ∨ c = '_' := by
  simp [isLabelNameStart]

theorem isKeyChar_iff : isKeyChar c = true ↔
    isAsciiLetter c = true ∨ c.isDigit = true ∨ c ∈ ['.', '_', '-', '/'] := by
  rw [isKeyChar, isAlnum, Bool.or_eq_true, Bool.or_eq_true, decide_eq_true_eq, or_assoc]

theorem isLabelNameChar_iff : isLabelNameChar c = true ↔
    isAsciiLetter c = true ∨ c.isDigit = true ∨ c = '_' := by
  rw [isLabelNameChar, Bool.or_eq_true, isLabelNameStart_iff]
  tauto

/-- Every character of a name takes no line feed along. -/
theorem not_mem_of_labelNameChars {cs : List Char} (h : ∀ x ∈ cs, isLabelNameChar x = true) :
    '\n' ∉ cs := fun hmem => absurd (h _ hmem) (by decide)

theorem isLabelNameChar_sanitizedChar (h : isKeyChar c = true) :
    ∀ x ∈ sanitizedChar c, isLabelNameChar x = true := by
  intro x hx
  rw [sanitizedChar] at hx
  split at hx
  · cases List.mem_singleton.mp hx
    rfl
  · case isFalse hsep =>
    split at hx
    · obtain rfl : x = '_' := by simpa using hx
      rfl
    · case isFalse hslash =>
      cases List.mem_singleton.mp hx
      rw [isLabelNameChar_iff]
      obtain h | h | h := isKeyChar_iff.mp h
      · exact .inl h
      · exact .inr (.inl h)
      · have : c = '.' ∨ c = '_' ∨ c = '-' ∨ c = '/' := by simpa using h
        simp only [separators, List.mem_cons, List.not_mem_nil, or_false] at hsep
        tauto

/-- A letter or a digit is put for itself. -/
theorem sanitizedChar_of_isAlnum (h : isAlnum c = true) : sanitizedChar c = [c] := by
  have hne : ∀ x : Char, isAlnum x = false → c ≠ x := by
    rintro x hx rfl
    exact Bool.noConfusion (h.symm.trans hx)
  rw [sanitizedChar_of_ne (hne '/' rfl), if_neg]
  simp only [separators, List.mem_cons, List.not_mem_nil, or_false, not_or]
  exact ⟨hne '.' rfl, hne '-' rfl, hne '_' rfl⟩

theorem accepted_kubernetes_iff (key : KubernetesKey) :
    checkLabel name (Kubernetes.sanitizeLabel key.1, .str value) = none ↔
      ∀ c ∈ key.1.toList.head?, c.isDigit = false := by
  obtain ⟨c, rest, hkey, hc⟩ := key.exists_cons
  have hchars : ∀ x ∈ (Kubernetes.sanitizeLabel key.1).toList, isLabelNameChar x = true := by
    intro x hx
    rw [toList_sanitizeLabel] at hx
    obtain ⟨y, hy, hx⟩ := List.mem_flatMap.mp hx
    exact isLabelNameChar_sanitizedChar (key.isKeyChar_of_mem y hy) x hx
  have hcons : (Kubernetes.sanitizeLabel key.1).toList = c :: rest.flatMap sanitizedChar := by
    rw [toList_sanitizeLabel, hkey, List.flatMap_cons, sanitizedChar_of_isAlnum hc]
    rfl
  rw [checkLabel_iff (not_mem_of_labelNameChars hchars), hkey]
  constructor
  · rintro ⟨c', cs, hcs, hstart, -, -⟩ x hx
    cases hcons.symm.trans hcs
    cases hx
    by_contra hdigit
    obtain hletter | rfl := isLabelNameStart_iff.mp hstart
    · rw [isAsciiLetter_of_isDigit (Bool.not_eq_false _ ▸ hdigit)] at hletter
      cases hletter
    · cases hc
  · intro h
    have hdigit := h c rfl
    have hletter : isAsciiLetter c = true := by
      rw [isAlnum, Bool.or_eq_true, hdigit] at hc
      exact hc.resolve_right (by simp)
    refine ⟨c, _, hcons, isLabelNameStart_iff.mpr (.inl hletter), fun x hx => ?_, fun he => ?_⟩
    · exact hchars x (by rw [hcons]; exact List.mem_cons_of_mem _ hx)
    · rw [he.1] at hletter
      cases hletter

/-! ### Mesos -/

/-- A name of a label but for its dots: no digit comes first, nothing has to be put for a dash or a
slash, and not both first characters are dots or underscores. -/
def IsDottedName (cs : List Char) : Prop :=
  ∃ c rest, cs = c :: rest ∧ c.isDigit = false ∧ (∀ x ∈ cs, x ≠ '-' ∧ x ≠ '/') ∧
    ¬ (c ∈ ['.', '_'] ∧ ∃ d ∈ rest.head?, d ∈ ['.', '_'])

/-- Texts of one length that differ in dots and underscores only. -/
def AlikeUpToDots : List Char → List Char → Prop :=
  List.Forall₂ fun c d => c = d ∨ c ∈ ['.', '_'] ∧ d ∈ ['.', '_']

def undotted (c : Char) : Char := if c = '.' then '_' else c

theorem undotted_eq_iff {d : Char} :
    undotted c = undotted d ↔ c = d ∨ c ∈ ['.', '_'] ∧ d ∈ ['.', '_'] := by
  rw [undotted, undotted]
  by_cases hc : c = '.'
  · by_cases hd : d = '.'
    · simp [hc, hd]
    · simp [hc, hd, eq_comm]
  · by_cases hd : d = '.'
    · simp [hc, hd]
    · rw [if_neg hc, if_neg hd]
      simp only [List.mem_cons, hc, hd, List.not_mem_nil, false_or, or_false]
      refine ⟨.inl, fun h => ?_⟩
      obtain h | ⟨rfl, rfl⟩ := h
      · exact h
      · rfl

theorem toList_mesosSanitizeLabel (labelKey : String) :
    (Mesos.sanitizeLabel labelKey).toList = (Mesos.dropPrefixes labelKey).toList.map undotted := by
  rw [Mesos.sanitizeLabel, Str.toList_replace, List.map_eq_flatMap]
  refine List.flatMap_congr fun c _ => ?_
  rw [undotted]
  split <;> rfl

theorem alikeUpToDots_iff {labelKey labelKey' : String} :
    AlikeUpToDots (Mesos.dropPrefixes labelKey).toList (Mesos.dropPrefixes labelKey').toList ↔
      Mesos.sanitizeLabel labelKey = Mesos.sanitizeLabel labelKey' := by
  rw [← String.toList_inj, toList_mesosSanitizeLabel, toList_mesosSanitizeLabel, AlikeUpToDots,
    ← List.forall₂_eq_eq_eq, List.forall₂_map_left_iff, List.forall₂_map_right_iff]
  simp only [undotted_eq_iff]

/-- Dropping prefixes leaves characters of the key. -/
theorem mem_of_mem_dropPrefixes {labelKey : String} (hc : c ∈ (Mesos.dropPrefixes labelKey).toList) :
    c ∈ labelKey.toList := by
  have hstep : ∀ p labelKey : String, c ∈ (if Str.startsWith p labelKey then Str.remove p labelKey
      else labelKey).toList → c ∈ labelKey.toList := by
    intro p labelKey hc
    split at hc
    · rw [Str.remove, String.toList_ofList] at hc
      exact (Str.removeChars_sublist _ _ _).subset hc
    · exact hc
  exact hstep _ _ (hstep _ _ hc)

theorem isLabelNameChar_undotted (h : isKeyChar c = true) :
    isLabelNameChar (undotted c) = true ↔ c ≠ '-' ∧ c ≠ '/' := by
  rw [undotted]
  by_cases hdot : c = '.'
  · subst hdot
    decide
  · rw [if_neg hdot, isLabelNameChar_iff]
    constructor
    · rintro hname
      refine ⟨?_, ?_⟩
      · rintro rfl
        revert hname
        decide
      · rintro rfl
        revert hname
        decide
    · rintro ⟨hdash, hslash⟩
      have := isKeyChar_iff.mp h
      simp only [List.mem_cons, List.not_mem_nil, or_false] at this
      tauto

theorem undotted_eq_underscore_iff : undotted c = '_' ↔ c ∈ ['.', '_'] := by
  have hiff := undotted_eq_iff (c := c) (d := '_')
  rw [show undotted '_' = '_' from rfl] at hiff
  rw [hiff]
  constructor
  · rintro (rfl | ⟨hc, -⟩)
    · decide
    · exact hc
  · exact fun hc => .inr ⟨hc, by decide⟩

theorem isLabelNameStart_undotted (h : isKeyChar c = true) :
    isLabelNameStart (undotted c) = true ↔ c.isDigit = false ∧ c ≠ '-' ∧ c ≠ '/' := by
  rw [← isLabelNameChar_undotted h, isLabelNameChar, Bool.or_eq_true]
  have hdigit : (undotted c).isDigit = c.isDigit := by
    rw [undotted]
    split
    · case isTrue hc =>
      rw [hc]
      rfl
    · rfl
  rw [hdigit]
  constructor
  · intro hstart
    refine ⟨Bool.not_eq_true _ ▸ fun hc => ?_, .inl hstart⟩
    obtain hletter | hunder := isLabelNameStart_iff.mp hstart
    · rw [isAsciiLetter_of_isDigit (hdigit ▸ hc)] at hletter
      cases hletter
    · rw [← hdigit, hunder] at hc
      cases hc
  · rintro ⟨hno, hstart | hdigit⟩
    · exact hstart
    · rw [hno] at hdigit
      cases hdigit

theorem accepted_mesos_iff (key : MesosKey) :
    checkLabel name (Mesos.sanitizeLabel key.1, .str value) = none ↔
      IsDottedName (Mesos.dropPrefixes key.1).toList := by
  have hkey : ∀ x ∈ (Mesos.dropPrefixes key.1).toList, isKeyChar x = true := fun x hx =>
    key.2 x (mem_of_mem_dropPrefixes hx)
  have hnewline : '\n' ∉ (Mesos.sanitizeLabel key.1).toList := by
    rw [toList_mesosSanitizeLabel, List.mem_map]
    rintro ⟨x, hx, he⟩
    have hx := hkey x hx
    rw [undotted] at he
    split at he
    · cases he
    · rw [he] at hx
      revert hx
      decide
  rw [checkLabel_iff hnewline, toList_mesosSanitizeLabel]
  rw [IsDottedName]
  cases hcs : (Mesos.dropPrefixes key.1).toList with
  | nil => simp
  | cons c rest =>
    rw [hcs] at hkey
    have hc := hkey c List.mem_cons_self
    have hhead : (rest.map undotted).head? = some '_' ↔ ∃ d ∈ rest.head?, d ∈ ['.', '_'] := by
      rw [List.head?_map, Option.map_eq_some_iff]
      simp only [undotted_eq_underscore_iff, Option.mem_def]
    have hchars : (∀ x ∈ rest.map undotted, isLabelNameChar x = true) ↔
        ∀ x ∈ rest, x ≠ '-' ∧ x ≠ '/' := by
      rw [List.forall_mem_map]
      exact forall₂_congr fun x hx =>
        isLabelNameChar_undotted (hkey x (List.mem_cons_of_mem _ hx))
    simp only [List.map_cons, List.cons.injEq, List.forall_mem_cons]
    constructor
    · rintro ⟨c', cs', ⟨rfl, rfl⟩, hstart, hrest, hno⟩
      obtain ⟨hdigit, hne⟩ := (isLabelNameStart_undotted hc).mp hstart
      refine ⟨c, rest, ⟨rfl, rfl⟩, hdigit, ⟨hne, hchars.mp hrest⟩, fun hboth => hno ?_⟩
      exact ⟨undotted_eq_underscore_iff.mpr hboth.1, hhead.mpr hboth.2⟩
    · rintro ⟨c', rest', ⟨rfl, rfl⟩, hdigit, ⟨hne, hrest⟩, hno⟩
      refine ⟨_, _, ⟨rfl, rfl⟩, (isLabelNameStart_undotted hc).mpr ⟨hdigit, hne⟩,
        hchars.mpr hrest, fun hboth => hno ?_⟩
      exact ⟨undotted_eq_underscore_iff.mp hboth.1, hhead.mp hboth.2⟩

end Accepted

/-! ## Sets of keys -/

theorem injOn_iff_pairwise {K L : Type} {f : K → L} {keys : Set K} {R : K → K → Prop}
    (h : ∀ key key', R key key' ↔ f key = f key') :
    Set.InjOn f keys ↔ keys.Pairwise fun key key' => ¬ R key key' := by
  constructor
  · intro hinj key hkey key' hkey' hne halike
    exact hne (hinj hkey hkey' ((h key key').mp halike))
  · intro hpairwise key hkey key' hkey' he
    by_contra hne
    exact hpairwise hkey hkey' hne ((h key key').mpr he)

/-- The labels of pods can be stored when no key begins with a digit and no two differ in separators
only; those of Mesos when without the prefixes every key is a dotted name and no two differ in dots and
underscores only. -/
theorem labels_storable_iff (kubernetes : Set KubernetesKey) (mesos : Set MesosKey) :
    (Storable (fun key : KubernetesKey => Kubernetes.sanitizeLabel key.1) kubernetes ↔
      kubernetes.Pairwise (fun key key' => ¬ Alike key.1.toList key'.1.toList) ∧
        ∀ key ∈ kubernetes, ∀ c ∈ key.1.toList.head?, c.isDigit = false) ∧
    (Storable (fun key : MesosKey => Mesos.sanitizeLabel key.1) mesos ↔
      mesos.Pairwise (fun key key' => ¬ AlikeUpToDots (Mesos.dropPrefixes key.1).toList
        (Mesos.dropPrefixes key'.1).toList) ∧
      ∀ key ∈ mesos, IsDottedName (Mesos.dropPrefixes key.1).toList) := by
  have halike : ∀ key key' : KubernetesKey, Alike key.1.toList key'.1.toList ↔
      Kubernetes.sanitizeLabel key.1 = Kubernetes.sanitizeLabel key'.1 := by
    intro key key'
    rw [← String.toList_inj, toList_sanitizeLabel, toList_sanitizeLabel]
    exact ⟨Alike.flatMap_eq, Alike.of_flatMap_eq⟩
  constructor
  · refine and_congr (injOn_iff_pairwise halike) (forall₂_congr fun key _ => ?_)
    simp only [accepted_kubernetes_iff, forall_const]
  · refine and_congr (injOn_iff_pairwise fun _ _ => alikeUpToDots_iff) (forall₂_congr fun key _ => ?_)
    simp only [accepted_mesos_iff, forall_const]

/-! ## Keys that cannot be stored -/

/-- `'app.io'`, `'app-io'` and `'1st'` are names, and `'app-io'` is made of the characters of keys. -/
def smallKeys : KubernetesKey × KubernetesKey × KubernetesKey × MesosKey :=
  (⟨"app.io", .inl ⟨by decide, ⟨'a', rfl, 'o', rfl, rfl, rfl⟩, List.all_iff_forall_prop.mp (by decide)⟩⟩,
    ⟨"app-io", .inl ⟨by decide, ⟨'a', rfl, 'o', rfl, rfl, rfl⟩, List.all_iff_forall_prop.mp (by decide)⟩⟩,
    ⟨"1st", .inl ⟨by decide, ⟨'1', rfl, 't', rfl, rfl, rfl⟩, List.all_iff_forall_prop.mp (by decide)⟩⟩,
    ⟨"app-io", List.all_iff_forall_prop.mp (by decide)⟩)

/-- Two keys of a pod that become one, a key that begins with a digit, and a dash in a key of Mesos. -/
theorem labels_not_storable :
    ¬ Storable (fun key : KubernetesKey => Kubernetes.sanitizeLabel key.1)
      {smallKeys.1, smallKeys.2.1} ∧
    ¬ Storable (fun key : KubernetesKey => Kubernetes.sanitizeLabel key.1) {smallKeys.2.2.1} ∧
    ¬ Storable (fun key : MesosKey => Mesos.sanitizeLabel key.1) {smallKeys.2.2.2} := by
  refine ⟨fun h => ?_, fun h => ?_, fun h => ?_⟩
  · have hsame := h.1 (Set.mem_insert _ _) (Set.mem_insert_of_mem _ rfl) (by decide +kernel)
    exact absurd (congrArg Subtype.val hsame) (by decide)
  · have haccepted := h.2 _ rfl "" ""
    revert haccepted
    decide +kernel
  · have haccepted := h.2 _ rfl "" ""
    revert haccepted
    decide +kernel

end Wca
