import Wca.Bandwidth
import Wca.Changeset

/-!
# Requests for a part of the domains

What a request for some of the domains of a group leaves behind. Values that the comparison takes
for equal are equal numbers (`eq_of_isEqual`), so the hardware always ends with the merge of the
request into the current allocation (`endsMerged_of_comparison`). The target ends with it when each
line of the request names every domain of the group (`calculateChangeset_merges_iff`).
-/

namespace Py.Str

variable {base : ℕ} {c : Char} {cs : List Char} {n : ℤ}

/-! ## Numerals with blanks and zeros in front -/

/-- The right end without the characters of `p`. -/
def rtrim (p : Char → Bool) (cs : List Char) : List Char := (cs.reverse.dropWhile p).reverse

section Trim

variable {p : Char → Bool}

theorem rtrim_cons_of_neg (h : p c = false) (cs : List Char) : rtrim p (c :: cs) = c :: rtrim p cs := by
  rw [rtrim, List.reverse_cons, List.dropWhile_append]
  split
  · case isTrue hnil =>
    rw [rtrim, List.isEmpty_iff.mp hnil, List.dropWhile_cons_of_neg (by simp [h])]
    rfl
  · rw [List.reverse_append]
    rfl

/-- Only blanks, or a blank before something else. -/
theorem rtrim_cons_of_pos (h : p c = true) (cs : List Char) :
    (rtrim p cs = [] ∧ rtrim p (c :: cs) = []) ∨ rtrim p (c :: cs) = c :: rtrim p cs := by
  rw [rtrim, rtrim, List.reverse_cons, List.dropWhile_append]
  split
  · case isTrue hnil =>
    rw [List.isEmpty_iff.mp hnil, List.dropWhile_cons_of_pos h]
    exact .inl ⟨rfl, rfl⟩
  · rw [List.reverse_append]
    exact .inr rfl

theorem trim_cons_of_neg (h : p c = false) (cs : List Char) : trim p (c :: cs) = c :: rtrim p cs := by
  rw [trim, List.dropWhile_cons_of_neg (by simp [h])]
  exact rtrim_cons_of_neg h cs

theorem trim_cons_of_pos (h : p c = true) (cs : List Char) : trim p (c :: cs) = trim p cs := by
  rw [trim, trim, List.dropWhile_cons_of_pos h]

end Trim

/-- No digit is a blank or a sign. -/
theorem not_special_of_digit? (h : (digit? base c).isSome = true) :
    isSpace c = false ∧ c ≠ '+' ∧ c ≠ '-' := by
  cases hd : decimal? c with
  | some d =>
    have hdigit : isdigitChar c = true := by
      rw [isdigitChar, hd]
      rfl
    obtain ⟨hsp, hplus, hminus, -⟩ := toNat_of_isdigitChar hdigit
    exact ⟨hsp, hplus, hminus⟩
  | none =>
    have hletter : 0x41 ≤ c.toNat ∧ c.toNat ≤ 0x7A := by
      obtain ⟨d, hsome⟩ := Option.isSome_iff_exists.mp h
      have hfilter := (Option.filter_eq_some_iff.mp hsome).1
      rw [hd] at hfilter
      dsimp only at hfilter
      split at hfilter
      · case isTrue hlower => exact ⟨le_trans (by decide) hlower.1, hlower.2⟩
      · split at hfilter
        · case isTrue hupper => exact ⟨hupper.1, le_trans hupper.2 (by decide)⟩
        · cases hfilter
    refine ⟨?_, ?_, ?_⟩
    · simp only [isSpace, Bool.or_eq_false_iff, Bool.and_eq_false_iff, decide_eq_false_iff_not,
        beq_eq_false_iff_ne]
      omega
    · rintro rfl
      exact absurd hletter.1 (by decide)
    · rintro rfl
      exact absurd hletter.1 (by decide)

theorem digit?_of_mapM {ds : List ℕ} (h : cs.mapM (digit? base) = some ds) (hc : c ∈ cs) :
    (digit? base c).isSome = true := by
  induction cs generalizing ds with
  | nil => cases hc
  | cons d cs ih =>
    rw [List.mapM_cons] at h
    obtain ⟨k, hk, hrest⟩ := Option.bind_eq_some_iff.mp h
    obtain ⟨ks, hks, -⟩ := Option.bind_eq_some_iff.mp hrest
    rcases List.mem_cons.mp hc with rfl | hc
    · rw [hk]
      rfl
    · exact ih hks hc

/-- The characters of a numeral. -/
theorem digit?_of_natBody {m : ℕ} (h : natBody? base cs = some m) (hc : c ∈ cs) :
    c = '_' ∨ (digit? base c).isSome = true := by
  refine or_iff_not_imp_left.mpr fun hu => ?_
  unfold natBody? at h
  split at h
  · obtain ⟨ds, hds, -⟩ := Option.map_eq_some_iff.mp h
    exact digit?_of_mapM hds (List.mem_filter.mpr ⟨hc, decide_eq_true hu⟩)
  · cases h

/-- A zero before a digit is no digit more. -/
theorem natBody?_zero_cons (hbase : 0 < base) (hc : c ≠ '_') :
    natBody? base ('0' :: c :: cs) = natBody? base (c :: cs) := by
  have hsplit : ('0' :: c :: cs).splitOn '_' =
      ((c :: cs).splitOn '_').modifyHead (List.cons '0') := by
    rw [List.splitOn_cons_eq_if_modifyHead, if_neg (by decide)]
  have hhead : ∃ first rest, (c :: cs).splitOn '_' = (c :: first) :: rest := by
    rw [List.splitOn_cons_eq_if_modifyHead, if_neg (by simpa using hc)]
    obtain ⟨first, rest, hl⟩ := List.exists_cons_of_ne_nil (List.splitOn_ne_nil '_' cs)
    exact ⟨first, rest, by rw [hl]; rfl⟩
  obtain ⟨first, rest, hrest⟩ := hhead
  have hzero : digit? base '0' = some 0 := by
    have hd : decimal? '0' = some 0 := by decide
    simp only [digit?, hd, Option.filter_some, decide_eq_true_eq]
    rw [if_pos hbase]
  have hfilter : ('0' :: c :: cs).filter (· ≠ '_') = '0' :: (c :: cs).filter (· ≠ '_') := rfl
  unfold natBody?
  rw [hsplit, hrest, hfilter, List.mapM_cons, hzero]
  cases ((c :: cs).filter (· ≠ '_')).mapM (digit? base) with
  | none => simp
  | some ds => simp [ofDigits]

theorem intChars?_zero_cons : intChars? base ('0' :: cs) =
    (natBody? base (dropBasePrefix base ('0' :: rtrim isNumSpace cs))).map Int.ofNat := by
  unfold intChars?
  rw [trim_cons_of_neg (by decide)]
  rfl

theorem dropBasePrefix_of_natBody {m : ℕ} (h : natBody? base ('0' :: cs) = some m) :
    dropBasePrefix base ('0' :: cs) = '0' :: cs := by
  unfold dropBasePrefix
  split
  · case h_1 x rest hcons =>
    cases hcons
    split
    · case isTrue hx =>
      obtain ⟨rfl, hx⟩ := hx
      have hdigit := digit?_of_natBody h (List.mem_cons_of_mem _ List.mem_cons_self)
      rcases hx with rfl | rfl
      · exact absurd hdigit (by decide)
      · exact absurd hdigit (by decide)
    · rfl
  · rfl

/-- A blank or a zero after a zero is not needed. -/
theorem intChars?_zero_skip (hbase : 0 < base) (hc : c = ' ' ∨ c = '0')
    (h : intChars? base ('0' :: c :: cs) = some n) : intChars? base ('0' :: cs) = some n := by
  rw [intChars?_zero_cons] at h ⊢
  rcases hc with rfl | rfl
  · have hblank : isNumSpace ' ' = true := by decide
    rcases rtrim_cons_of_pos hblank cs with ⟨hnil, hnil'⟩ | hcons
    · rwa [hnil', ← hnil] at h
    · rw [hcons] at h
      obtain ⟨m, hm, -⟩ := Option.map_eq_some_iff.mp h
      have hdrop : dropBasePrefix base ('0' :: ' ' :: rtrim isNumSpace cs) =
          '0' :: ' ' :: rtrim isNumSpace cs := if_neg fun hx => absurd hx.2 (by decide)
      rw [hdrop] at hm
      have hdigit := digit?_of_natBody hm (List.mem_cons_of_mem _ List.mem_cons_self)
      rcases hdigit with hu | hdigit
      · exact absurd hu (by decide)
      · exact absurd (not_special_of_digit? hdigit).1 (by decide)
  · rw [rtrim_cons_of_neg (by decide)] at h
    have hdrop : dropBasePrefix base ('0' :: '0' :: rtrim isNumSpace cs) =
        '0' :: '0' :: rtrim isNumSpace cs := if_neg fun hx => absurd hx.2 (by decide)
    rw [hdrop, natBody?_zero_cons hbase (by decide)] at h
    obtain ⟨m, hm, hn⟩ := Option.map_eq_some_iff.mp h
    rw [dropBasePrefix_of_natBody hm, hm, ← hn]
    rfl

theorem intChars?_blank_cons (cs : List Char) : intChars? base (' ' :: cs) = intChars? base cs := by
  unfold intChars?
  rw [trim_cons_of_pos (by decide)]

/-- Blanks and zeros in front may be replaced by one zero or left out. -/
theorem intChars?_of_append (hbase : 0 < base) {front : List Char}
    (hfront : ∀ c ∈ front, c = ' ' ∨ c = '0') (h : intChars? base (front ++ cs) = some n) :
    intChars? base cs = some n ∨ intChars? base ('0' :: cs) = some n := by
  have hskip : ∀ front : List Char, (∀ c ∈ front, c = ' ' ∨ c = '0') →
      intChars? base ('0' :: (front ++ cs)) = some n → intChars? base ('0' :: cs) = some n := by
    intro front hfront h
    induction front with
    | nil => exact h
    | cons c front ih =>
      obtain ⟨hc, hrest⟩ := List.forall_mem_cons.mp hfront
      exact ih hrest (intChars?_zero_skip hbase hc h)
  induction front with
  | nil => exact .inl h
  | cons c front ih =>
    obtain ⟨hc, hrest⟩ := List.forall_mem_cons.mp hfront
    rcases hc with rfl | rfl
    · rw [List.cons_append, intChars?_blank_cons] at h
      exact ih hrest h
    · exact .inr (hskip front hrest h)

theorem intChars?_cons (hsp : isNumSpace c = false) (hplus : c ≠ '+') (hminus : c ≠ '-')
    (hzero : c ≠ '0') : intChars? base (c :: cs) =
      (natBody? base (c :: rtrim isNumSpace cs)).map Int.ofNat := by
  have hdrop : dropBasePrefix base (c :: rtrim isNumSpace cs) = c :: rtrim isNumSpace cs := by
    unfold dropBasePrefix
    split
    · case h_1 hcons => exact absurd (List.cons.inj hcons).1 hzero
    · rfl
  unfold intChars?
  rw [trim_cons_of_neg hsp]
  split
  · case h_1 hcons => exact absurd (List.cons.inj hcons).1 hminus
  · case h_2 hcons => exact absurd (List.cons.inj hcons).1 hplus
  · rw [hdrop]

theorem intChars?_of_blank (hsp : isNumSpace c = true) (hnil : rtrim isNumSpace cs = []) :
    intChars? base (c :: cs) = none := by
  have htrim : trim isNumSpace (c :: cs) = [] := by
    rw [trim_cons_of_pos hsp]
    refine trim_eq_nil fun d hd => ?_
    have hall : cs.reverse.dropWhile isNumSpace = [] := List.reverse_eq_nil_iff.mp hnil
    exact List.dropWhile_eq_nil_iff.mp hall d (List.mem_reverse.mpr hd)
  unfold intChars?
  rw [htrim]
  rfl

/-- A numeral that starts with neither is not changed by a zero in front. -/
theorem intChars?_zero_agrees (hbase : 0 < base) {m : ℤ} (hhead : ∀ c ∈ cs.head?, c ≠ '0')
    (hzero : intChars? base ('0' :: cs) = some n) (h : intChars? base cs = some m) : n = m := by
  rw [intChars?_zero_cons] at hzero
  obtain ⟨k, hk, rfl⟩ := Option.map_eq_some_iff.mp hzero
  cases cs with
  | nil => cases h
  | cons c cs =>
    have hcons : rtrim isNumSpace (c :: cs) = c :: rtrim isNumSpace cs := by
      cases hsp : isNumSpace c with
      | true =>
        rcases rtrim_cons_of_pos hsp cs with ⟨hnil, -⟩ | hcons
        · rw [intChars?_of_blank hsp hnil] at h
          cases h
        · exact hcons
      | false => exact rtrim_cons_of_neg hsp cs
    rw [hcons] at hk
    by_cases hx : base = 16 ∧ (c = 'x' ∨ c = 'X')
    · -- without the zero the letter is no digit
      obtain ⟨rfl, hx⟩ := hx
      exfalso
      rcases hx with rfl | rfl
      · rw [intChars?_cons (by decide) (by decide) (by decide) (by decide)] at h
        obtain ⟨k', hk', -⟩ := Option.map_eq_some_iff.mp h
        exact absurd (digit?_of_natBody hk' List.mem_cons_self) (by decide)
      · rw [intChars?_cons (by decide) (by decide) (by decide) (by decide)] at h
        obtain ⟨k', hk', -⟩ := Option.map_eq_some_iff.mp h
        exact absurd (digit?_of_natBody hk' List.mem_cons_self) (by decide)
    · have hdrop : dropBasePrefix base ('0' :: c :: rtrim isNumSpace cs) =
          '0' :: c :: rtrim isNumSpace cs := if_neg hx
      rw [hdrop] at hk
      have hspecial : isNumSpace c = false ∧ c ≠ '+' ∧ c ≠ '-' := by
        rcases digit?_of_natBody hk (List.mem_cons_of_mem _ List.mem_cons_self) with rfl | hdigit
        · decide
        · obtain ⟨hsp, hrest⟩ := not_special_of_digit? hdigit
          exact ⟨by rw [isNumSpace, hsp, Bool.false_and], hrest⟩
      obtain ⟨hsp, hplus, hminus⟩ := hspecial
      rw [intChars?_cons hsp hplus hminus (hhead c rfl)] at h
      obtain ⟨k', hk', rfl⟩ := Option.map_eq_some_iff.mp h
      have hu : c ≠ '_' := by
        rintro rfl
        have hsplit : ('_' :: rtrim isNumSpace cs).splitOn '_' =
            [] :: (rtrim isNumSpace cs).splitOn '_' := by
          rw [List.splitOn_cons_eq_if_modifyHead, if_pos (beq_self_eq_true '_')]
        rw [natBody?, hsplit, if_neg (by simp)] at hk'
        cases hk'
      rw [natBody?_zero_cons hbase hu, hk'] at hk
      rw [Option.some.inj hk]

/-- Texts that differ in leading blanks and zeros only are one number. -/
theorem int_eq_of_lstrip (hbase : 0 < base) {a b : String} {m : ℤ}
    (hstrip : lstrip [' ', '0'] a = lstrip [' ', '0'] b) (ha : int base a = .ok n)
    (hb : int base b = .ok m) : n = m := by
  have hint : ∀ {s : String} {k : ℤ}, int base s = .ok k → intChars? base s.toList = some k := by
    intro s k hk
    unfold int at hk
    split at hk
    · case h_1 hsome => rw [hsome, Except.ok.inj hk]
    · cases hk
  have hfront : ∀ {s : String} {k : ℤ}, int base s = .ok k →
      intChars? base (lstrip [' ', '0'] s).toList = some k ∨
        intChars? base ('0' :: (lstrip [' ', '0'] s).toList) = some k := by
    intro s k hk
    have hall : ∀ c ∈ s.toList.takeWhile (· ∈ [' ', '0']), c = ' ' ∨ c = '0' := fun c hc => by
      have hmem := List.mem_takeWhile_imp hc
      simpa using hmem
    apply intChars?_of_append hbase hall
    rw [lstrip, String.toList_ofList, List.takeWhile_append_dropWhile]
    exact hint hk
  have hhead : ∀ c ∈ (lstrip [' ', '0'] b).toList.head?, c ≠ '0' := by
    intro c hc
    rw [lstrip, String.toList_ofList] at hc
    have hnot := List.head?_dropWhile_not (fun c => decide (c ∈ [' ', '0'])) b.toList
    rw [Option.mem_def.mp hc] at hnot
    rintro rfl
    simp at hnot
  have ha := hfront ha
  have hb := hfront hb
  rw [hstrip] at ha
  rcases ha with ha | ha
  · rcases hb with hb | hb
    · exact Option.some.inj (ha.symm.trans hb)
    · exact (intChars?_zero_agrees hbase hhead hb ha).symm
  · rcases hb with hb | hb
    · exact intChars?_zero_agrees hbase hhead ha hb
    · exact Option.some.inj (ha.symm.trans hb)

end Py.Str

namespace Wca

open Py

/-! ## The numbers of a line -/

/-- The number that a row has for a domain. -/
def valueIn (base : ℕ) (row : Row) (domain : String) : Option ℤ :=
  (row.get? domain).bind fun text => (Str.int base text).toOption

/-- The number that a line has for a domain; no line is an empty one. -/
def denoted (base : ℕ) (line : Option String) (domain : String) : Option ℤ :=
  (parseSchemataFileRow (line.getD "")).toOption.bind fun row => valueIn base row domain

def ReadableRow (base : ℕ) (row : Row) : Prop :=
  ∀ domain text, row.get? domain = some text → ∃ n, Str.int base text = .ok n

/-- The line can be parsed, and its values are numbers. -/
def ReadableLine (base : ℕ) (line : Option String) : Prop :=
  ∃ row, parseSchemataFileRow (line.getD "") = .ok row ∧ ReadableRow base row

/-- The domain is one of the line. -/
def Names (line : Option String) (domain : String) : Prop :=
  ∃ row, parseSchemataFileRow (line.getD "") = .ok row ∧ domain ∈ row.keys

/-- The new value where the request names the domain, and the current value otherwise. -/
def mergedValue (base : ℕ) (current new : Option String) (domain : String) : Option ℤ :=
  (denoted base new domain).or (denoted base current domain)

/-- Some domain of the new line has another number in the current one. -/
def ValueDiffers (base : ℕ) (current new : Option String) : Prop :=
  ∃ domain n, denoted base new domain = some n ∧ denoted base current domain ≠ some n

/-- The new line, if there is one, names every domain of the current one; an empty new line is not
compared with none. -/
def NamesAll (current new : Option String) : Prop :=
  (new = some "" → current ≠ none) ∧
    (truthy new = true → ∀ domain, Names current domain → Names new domain)

section Line

variable {base : ℕ} {current new line : Option String} {domain : String}

theorem denoted_of_parse {row : Row} (h : parseSchemataFileRow (line.getD "") = .ok row) :
    denoted base line domain = valueIn base row domain := by
  rw [denoted, h]
  rfl

theorem ReadableRow.valueIn_eq_some_iff {row : Row} (h : ReadableRow base row) {n : ℤ} :
    valueIn base row domain = some n ↔
      ∃ text, row.get? domain = some text ∧ Str.int base text = .ok n := by
  rw [valueIn, Option.bind_eq_some_iff]
  constructor
  · rintro ⟨text, hget, hn⟩
    obtain ⟨m, hm⟩ := h domain text hget
    rw [hm] at hn
    exact ⟨text, hget, by rw [hm, ← Option.some.inj hn]⟩
  · rintro ⟨text, hget, hn⟩
    exact ⟨text, hget, by rw [hn]; rfl⟩

theorem ReadableLine.names_iff (h : ReadableLine base line) :
    Names line domain ↔ ∃ n, denoted base line domain = some n := by
  obtain ⟨row, hrow, hvalues⟩ := h
  rw [denoted_of_parse hrow]
  constructor
  · rintro ⟨row', hrow', hkey⟩
    rw [hrow] at hrow'
    cases hrow'
    obtain ⟨text, hget⟩ := Dict.mem_keys_iff_get?.mp hkey
    obtain ⟨n, hn⟩ := hvalues domain text hget
    exact ⟨n, hvalues.valueIn_eq_some_iff.mpr ⟨text, hget, hn⟩⟩
  · rintro ⟨n, hn⟩
    obtain ⟨text, hget, -⟩ := hvalues.valueIn_eq_some_iff.mp hn
    exact ⟨row, hrow, Dict.mem_keys_iff_get?.mpr ⟨text, hget⟩⟩

theorem ReadableLine.wellFormedLine (h : ReadableLine base line) : WellFormedLine line := by
  rintro l rfl
  obtain ⟨row, hrow, -⟩ := h
  exact ⟨row, hrow⟩

theorem denoted_of_not_truthy (h : truthy line = false) : denoted base line domain = none := by
  have hempty : line.getD "" = "" := by
    cases line with
    | none => rfl
    | some l => exact not_not.mp (of_decide_eq_false h)
  exact denoted_of_parse (by rw [hempty]; rfl)

/-- Values that the comparison takes for equal are equal numbers. -/
theorem eq_of_isEqual (hbase : 0 < base) {a b : String} {n m : ℤ} (h : isEqual a b = true)
    (ha : Str.int base a = .ok n) (hb : Str.int base b = .ok m) : n = m :=
  Str.int_eq_of_lstrip hbase (of_decide_eq_true h) ha hb

/-- A number that differs is spelled differently. -/
theorem lineDiffers_of_valueDiffers (hbase : 0 < base) (hn : ReadableLine base new)
    (hc : ReadableLine base current) (hsub : ∀ domain, Names new domain → Names current domain)
    (h : ValueDiffers base current new) : LineDiffers current new := by
  obtain ⟨domain, n, hnew, hne⟩ := h
  obtain ⟨m, hm⟩ := hc.names_iff.mp (hsub domain (hn.names_iff.mpr ⟨n, hnew⟩))
  obtain ⟨rn, hrn, hvn⟩ := hn
  obtain ⟨rc, hrc, hvc⟩ := hc
  rw [denoted_of_parse hrn] at hnew
  rw [denoted_of_parse hrc] at hm hne
  obtain ⟨newValue, hgetn, hintn⟩ := hvn.valueIn_eq_some_iff.mp hnew
  obtain ⟨value, hgetc, hintc⟩ := hvc.valueIn_eq_some_iff.mp hm
  have hequal : isEqual value newValue = false := by
    refine Bool.eq_false_iff.mpr fun hequal => hne ?_
    rw [hm, eq_of_isEqual hbase hequal hintc hintn]
  cases current with
  | none =>
    cases hrc
    cases hgetc
  | some c =>
    cases new with
    | none =>
      cases hrn
      cases hgetn
    | some n' => exact ⟨c, n', rc, rn, domain, value, newValue, rfl, rfl, hrc, hrn, hgetc, hgetn, hequal⟩

/-- Without such a difference the merge is the current allocation. -/
theorem mergedValue_of_not_valueDiffers (h : ¬ ValueDiffers base current new) :
    mergedValue base current new domain = denoted base current domain := by
  unfold mergedValue
  cases hn : denoted base new domain with
  | none => rfl
  | some n => exact (not_not.mp fun hne => h ⟨domain, n, hn, hne⟩).symm

theorem mergedValue_eq_current_iff :
    (∀ domain, mergedValue base current new domain = denoted base current domain) ↔
      ¬ ValueDiffers base current new := by
  refine ⟨fun h => ?_, fun h domain => mergedValue_of_not_valueDiffers h⟩
  rintro ⟨domain, n, hn, hne⟩
  apply hne
  rw [← h domain, mergedValue, hn]
  rfl

/-- The line of the target has the values of the merge when the new line names all the domains. -/
theorem orElse_denotes_iff (hn : ReadableLine base new) (hc : ReadableLine base current) :
    (∀ domain, denoted base (RDTAllocationValue.orElse new current) domain =
      mergedValue base current new domain) ↔
    (truthy new = true → ∀ domain, Names current domain → Names new domain) := by
  cases ht : truthy new with
  | true =>
    rw [RDTAllocationValue.orElse_of_truthy ht]
    refine ⟨fun h _ domain hname => ?_, fun h domain => ?_⟩
    · obtain ⟨m, hm⟩ := hc.names_iff.mp hname
      have hdomain := h domain
      rw [mergedValue, hm] at hdomain
      refine hn.names_iff.mpr ?_
      cases hd : denoted base new domain with
      | none => rw [hd] at hdomain; cases hdomain
      | some n => exact ⟨n, rfl⟩
    · rw [mergedValue]
      cases hd : denoted base new domain with
      | some n => rfl
      | none =>
        cases hm : denoted base current domain with
        | none => rfl
        | some m =>
          obtain ⟨n, hn'⟩ := hn.names_iff.mp (h rfl domain (hc.names_iff.mpr ⟨m, hm⟩))
          rw [hd] at hn'
          cases hn'
  | false =>
    rw [RDTAllocationValue.orElse_of_not_truthy ht]
    refine ⟨fun _ h => absurd h Bool.false_ne_true, fun _ domain => ?_⟩
    rw [mergedValue, denoted_of_not_truthy ht]
    rfl

/-- The comparison returns once an empty line is not compared with none. -/
theorem covers_of_names (hn : ReadableLine base new)
    (hsub : ∀ domain, Names new domain → Names current domain)
    (hempty : new = some "" → current ≠ none) : Covers current new := by
  rintro n rfl
  cases current with
  | some c =>
    refine ⟨c, rfl, fun rc rn hrc hrn domain hkey => ?_⟩
    obtain ⟨row, hrow, hmem⟩ := hsub domain ⟨rn, hrn, hkey⟩
    have hsame := hrc.symm.trans hrow
    rw [Except.ok.inj hsame]
    exact hmem
  | none =>
    exfalso
    by_cases hne : n = ""
    · exact hempty (by rw [hne]) rfl
    · obtain ⟨row, hrow, -⟩ := hn
      obtain ⟨hsplit, -⟩ := (parseSchemataFileRow_ok_iff hne).mp hrow
      have hitems : row.items ≠ [] := fun hnil => by
        rw [hnil] at hsplit
        exact absurd hsplit (by simp [Str.split])
      obtain ⟨item, rest, hcons⟩ := List.exists_cons_of_ne_nil hitems
      have hkey : item.1 ∈ row.keys := Dict.mem_keys.mpr ⟨item.2, hcons ▸ List.mem_cons_self⟩
      obtain ⟨row', hrow', hmem⟩ := hsub item.1 ⟨row, hrow, hkey⟩
      cases hrow'
      cases hmem

end Line

/-! ## The state of the hardware -/

/-- The number that the schemata file of a group shows for a domain of a resource. -/
def shown (base : ℕ) (r : Resctrl) (group resource domain : String) : Option ℤ :=
  ((r.groups.get? group).bind fun g => g.schemata.get? resource).bind fun row =>
    valueIn base row domain

/-- The schemata file of the group shows these numbers. -/
def ShowsValues (r : Resctrl) (group : String) (l3 mb : String → Option ℤ) : Prop :=
  (∀ domain, shown 16 r group "L3" domain = l3 domain) ∧
    ∀ domain, shown 10 r group "MB" domain = mb domain

section Hardware

variable {base : ℕ} {r r' : Resctrl} {group resource rest : String} {row : Row}

theorem valueIn_update {old : Row} (hrow : ReadableRow base row) (domain : String) :
    valueIn base (old.update row) domain =
      (valueIn base row domain).or (valueIn base old domain) := by
  unfold valueIn
  rw [Dict.get?_update]
  cases hget : row.get? domain with
  | none => rfl
  | some text =>
    obtain ⟨n, hn⟩ := hrow domain text hget
    simp [hn, Except.toOption]

/-- A line changes the domains it names, of its resource. -/
theorem shown_writeLine (hres : ':' ∉ resource.toList) (hgroup : group ∈ r.groups)
    (hrow : parseSchemataFileRow (resource ++ ":" ++ rest) = .ok row) (hread : ReadableRow base row)
    (domain : String) :
    shown base (Resctrl.writeLine group (resource ++ ":" ++ rest) r) group resource domain =
      (valueIn base row domain).or (shown base r group resource domain) := by
  obtain ⟨g, hg⟩ := Dict.mem_keys_iff_get?.mp hgroup
  have hbefore : Str.beforeFirst ':' (resource ++ ":" ++ rest) = resource :=
    Str.beforeFirst_of_not_mem hres
  unfold shown Resctrl.writeLine
  simp only [hg, hrow, hbefore, Dict.get?_set, if_true, Option.bind_some]
  rw [valueIn_update hread]
  cases g.schemata.get? resource with
  | none => rfl
  | some old => rfl

theorem shown_writeLine_of_ne (hres : ':' ∉ resource.toList) {other : String}
    (hother : other ≠ resource) (domain : String) :
    shown base (Resctrl.writeLine group (resource ++ ":" ++ rest) r) group other domain =
      shown base r group other domain := by
  have hbefore : Str.beforeFirst ':' (resource ++ ":" ++ rest) = resource :=
    Str.beforeFirst_of_not_mem hres
  unfold shown Resctrl.writeLine
  split
  · case h_1 g row hg hrow =>
    simp only [hg, hbefore, Dict.get?_set, if_true, if_neg hother, Option.bind_some]
  · rfl

theorem mem_groups_writeLine (line : String) (h : group ∈ r.groups) :
    group ∈ (Resctrl.writeLine group line r).groups := by
  unfold Resctrl.writeLine
  split
  · exact Dict.mem_keys_set.mpr (.inl rfl)
  · exact h

/-- The loop body of `writeSchemata`. -/
def writeStep (containerName group : String) (r : Resctrl) (line : String) : Resctrl :=
  { Resctrl.writeLine group line r with
    schemataWrites := r.schemataWrites ++ [⟨containerName, group, line⟩] }

/-- The line is one of the resource, whose control is enabled. -/
def LineOf (base : ℕ) (resource : String) (enabled : Bool) (line : Option String) : Prop :=
  ReadableLine base line ∧
    (truthy line = true → enabled = true ∧ ∃ rest, line = some (resource ++ ":" ++ rest))

/-- Writing a line, if it is given, updates its resource and no other. -/
theorem shown_writeStep {line : Option String} {enabled : Bool} {containerName : String}
    (hline : LineOf base resource enabled line) (hres : ':' ∉ resource.toList)
    {lines : List String} (hgroup : lines ≠ [] → group ∈ r.groups)
    (hlines : lines = if truthy line ∧ enabled then line.toList else [])
    (hr' : r' = lines.foldl (writeStep containerName group) r) :
    (group ∈ r.groups → group ∈ r'.groups) ∧
      (∀ domain, shown base r' group resource domain =
        (denoted base line domain).or (shown base r group resource domain)) ∧
      ∀ base' other domain, other ≠ resource →
        shown base' r' group other domain = shown base' r group other domain := by
  obtain ⟨⟨row, hrow, hread⟩, hgiven⟩ := hline
  cases ht : truthy line with
  | true =>
    obtain ⟨henabled, rest, rfl⟩ := hgiven ht
    rw [if_pos ⟨ht, henabled⟩] at hlines
    subst hlines hr'
    have hgroup : group ∈ r.groups := hgroup (List.cons_ne_nil _ _)
    refine ⟨mem_groups_writeLine _, fun domain => ?_, fun base' other domain hother => ?_⟩
    · rw [denoted_of_parse hrow]
      exact shown_writeLine hres hgroup hrow hread domain
    · exact shown_writeLine_of_ne hres hother domain
  | false =>
    rw [if_neg fun h => by rw [ht] at h; exact Bool.false_ne_true h.1] at hlines
    subst hlines hr'
    refine ⟨id, fun domain => ?_, fun _ _ _ _ => rfl⟩
    rw [denoted_of_not_truthy ht]
    rfl

/-- Writing the lines of a value updates what the schemata file of its group shows. -/
theorem ShowsValues.writeLines {c : RDTAllocationValue} {g : ResGroup} {u : Unit}
    {l3 mb : String → Option ℤ} (hgroup : c.resgroup = some g)
    (hl3 : LineOf 16 "L3" c.rdtInformation.rdtCacheControlEnabled c.rdtAllocation.l3)
    (hmb : LineOf 10 "MB" c.rdtInformation.rdtMbControlEnabled c.rdtAllocation.mb)
    (h : c.writeLines.run r = .ok u r') (hshows : ShowsValues r g.name l3 mb) :
    ShowsValues r' g.name (fun domain => (denoted 16 c.rdtAllocation.l3 domain).or (l3 domain))
      fun domain => (denoted 10 c.rdtAllocation.mb domain).or (mb domain) := by
  have hall : (c.schemataLines ≠ [] → g.name ∈ r.groups) ∧
      r' = c.schemataLines.foldl (writeStep c.containerName g.name) r := by
    unfold RDTAllocationValue.writeLines at h
    rw [hgroup] at h
    rcases doIf_ok_iff.mp h with ⟨-, hwrite⟩ | ⟨hnil, rfl⟩
    · unfold ResGroup.writeSchemata at hwrite
      rw [bind_of_ok (get_run r)] at hwrite
      split at hwrite
      · case isTrue hmem =>
        rw [set_run] at hwrite
        cases hwrite
        exact ⟨fun _ => hmem, rfl⟩
      · cases hwrite
    · rw [not_not.mp hnil]
      exact ⟨fun hne => absurd rfl hne, rfl⟩
  obtain ⟨hmem, hr'⟩ := hall
  rw [RDTAllocationValue.schemataLines, List.foldl_append] at hr'
  -- first the l3 line, then the mb line
  obtain ⟨hmem₁, hself₁, hother₁⟩ := @shown_writeStep 16 r _ g.name "L3" _ _ c.containerName hl3
    (by decide) _ (fun hne => hmem (List.append_ne_nil_of_left_ne_nil hne _)) rfl rfl
  obtain ⟨-, hself₂, hother₂⟩ := @shown_writeStep 10 _ r' g.name "MB" _ _ c.containerName hmb
    (by decide) _ (fun hne => hmem₁ (hmem (List.append_ne_nil_of_right_ne_nil _ hne))) rfl hr'
  constructor
  · intro domain
    rw [hother₂ 16 "L3" domain (by decide), hself₁, hshows.1]
  · intro domain
    rw [hself₂, hother₁ 10 "MB" domain (by decide), hshows.2]

end Hardware

/-! ## Partial requests -/

/-- An accepted request for some of the domains of its group, on one platform. -/
structure PartialRequest (new current : RDTAllocationValue) : Prop where
  valid : ∃ h h', new.validate.run h = .ok () h'
  sameGroup : current.getResgroupName = new.getResgroupName
  samePlatform : current.rdtInformation = new.rdtInformation
  readableL3 : ReadableLine 16 current.rdtAllocation.l3
  readableMb : ReadableLine 10 current.rdtAllocation.mb
  subsetL3 : ∀ domain, Names new.rdtAllocation.l3 domain → Names current.rdtAllocation.l3 domain
  subsetMb : ∀ domain, Names new.rdtAllocation.mb domain → Names current.rdtAllocation.mb domain

section Valid

variable {sockets : ℕ} {line : String}

theorem readableRow_of_values {base : ℕ} {row : Row}
    (h : ∀ text ∈ row.values, ∃ n, Str.int base text = .ok n) : ReadableRow base row :=
  fun domain text hget => h text (Dict.mem_values.mpr ⟨domain, Dict.get?_eq_some_iff.mp hget⟩)

theorem readable_of_not_truthy {base : ℕ} {line : Option String} (h : truthy line = false) :
    ReadableLine base line := by
  refine ⟨∅, ?_, fun domain text hget => absurd hget (Option.some_ne_none text).symm⟩
  cases line with
  | none => rfl
  | some l =>
    have hempty : l = "" := not_not.mp (of_decide_eq_false h)
    rw [hempty]
    rfl

/-- The masks of an accepted line are numbers. -/
theorem of_validateL3String {cbmMask minCbmBits : Option String}
    (h : validateL3String line sockets cbmMask minCbmBits = .ok ()) :
    ReadableLine 16 (some line) ∧ ∃ rest, line = "L3" ++ ":" ++ rest := by
  unfold validateL3String at h
  split at h
  · obtain ⟨hstarts, h⟩ := except_seq_ok_iff.mp h
    obtain ⟨row, hparse, h⟩ := except_bind_ok_iff.mp h
    obtain ⟨-, h⟩ := except_seq_ok_iff.mp h
    have hstarts := not_not.mp fun hnot => by cases except_doIf_ok_iff.mp hstarts hnot
    refine ⟨⟨row, liftM_ok_iff.mp hparse, readableRow_of_values fun text htext => ?_⟩,
      Str.exists_of_startsWith hstarts⟩
    obtain ⟨n, hn, -⟩ := except_bind_ok_iff.mp (except_forM_ok_iff.mp h text htext)
    exact ⟨n, liftM_ok_iff.mp hn⟩
  · cases h

/-- The bandwidths of a line that can be normalized are numbers. -/
theorem of_normalizeMbString {norm : String} {minBandwidth gran : Option ℤ}
    (h : normalizeMbString line sockets minBandwidth gran = .ok norm) :
    ReadableLine 10 (some line) ∧ ∃ rest, line = "MB" ++ ":" ++ rest := by
  unfold normalizeMbString at h
  split at h
  · obtain ⟨hstarts, h⟩ := except_seq_ok_iff.mp h
    obtain ⟨row, hparse, h⟩ := except_bind_ok_iff.mp h
    obtain ⟨-, h⟩ := except_seq_ok_iff.mp h
    obtain ⟨texts, htexts, -⟩ := except_bind_ok_iff.mp h
    have hstarts := not_not.mp fun hnot => by cases except_doIf_ok_iff.mp hstarts hnot
    refine ⟨⟨row, liftM_ok_iff.mp hparse, readableRow_of_values fun text htext => ?_⟩,
      Str.exists_of_startsWith hstarts⟩
    obtain ⟨domain, hmem⟩ := Dict.mem_values.mp htext
    obtain ⟨normalized, -, hnormalized⟩ := forall₂_exists_right (except_mapM_ok_iff.mp htexts) hmem
    obtain ⟨n, hn, -⟩ := except_bind_ok_iff.mp hnormalized
    cases hint : Str.int 10 text with
    | error e => rw [hint] at hn; cases hn
    | ok n => exact ⟨n, rfl⟩
  · cases h

variable {new current : RDTAllocationValue}

theorem PartialRequest.lineOf (h : PartialRequest new current) :
    LineOf 16 "L3" new.rdtInformation.rdtCacheControlEnabled new.rdtAllocation.l3 ∧
      LineOf 10 "MB" new.rdtInformation.rdtMbControlEnabled new.rdtAllocation.mb := by
  obtain ⟨heap, heap', hvalid⟩ := h.valid
  obtain ⟨u, h₀, hlines, -⟩ := bind_ok_iff.mp hvalid
  obtain ⟨hok, -⟩ := run_liftM_ok_iff.mp hlines
  obtain ⟨hl3, hmb⟩ := except_seq_ok_iff.mp hok
  constructor
  · cases ht : truthy new.rdtAllocation.l3 with
    | false => exact ⟨readable_of_not_truthy ht, fun h => absurd h (by rw [ht]; exact Bool.false_ne_true)⟩
    | true =>
      obtain ⟨henabled, hstring⟩ := except_seq_ok_iff.mp (except_doIf_ok_iff.mp hl3 ht)
      have henabled := not_not.mp fun hnot => by cases except_doIf_ok_iff.mp henabled hnot
      cases hline : new.rdtAllocation.l3 with
      | none => rw [hline] at ht; cases ht
      | some line =>
        rw [hline] at hstring
        obtain ⟨hread, rest, hrest⟩ := of_validateL3String hstring
        exact ⟨hread, fun _ => ⟨henabled, rest, congrArg some hrest⟩⟩
  · cases ht : truthy new.rdtAllocation.mb with
    | false => exact ⟨readable_of_not_truthy ht, fun h => absurd h (by rw [ht]; exact Bool.false_ne_true)⟩
    | true =>
      obtain ⟨henabled, hnormalize⟩ := except_seq_ok_iff.mp (except_doIf_ok_iff.mp hmb ht)
      have henabled := not_not.mp fun hnot => by cases except_doIf_ok_iff.mp henabled hnot
      obtain ⟨norm, hnorm, -⟩ := except_bind_ok_iff.mp hnormalize
      cases hline : new.rdtAllocation.mb with
      | none => rw [hline] at ht; cases ht
      | some line =>
        rw [hline] at hnorm
        obtain ⟨hread, rest, hrest⟩ := of_normalizeMbString hnorm
        exact ⟨hread, fun _ => ⟨henabled, rest, congrArg some hrest⟩⟩

end Valid

/-- Once the lines of the changeset are written, the schemata file shows the merge. -/
def EndsMerged (new current : RDTAllocationValue) (change : Option RDTAllocationValue) : Prop :=
  ∀ g r r', current.resgroup = some g →
    ShowsValues r g.name (denoted 16 current.rdtAllocation.l3) (denoted 10 current.rdtAllocation.mb) →
    (change = none → r' = r) → (∀ c, change = some c → c.writeLines.run r = .ok () r') →
    ShowsValues r' g.name (mergedValue 16 current.rdtAllocation.l3 new.rdtAllocation.l3)
      (mergedValue 10 current.rdtAllocation.mb new.rdtAllocation.mb)

/-- The target has the values of the merge, with which the hardware ends, and there is nothing to
be done exactly if they are those of the current allocation. -/
def Merges (new current : RDTAllocationValue) : Prop :=
  ∃ target change, new.calculateChangeset (some current) = .ok (target, change) ∧
    (∀ domain, denoted 16 target.rdtAllocation.l3 domain =
      mergedValue 16 current.rdtAllocation.l3 new.rdtAllocation.l3 domain) ∧
    (∀ domain, denoted 10 target.rdtAllocation.mb domain =
      mergedValue 10 current.rdtAllocation.mb new.rdtAllocation.mb domain) ∧
    EndsMerged new current change ∧
    (change = none ↔
      (∀ domain, denoted 16 target.rdtAllocation.l3 domain =
        denoted 16 current.rdtAllocation.l3 domain) ∧
      ∀ domain, denoted 10 target.rdtAllocation.mb domain =
        denoted 10 current.rdtAllocation.mb domain)

section Merge

variable {new current : RDTAllocationValue}

/-- The changed line over the current one is the merge. -/
theorem RDTAllocationValue.ChangedLine.merges {base : ℕ} {line newLine changed : Option String}
    (h : RDTAllocationValue.ChangedLine line newLine changed) (hbase : 0 < base)
    (hn : ReadableLine base newLine) (hc : ReadableLine base line)
    (hsub : ∀ domain, Names newLine domain → Names line domain) (domain : String) :
    (denoted base changed domain).or (denoted base line domain) =
      mergedValue base line newLine domain := by
  by_cases hd : LineDiffers line newLine
  · rw [h.1 hd]
    rfl
  · have hsame : ¬ ValueDiffers base line newLine := fun hv =>
      hd (lineDiffers_of_valueDiffers hbase hn hc hsub hv)
    rw [h.2 hd, mergedValue_of_not_valueDiffers hsame, denoted_of_not_truthy rfl]
    rfl

theorem RDTAllocationValue.ChangedLine.lineOf {base : ℕ} {resource : String} {enabled : Bool}
    {line newLine changed : Option String}
    (h : RDTAllocationValue.ChangedLine line newLine changed)
    (hn : LineOf base resource enabled newLine) : LineOf base resource enabled changed := by
  by_cases hd : LineDiffers line newLine
  · rwa [h.1 hd]
  · rw [h.2 hd]
    exact ⟨readable_of_not_truthy rfl, fun ht => absurd ht Bool.false_ne_true⟩

/-- What a partial request comes to once the comparison returns. -/
theorem endsMerged_of_comparison (h : PartialRequest new current)
    (hl3 : new.rdtAllocation.l3 = some "" → current.rdtAllocation.l3 ≠ none)
    (hmb : new.rdtAllocation.mb = some "" → current.rdtAllocation.mb ≠ none) :
    ∃ target change, new.calculateChangeset (some current) = .ok (target, change) ∧
      target.rdtAllocation.l3 =
        RDTAllocationValue.orElse new.rdtAllocation.l3 current.rdtAllocation.l3 ∧
      target.rdtAllocation.mb =
        RDTAllocationValue.orElse new.rdtAllocation.mb current.rdtAllocation.mb ∧
      EndsMerged new current change ∧
      (change = none ↔ ¬ LineDiffers current.rdtAllocation.l3 new.rdtAllocation.l3 ∧
        ¬ LineDiffers current.rdtAllocation.mb new.rdtAllocation.mb) := by
  obtain ⟨hlineL3, hlineMb⟩ := h.lineOf
  obtain ⟨newL3, newMb, h₁, h₂, hm⟩ := RDTAllocationValue.mergeInto_ok
    ⟨hlineL3.1.wellFormedLine, hlineMb.1.wellFormedLine⟩
    ⟨h.readableL3.wellFormedLine, h.readableMb.wellFormedLine⟩
    (covers_of_names hlineL3.1 h.subsetL3 hl3) (covers_of_names hlineMb.1 h.subsetMb hmb)
  have hmergedL3 := h₁.merges (by decide) hlineL3.1 h.readableL3 h.subsetL3
  have hmergedMb := h₂.merges (by decide) hlineMb.1 h.readableMb h.subsetMb
  refine ⟨_, _, (RDTAllocationValue.calculateChangeset_of_sameGroup h.sameGroup).trans hm, rfl, rfl,
    fun g r r' hgroup hshows hnone hsome => ?_, ?_⟩
  · by_cases ht : truthy newL3 = true ∨ truthy newMb = true
    · have hwrite := hsome _ (if_pos ht)
      have hlineL3 := h₁.lineOf hlineL3
      have hlineMb := h₂.lineOf hlineMb
      rw [← h.samePlatform] at hlineL3 hlineMb
      obtain ⟨hshowsL3, hshowsMb⟩ := @ShowsValues.writeLines r r'
        (current.copy ⟨new.rdtAllocation.name, newL3, newMb⟩ none none) g () _ _ hgroup hlineL3
        hlineMb hwrite hshows
      exact ⟨fun domain => (hshowsL3 domain).trans (hmergedL3 domain),
        fun domain => (hshowsMb domain).trans (hmergedMb domain)⟩
    · obtain ⟨htL3, htMb⟩ := not_or.mp ht
      rw [hnone (if_neg ht)]
      refine ⟨fun domain => ?_, fun domain => ?_⟩
      · rw [hshows.1, ← hmergedL3, denoted_of_not_truthy (Bool.eq_false_iff.mpr htL3)]
        rfl
      · rw [hshows.2, ← hmergedMb, denoted_of_not_truthy (Bool.eq_false_iff.mpr htMb)]
        rfl
  · rw [← h₁.truthy_iff, ← h₂.truthy_iff, ← not_or]
    split
    · case isTrue ht => exact ⟨fun hc => absurd hc (Option.some_ne_none _), fun hnot => absurd ht hnot⟩
    · case isFalse ht => exact ⟨fun _ => ht, fun _ => rfl⟩

/-- An empty line cannot be compared with none. -/
theorem ne_none_of_mergeInto {p : RDTAllocationValue × Option RDTAllocationValue}
    (h : new.mergeInto current = .ok p) :
    (new.rdtAllocation.l3 = some "" → current.rdtAllocation.l3 ≠ none) ∧
      (new.rdtAllocation.mb = some "" → current.rdtAllocation.mb ≠ none) := by
  unfold RDTAllocationValue.mergeInto at h
  obtain ⟨b₁, h₁, h⟩ := except_bind_ok_iff.mp h
  obtain ⟨b₂, h₂, -⟩ := except_bind_ok_iff.mp h
  constructor
  · intro hnew hcurrent
    rw [hnew, hcurrent] at h₁
    cases h₁
  · intro hnew hcurrent
    rw [hnew, hcurrent] at h₂
    cases h₂

end Merge

/-! ### Requests for a bandwidth -/

section

variable {current new : String} {rc rn : Row}

theorem not_names_none (domain : String) : ¬ Names none domain := by
  rintro ⟨row, hrow, hkey⟩
  cases hrow
  cases hkey

theorem names_iff_of_parse (h : parseSchemataFileRow current = .ok rc) {domain : String} :
    Names (some current) domain ↔ domain ∈ rc.keys := by
  constructor
  · rintro ⟨row, hrow, hkey⟩
    rw [Option.getD_some, h] at hrow
    cases hrow
    exact hkey
  · exact fun hkey => ⟨rc, h, hkey⟩

theorem denoted_some (h : parseSchemataFileRow current = .ok rc) {base : ℕ} {domain : String} :
    denoted base (some current) domain = valueIn base rc domain := by
  rw [denoted, Option.getD_some, h]
  rfl

theorem partialRequest_bandwidth
    (hvalid : ∃ h', (bandwidthRequest new).validate.run oneRegistry = .ok () h')
    (hrc : parseSchemataFileRow current = .ok rc) (hrn : parseSchemataFileRow new = .ok rn)
    (hvalues : rc.values.all (fun text => (Str.int 10 text).isOk) = true) (hsub : rn.keys ⊆ rc.keys) :
    PartialRequest (bandwidthRequest new) (bandwidthRequest current) where
  valid := ⟨oneRegistry, hvalid⟩
  sameGroup := rfl
  samePlatform := rfl
  readableL3 := readable_of_not_truthy rfl
  readableMb := ⟨rc, hrc, readableRow_of_values fun text htext =>
    except_exists_of_isOk (List.all_eq_true.mp hvalues text htext)⟩
  subsetL3 := fun _ h => absurd h (not_names_none _)
  subsetMb := fun _ h => (names_iff_of_parse hrc).mpr (hsub ((names_iff_of_parse hrn).mp h))

end

end Wca
