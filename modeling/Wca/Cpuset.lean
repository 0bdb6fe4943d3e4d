import Wca.ListFormat
import Wca.CgroupsAllocations

/-!
# The language of cpusets

The list format of cpuset(7) as a grammar (`Denotes`), and what `decodeListformat` makes of texts
outside of it.
-/

namespace Wca

open Py Host

/-! ## The grammar -/

/-- A non-negative decimal number, with blanks around it. -/
inductive IsNumber : String → ℕ → Prop
  | mk {before digits after : List Char} (hbefore : ∀ c ∈ before, Str.isSpace c = true)
      (hne : digits ≠ []) (hdigits : ∀ c ∈ digits, c.isDigit = true)
      (hafter : ∀ c ∈ after, Str.isSpace c = true) :
      IsNumber (.ofList (before ++ digits ++ after)) (Nat.ofDigitChars 10 digits 0)

/-- One item of the list: a number, or a range whose first number is not the greater one. -/
inductive ListItem : String → Finset ℤ → Prop
  | number {text n} (hn : IsNumber text n) : ListItem text {(n : ℤ)}
  | range {first last m n s} (hm : IsNumber first m) (hn : IsNumber last n) (hmn : m ≤ n)
      (hs : ∀ k : ℤ, k ∈ s ↔ (m : ℤ) ≤ k ∧ k ≤ n) : ListItem (first ++ "-" ++ last) s

/-- Items with commas between them. -/
inductive ListItems : String → Finset ℤ → Prop
  | last {text s} (hs : ListItem text s) : ListItems text s
  | cons {text s rest t} (hs : ListItem text s) (ht : ListItems rest t) :
      ListItems (text ++ "," ++ rest) (s ∪ t)

/-- The set that a text in the list format stands for; a blank text is the empty set. -/
inductive Denotes : String → Finset ℤ → Prop
  | blank {value : String} (h : ∀ c ∈ value.toList, Str.isSpace c = true) : Denotes value ∅
  | items {value s} (h : ListItems value s) : Denotes value s

/-! ### Numbers -/

theorem IsNumber.strip {text : String} {n : ℕ} (h : IsNumber text n) :
    ∃ digits : List Char, (Str.strip text).toList = digits ∧ digits ≠ [] ∧
      (∀ c ∈ digits, c.isDigit = true) ∧ n = Nat.ofDigitChars 10 digits 0 := by
  obtain ⟨hbefore, hne, hdigits, hafter⟩ := h
  refine ⟨_, ?_, hne, hdigits, rfl⟩
  rw [Str.strip, String.toList_ofList, String.toList_ofList]
  exact Str.trim_append_append hbefore (fun c hc => Str.isSpace_of_isDigit (hdigits c hc)) hafter

/-- A text whose middle is made of digits is a number. -/
theorem isNumber_of_strip {text : String} (hne : Str.strip text ≠ "")
    (hdigits : ∀ c ∈ (Str.strip text).toList, c.isDigit = true) :
    IsNumber text (Nat.ofDigitChars 10 (Str.strip text).toList 0) := by
  obtain ⟨before, after, htext, hbefore, hafter⟩ := Str.exists_trim Str.isSpace text.toList
  have hmiddle : Str.trim Str.isSpace text.toList = (Str.strip text).toList :=
    String.toList_ofList.symm
  rw [hmiddle] at htext
  have hmk := IsNumber.mk hbefore (mt String.toList_eq_nil_iff.mp hne) hdigits hafter
  rwa [← htext, String.ofList_toList] at hmk

theorem IsNumber.int {text : String} {n : ℕ} (h : IsNumber text n) :
    Str.int 10 (Str.strip text) = .ok (n : ℤ) := by
  obtain ⟨digits, hstrip, hne, hdigits, rfl⟩ := h.strip
  rw [Str.int, hstrip, Str.intChars?_of_isDigit hne hdigits]

/-- A number holds blanks and digits and nothing else. -/
theorem IsNumber.not_mem {text : String} {n : ℕ} (h : IsNumber text n) {c : Char}
    (hspace : Str.isSpace c = false) (hdigit : c.isDigit = false) : c ∉ text.toList := by
  obtain ⟨hbefore, -, hdigits, hafter⟩ := h
  rw [String.toList_ofList, List.mem_append, List.mem_append]
  rintro ((hc | hc) | hc)
  · exact Bool.noConfusion (hspace.symm.trans (hbefore c hc))
  · exact Bool.noConfusion (hdigit.symm.trans (hdigits c hc))
  · exact Bool.noConfusion (hspace.symm.trans (hafter c hc))

/-! ### Items -/

theorem split_range {first last : String} {m n : ℕ} (hm : IsNumber first m) (hn : IsNumber last n) :
    Str.split '-' (first ++ "-" ++ last) = [first, last] := by
  rw [show ("-" : String) = String.ofList ['-'] from rfl, Str.split_append_cons,
    Str.split_of_not_mem (hm.not_mem (by decide) (by decide)),
    Str.split_of_not_mem (hn.not_mem (by decide) (by decide))]
  rfl

theorem ListItem.decodeRange {item : String} {s : Finset ℤ} (h : ListItem item s)
    (cores : Finset ℤ) : decodeRange cores item = .ok (cores ∪ s) := by
  cases h with
  | number hn =>
    have hsplit : Str.split '-' item = [item] :=
      Str.split_of_not_mem (hn.not_mem (by decide) (by decide))
    simp only [Wca.decodeRange, hsplit, hn.int, except_ok_bind, except_pure]
    rw [Finset.union_comm]
    rfl
  | range hm hn hmn hs =>
    have hset : s = rangeSet _ _ := Finset.ext fun k => (hs k).trans mem_rangeSet.symm
    simp only [Wca.decodeRange, split_range hm hn, hm.int, hn.int, except_ok_bind, except_pure, hset]

theorem ListItem.not_comma {item : String} {s : Finset ℤ} (h : ListItem item s) :
    ',' ∉ item.toList := by
  cases h with
  | number hn => exact hn.not_mem (by decide) (by decide)
  | range hm hn =>
    rw [String.toList_append, String.toList_append, List.mem_append, List.mem_append]
    rintro ((hc | hc) | hc)
    · exact hm.not_mem (by decide) (by decide) hc
    · exact absurd hc (by decide)
    · exact hn.not_mem (by decide) (by decide) hc

/-- An item holds a digit, so it is not blank. -/
theorem ListItem.not_blank {item : String} {s : Finset ℤ} (h : ListItem item s) :
    ∃ c ∈ item.toList, Str.isSpace c = false := by
  have hnumber : ∀ {text n}, IsNumber text n → ∃ c ∈ text.toList, Str.isSpace c = false := by
    intro text n hn
    obtain ⟨hbefore, hne, hdigits, hafter⟩ := hn
    obtain ⟨c, cs, rfl⟩ := List.exists_cons_of_ne_nil hne
    refine ⟨c, ?_, Str.isSpace_of_isDigit (hdigits c List.mem_cons_self)⟩
    rw [String.toList_ofList]
    exact List.mem_append_left _ (List.mem_append_right _ List.mem_cons_self)
  cases h with
  | number hn => exact hnumber hn
  | range hm hn =>
    obtain ⟨c, hc, hspace⟩ := hnumber hm
    refine ⟨c, ?_, hspace⟩
    rw [String.toList_append, String.toList_append]
    exact List.mem_append_left _ (List.mem_append_left _ hc)

/-! ### Lists of items -/

theorem split_comma {item rest : String} {s : Finset ℤ} (h : ListItem item s) :
    Str.split ',' (item ++ "," ++ rest) = item :: Str.split ',' rest := by
  rw [show ("," : String) = String.ofList [','] from rfl, Str.split_append_cons,
    Str.split_of_not_mem h.not_comma]
  rfl

theorem ListItems.foldlM_decodeRange {value : String} {s : Finset ℤ} (h : ListItems value s)
    (cores : Finset ℤ) :
    (Str.split ',' value).foldlM Wca.decodeRange cores = .ok (cores ∪ s) := by
  induction h generalizing cores with
  | last hs =>
    rw [Str.split_of_not_mem hs.not_comma, List.foldlM_cons, hs.decodeRange]
    rfl
  | cons hs _ ih =>
    rw [split_comma hs, List.foldlM_cons, hs.decodeRange, except_ok_bind, ih, Finset.union_assoc]

theorem ListItems.items {value : String} {s : Finset ℤ} (h : ListItems value s) :
    ∀ item ∈ Str.split ',' value, ∃ t, ListItem item t := by
  induction h with
  | last hs =>
    rw [Str.split_of_not_mem hs.not_comma]
    exact List.forall_mem_singleton.mpr ⟨_, hs⟩
  | cons hs _ ih =>
    rw [split_comma hs]
    exact List.forall_mem_cons.mpr ⟨⟨_, hs⟩, ih⟩

theorem ListItems.not_blank {value : String} {s : Finset ℤ} (h : ListItems value s) :
    ∃ c ∈ value.toList, Str.isSpace c = false := by
  cases h with
  | last hs => exact hs.not_blank
  | cons hs _ =>
    obtain ⟨c, hc, hspace⟩ := hs.not_blank
    refine ⟨c, ?_, hspace⟩
    rw [String.toList_append, String.toList_append]
    exact List.mem_append_left _ (List.mem_append_left _ hc)

/-- Items joined by commas are in the grammar. -/
theorem listItems_join {items : List String} (hne : items ≠ [])
    (h : ∀ item ∈ items, ∃ t, ListItem item t) : ∃ s, ListItems (Str.join ',' items) s := by
  induction items with
  | nil => exact absurd rfl hne
  | cons item items ih =>
    obtain ⟨t, ht⟩ := h item List.mem_cons_self
    cases items with
    | nil =>
      have hjoin : Str.join ',' [item] = item := by simp [Str.join]
      rw [hjoin]
      exact ⟨t, .last ht⟩
    | cons next items =>
      obtain ⟨s, hs⟩ := ih (List.cons_ne_nil next items)
        fun i hi => h i (List.mem_cons_of_mem item hi)
      have hjoin : Str.join ',' (item :: next :: items) =
          item ++ "," ++ Str.join ',' (next :: items) := by
        apply String.toList_injective
        simp [Str.join, List.intercalate_cons_cons]
      rw [hjoin]
      exact ⟨t ∪ s, .cons ht hs⟩

theorem exists_listItems {value : String}
    (h : ∀ item ∈ Str.split ',' value, ∃ t, ListItem item t) : ∃ s, ListItems value s := by
  have hne : Str.split ',' value ≠ [] := by simp [Str.split]
  have hjoin := listItems_join hne h
  rwa [Str.join_split] at hjoin

/-! ## What the code makes of a text -/

/-- A text of blanks has nothing left between them. -/
theorem blank_iff {value : String} :
    (value = "" ∨ Str.strip value = "") ↔ ∀ c ∈ value.toList, Str.isSpace c = true := by
  constructor
  · rintro (rfl | h) c hc
    · exact absurd hc List.not_mem_nil
    · obtain ⟨before, after, htext, hbefore, hafter⟩ := Str.exists_trim Str.isSpace value.toList
      have hmiddle : Str.trim Str.isSpace value.toList = [] :=
        (String.toList_ofList.symm.trans (congrArg String.toList h) : _)
      rw [hmiddle, List.append_nil] at htext
      rw [htext] at hc
      exact (List.mem_append.mp hc).elim (hbefore c) (hafter c)
  · intro h
    refine .inr ?_
    rw [Str.strip, Str.trim_eq_nil h]

theorem Denotes.decodeListformat {value : String} {s : Finset ℤ} (h : Denotes value s) :
    decodeListformat value = .ok s := by
  cases h with
  | blank h => rw [Wca.decodeListformat, if_pos (blank_iff.mpr h)]; rfl
  | items h =>
    rw [Wca.decodeListformat, if_neg, h.foldlM_decodeRange, Finset.empty_union]
    intro hblank
    obtain ⟨c, hc, hspace⟩ := h.not_blank
    exact Bool.noConfusion (hspace.symm.trans (blank_iff.mp hblank c hc))

/-- A number of the item is none for `int`. The code does not look at the numbers of an item with
two dashes or more. -/
def Refused (item : String) : Prop :=
  (Str.split '-' item).length ≤ 2 ∧
    ∃ part ∈ Str.split '-' item, ∀ n, Str.int 10 (Str.strip part) ≠ .ok n

/-- Nothing but decimal digits between blanks. -/
def PlainPart (part : String) : Prop :=
  Str.strip part ≠ "" ∧ ∀ c ∈ (Str.strip part).toList, c.isDigit = true

/-- The first number of a range is the greater one. -/
def Reversed (item : String) : Prop :=
  ∃ first last m n, Str.split '-' item = [first, last] ∧ Str.int 10 (Str.strip first) = .ok m ∧
    Str.int 10 (Str.strip last) = .ok n ∧ n < m

/-- Two dashes or more, a number that is not written in decimal digits alone, or a reversed
range. -/
def Odd (item : String) : Prop :=
  2 < (Str.split '-' item).length ∨ (∃ part ∈ Str.split '-' item, ¬ PlainPart part) ∨ Reversed item

theorem PlainPart.isNumber {part : String} (h : PlainPart part) :
    IsNumber part (Nat.ofDigitChars 10 (Str.strip part).toList 0) := isNumber_of_strip h.1 h.2

theorem IsNumber.plainPart {part : String} {n : ℕ} (h : IsNumber part n) : PlainPart part := by
  obtain ⟨digits, hstrip, hne, hdigits, -⟩ := h.strip
  rw [PlainPart, hstrip]
  exact ⟨fun he => hne (hstrip.symm.trans (congrArg String.toList he)), hdigits⟩

/-- The items of the grammar are those that are read and not odd. -/
theorem listItem_iff {item : String} : (∃ s, ListItem item s) ↔ ¬ Odd item := by
  constructor
  · rintro ⟨s, hn | ⟨hm, hn, hmn, -⟩⟩
    · have hsplit : Str.split '-' item = [item] :=
        Str.split_of_not_mem (hn.not_mem (by decide) (by decide))
      rintro (hlong | ⟨part, hpart, hplain⟩ | ⟨first, last, _, _, hrange, _⟩)
      · rw [hsplit] at hlong
        exact absurd hlong (by simp)
      · rw [hsplit, List.mem_singleton] at hpart
        exact hplain (hpart ▸ hn.plainPart)
      · rw [hsplit] at hrange
        exact absurd (congrArg List.length hrange) (by simp)
    · have hsplit := split_range hm hn
      rintro (hlong | ⟨part, hpart, hplain⟩ | ⟨first, last, m', n', hrange, hm', hn', hlt⟩)
      · rw [hsplit] at hlong
        exact absurd hlong (by simp)
      · rw [hsplit, List.mem_pair] at hpart
        rcases hpart with rfl | rfl
        · exact hplain hm.plainPart
        · exact hplain hn.plainPart
      · rw [hsplit] at hrange
        obtain ⟨rfl, hlast⟩ := List.cons.inj hrange
        obtain ⟨rfl, -⟩ := List.cons.inj hlast
        rw [hm.int] at hm'
        rw [hn.int] at hn'
        cases hm'
        cases hn'
        omega
  · intro h
    have hjoin := Str.join_split '-' item
    have hplain : ∀ part ∈ Str.split '-' item, PlainPart part := fun part hpart =>
      by_contra fun hp => h (.inr (.inl ⟨part, hpart, hp⟩))
    rcases hs : Str.split '-' item with _ | ⟨first, _ | ⟨last, _ | ⟨more, parts⟩⟩⟩
    · exact absurd hs (by simp [Str.split])
    · rw [hs] at hplain hjoin
      have hitem : first = item := by simpa [Str.join] using hjoin
      exact ⟨_, .number (hitem ▸ (hplain first List.mem_cons_self).isNumber)⟩
    · rw [hs] at hplain hjoin
      have hitem : first ++ "-" ++ last = item := by
        rw [← hjoin]
        apply String.toList_injective
        simp [Str.join, List.intercalate_cons_cons]
      have hm := (hplain first List.mem_cons_self).isNumber
      have hn := (hplain last (List.mem_cons_of_mem first List.mem_cons_self)).isNumber
      rw [← hitem]
      refine ⟨_, .range hm hn (not_lt.mp fun hlt => h (.inr (.inr ?_))) fun k => mem_rangeSet⟩
      exact ⟨first, last, _, _, hs, hm.int, hn.int, by exact_mod_cast hlt⟩
    · exact absurd (.inl (by simp [hs])) h

theorem decodeRange_ok_of_not_refused {item : String} (h : ¬ Refused item) (cores : Finset ℤ) :
    ∃ cores', decodeRange cores item = .ok cores' := by
  have hint : (Str.split '-' item).length ≤ 2 → ∀ part ∈ Str.split '-' item,
      ∃ n, Str.int 10 (Str.strip part) = .ok n := fun hlen part hpart =>
    by_contra fun hn => h ⟨hlen, part, hpart, fun n hok => hn ⟨n, hok⟩⟩
  unfold decodeRange
  split
  · case h_1 core hs =>
    rw [hs] at hint
    obtain ⟨n, hn⟩ := hint (by simp) core List.mem_cons_self
    exact ⟨_, by rw [hn]; rfl⟩
  · case h_2 first last hs =>
    rw [hs] at hint
    obtain ⟨m, hm⟩ := hint (by simp) first List.mem_cons_self
    obtain ⟨n, hn⟩ := hint (by simp) last (List.mem_cons_of_mem first List.mem_cons_self)
    exact ⟨_, by rw [hm, hn]; rfl⟩
  · exact ⟨cores, rfl⟩

theorem Refused.decodeRange_ne {item : String} (h : Refused item) (cores cores' : Finset ℤ) :
    decodeRange cores item ≠ .ok cores' := by
  obtain ⟨hlen, part, hpart, hint⟩ := h
  intro hok
  unfold decodeRange at hok
  split at hok
  · case h_1 core hs =>
    rw [hs, List.mem_singleton] at hpart
    obtain ⟨n, hn, -⟩ := except_bind_ok_iff.mp hok
    exact hint n (hpart ▸ hn)
  · case h_2 first last hs =>
    rw [hs, List.mem_pair] at hpart
    obtain ⟨m, hm, hok⟩ := except_bind_ok_iff.mp hok
    obtain ⟨n, hn, -⟩ := except_bind_ok_iff.mp hok
    rcases hpart with rfl | rfl
    · exact hint m hm
    · exact hint n hn
  · case h_3 hone htwo =>
    rcases hs : Str.split '-' item with _ | ⟨first, _ | ⟨last, _ | ⟨more, parts⟩⟩⟩
    · exact absurd hs (by simp [Str.split])
    · exact hone first hs
    · exact htwo first last hs
    · rw [hs] at hlen
      exact absurd hlen (by simp)

/-- A text that is not blank is decoded when no item of it is refused. -/
theorem decodeListformat_ok_iff {value : String}
    (hblank : ¬ ∀ c ∈ value.toList, Str.isSpace c = true) :
    (∃ s, decodeListformat value = .ok s) ↔ ∀ item ∈ Str.split ',' value, ¬ Refused item := by
  rw [decodeListformat, if_neg (mt blank_iff.mp hblank)]
  constructor
  · rintro ⟨s, hs⟩ item hitem href
    obtain ⟨cores, cores', hok⟩ := except_foldlM_ok_mem hs item hitem
    exact href.decodeRange_ne cores cores' hok
  · intro h
    obtain ⟨s, hs, -⟩ := except_foldlM_returns (f := decodeRange) (I := fun _ => True) trivial
      fun item hitem cores _ => by
        obtain ⟨cores', hok⟩ := decodeRange_ok_of_not_refused (h item hitem) cores
        exact ⟨cores', hok, trivial⟩
    exact ⟨s, hs⟩

theorem decodeListformat_error_iff {value : String} :
    (∃ e, decodeListformat value = .error e) ↔
      (∃ c ∈ value.toList, Str.isSpace c = false) ∧ ∃ item ∈ Str.split ',' value, Refused item := by
  by_cases hblank : ∀ c ∈ value.toList, Str.isSpace c = true
  · refine iff_of_false ?_ ?_
    · rintro ⟨e, he⟩
      rw [decodeListformat, if_pos (blank_iff.mpr hblank)] at he
      cases he
    · rintro ⟨⟨c, hc, hspace⟩, -⟩
      exact Bool.noConfusion (hspace.symm.trans (hblank c hc))
  · have hchar : ∃ c ∈ value.toList, Str.isSpace c = false := by simpa using hblank
    have hok := decodeListformat_ok_iff hblank
    constructor
    · rintro ⟨e, he⟩
      refine ⟨hchar, by_contra fun href => ?_⟩
      obtain ⟨s, hs⟩ := hok.mpr fun item hitem hr => href ⟨item, hitem, hr⟩
      rw [hs] at he
      cases he
    · rintro ⟨-, item, hitem, href⟩
      cases hd : decodeListformat value with
      | ok s => exact absurd href (hok.mp ⟨s, hd⟩ item hitem)
      | error e => exact ⟨e, rfl⟩

/-- The code agrees with the grammar on a text: it returns the set that the text stands for, and
raises a `ValueError` where it stands for none. -/
def AgreesWithGrammar (value : String) : Prop :=
  (∀ s, decodeListformat value = .ok s ↔ Denotes value s) ∧
    ((∀ s, ¬ Denotes value s) → ∃ msg, decodeListformat value = .error (.ValueError msg))

/-- **The language of the list format.** The code agrees with the grammar on the blank texts, on
those with a number that `int` refuses, and on those without an odd item, and on no others. -/
theorem decodeListformat_agrees_iff (value : String) :
    AgreesWithGrammar value ↔ (∀ c ∈ value.toList, Str.isSpace c = true) ∨
      (∃ item ∈ Str.split ',' value, Refused item) ∨ ∀ item ∈ Str.split ',' value, ¬ Odd item := by
  by_cases hblank : ∀ c ∈ value.toList, Str.isSpace c = true
  · have hdenotes := Denotes.blank hblank
    refine iff_of_true ⟨fun s => ⟨fun hs => ?_, Denotes.decodeListformat⟩, fun h => ?_⟩ (.inl hblank)
    · rw [hdenotes.decodeListformat] at hs
      cases hs
      exact hdenotes
    · exact absurd hdenotes (h ∅)
  have hitems : ∀ s, Denotes value s → ListItems value s := by
    intro s hs
    cases hs with
    | blank h => exact absurd h hblank
    | items h => exact h
  constructor
  · rintro ⟨hdecode, -⟩
    by_cases href : ∃ item ∈ Str.split ',' value, Refused item
    · exact .inr (.inl href)
    · have hok := (decodeListformat_ok_iff hblank).mpr fun item hitem hr => href ⟨item, hitem, hr⟩
      obtain ⟨s, hs⟩ := hok
      refine .inr (.inr fun item hitem => ?_)
      exact listItem_iff.mp ((hitems s ((hdecode s).mp hs)).items item hitem)
  · rintro (h | ⟨item, hitem, href⟩ | hodd)
    · exact absurd h hblank
    · have hne : ∀ s, decodeListformat value ≠ .ok s := fun s hs =>
        (decodeListformat_ok_iff hblank).mp ⟨s, hs⟩ item hitem href
      refine ⟨fun s => ⟨fun hs => absurd hs (hne s), fun hs => hs.decodeListformat⟩, fun _ => ?_⟩
      cases hd : decodeListformat value with
      | ok s => exact absurd hd (hne s)
      | error e =>
        obtain ⟨msg, rfl⟩ := decodeListformat_error hd
        exact ⟨msg, rfl⟩
    · obtain ⟨t, ht⟩ := exists_listItems fun item hitem => listItem_iff.mpr (hodd item hitem)
      have hdenotes := Denotes.items ht
      refine ⟨fun s => ⟨fun hs => ?_, Denotes.decodeListformat⟩, fun h => absurd hdenotes (h t)⟩
      rw [hdenotes.decodeListformat] at hs
      cases hs
      exact hdenotes

/-- An item with two dashes stands for nothing and is passed over. -/
theorem decodeListformat_passes_over :
    decodeListformat "1-2-3" = .ok ∅ ∧ ¬ AgreesWithGrammar "1-2-3" := by
  have hdecode : decodeListformat "1-2-3" = .ok ∅ := by decide
  refine ⟨hdecode, fun h => ?_⟩
  cases (h.1 ∅).mp hdecode with
  | blank hblank => exact absurd (hblank '1' (by decide)) (by decide)
  | items hitems =>
    have hitem := hitems.items "1-2-3" (by decide)
    exact listItem_iff.mp hitem (.inl (by decide))

/-! ## The round trip through a cgroup -/

/-- A printed set is the numerals of its elements, each once and in increasing order. -/
theorem encodeListformat_eq_join (s : Finset ℤ) :
    ∃ l : List ℤ, encodeListformat s = Str.join ',' (l.map toString) ∧ l.Pairwise (· < ·) ∧
      l.toFinset = s := by
  refine ⟨sorted s, rfl, ?_, Finset.ext fun n => by simp⟩
  have hnodup : (sorted s).Nodup := nodup_sorted s
  exact ((pairwise_sorted s).and hnodup).imp fun h => lt_of_le_of_ne h.1 h.2

theorem encodeListformat_injective {s t : Finset ℤ} (hs : ∀ n ∈ s, 0 ≤ n) (ht : ∀ n ∈ t, 0 ≤ n)
    (h : encodeListformat s = encodeListformat t) : s = t := by
  have hdecode := decodeListformat_encodeListformat hs
  rw [h, decodeListformat_encodeListformat ht] at hdecode
  exact (Except.ok.inj hdecode).symm

namespace ListFormatBasedAllocationValue

/-- Two cpusets of one resource differ when they stand for different sets. -/
theorem calculateChangeset_of_decode {self current : ListFormatBasedAllocationValue}
    {s t : Finset ℤ} (hresource : self.resource = current.resource)
    (hs : decodeListformat self.value = .ok s) (ht : decodeListformat current.value = .ok t) :
    self.calculateChangeset current =
      .ok (if s = t then (current, none) else (self, some self)) := by
  have heq : self.eq current = .ok (decide (s = t)) := by
    simp only [eq, assert_of hresource, hs, ht, liftM_ok, except_ok_bind, except_pure]
  rw [calculateChangeset, heq, except_ok_bind, except_pure]
  by_cases h : s = t <;> simp [h]

end ListFormatBasedAllocationValue

namespace Cgroup

/-- What is read from a control file is the print of the set that the file stands for. -/
theorem readListformat_of_decode {self : Cgroup} {resource : CpusetResource} {c : Cgroups}
    {f : CgroupFiles} {s : Finset ℤ} (hf : c.get? self.cgroupPath = some f)
    (hs : decodeListformat (Str.strip (f.text resource)) = .ok s) :
    self.readListformat resource c = .ok (encodeListformat s) := by
  simp only [readListformat, readRaw, hf, hs, liftM_ok, except_ok_bind, except_pure]

/-- A set of ids that has been written is read back. -/
theorem readListformat_writeListformat {self : Cgroup} {resource : CpusetResource} {c c' : Cgroups}
    {s : Finset ℤ} (hs : ∀ n ∈ s, 0 ≤ n) (h : (self.writeListformat resource s).run c = .ok () c') :
    self.readListformat resource c' = .ok (encodeListformat s) := by
  obtain ⟨c₀, c₁, hget, h⟩ := bind_ok_iff.mp h
  cases hget
  cases hf : c.get? self.cgroupPath with
  | none => rw [hf] at h; cases h
  | some f =>
    rw [hf] at h
    cases h
    refine readListformat_of_decode Dict.get?_set_self ?_
    have htext : (f.setText (encodeListformat s) resource).text resource = encodeListformat s := by
      cases resource <;> rfl
    rw [htext, strip_encodeListformat hs, decodeListformat_encodeListformat hs]

end Cgroup

/-- **The round trip of the list format.** A set of ids is read back from its print, which names
each id once and in order; a text and the normal form of what it stands for are interchangeable;
and a request differs from what is read back for it exactly when the two stand for different sets,
never after it has just been written. -/
theorem listformat_round_trip :
    (∀ s : Finset ℤ, (∀ n ∈ s, 0 ≤ n) → decodeListformat (encodeListformat s) = .ok s) ∧
    (∀ s t : Finset ℤ, (∀ n ∈ s, 0 ≤ n) → (∀ n ∈ t, 0 ≤ n) →
      encodeListformat s = encodeListformat t → s = t) ∧
    (∀ s : Finset ℤ, ∃ l : List ℤ, encodeListformat s = Str.join ',' (l.map toString) ∧
      l.Pairwise (· < ·) ∧ l.toFinset = s) ∧
    (∀ x s, decodeListformat x = .ok s → (∀ n ∈ s, 0 ≤ n) →
      decodeListformat (encodeListformat s) = decodeListformat x ∧
      (decodeListformat (encodeListformat s)).map encodeListformat = .ok (encodeListformat s)) ∧
    (∀ (cgroup : Cgroup) (c : Cgroups) (f : CgroupFiles)
      (request current : ListFormatBasedAllocationValue) (s t : Finset ℤ),
      c.get? cgroup.cgroupPath = some f →
      decodeListformat (Str.strip (f.text request.resource)) = .ok t → (∀ n ∈ t, 0 ≤ n) →
      decodeListformat request.value = .ok s → current.resource = request.resource →
      cgroup.readListformat request.resource c = .ok current.value →
      request.calculateChangeset current =
        .ok (if s = t then (current, none) else (request, some request))) ∧
    ∀ (cgroup : Cgroup) (c c' : Cgroups) (request current : ListFormatBasedAllocationValue)
      (s : Finset ℤ), decodeListformat request.value = .ok s → (∀ n ∈ s, 0 ≤ n) →
      (cgroup.writeListformat request.resource s).run c = .ok () c' →
      current.resource = request.resource →
      cgroup.readListformat request.resource c' = .ok current.value →
      request.calculateChangeset current = .ok (current, none) := by
  refine ⟨fun s => decodeListformat_encodeListformat, fun s t => encodeListformat_injective,
    encodeListformat_eq_join, fun x s hx hs => ?_, ?_, ?_⟩
  · rw [decodeListformat_encodeListformat hs, hx]
    exact ⟨rfl, rfl⟩
  · intro cgroup c f request current s t hf htext ht hs hresource hread
    have hvalue := (Cgroup.readListformat_of_decode hf htext).symm.trans hread
    have hcurrent : decodeListformat current.value = .ok t := by
      rw [← Except.ok.inj hvalue, decodeListformat_encodeListformat ht]
    exact request.calculateChangeset_of_decode hresource.symm hs hcurrent
  · intro cgroup c c' request current s hs hnonneg hwrite hresource hread
    have hvalue := (Cgroup.readListformat_writeListformat hnonneg hwrite).symm.trans hread
    have hcurrent : decodeListformat current.value = .ok s := by
      rw [← Except.ok.inj hvalue, decodeListformat_encodeListformat hnonneg]
    rw [request.calculateChangeset_of_decode hresource.symm hs hcurrent, if_pos rfl]

/-! ## Cpusets and the ids of the platform -/

/-- The ids that a cpuset of the platform may name: those of its online cpus, one for each entry of
`/proc/cpuinfo`, and those of its NUMA nodes. -/
def Platform.ids (platform : Platform) (cpuIds : Finset ℤ) : CpusetResource → Finset ℤ
  | .CPUSET_CPUS => cpuIds
  | .CPUSET_MEMS => platform.nodeCpus.keys.toFinset

/-- The class of a cpuset resource. -/
def createCpuset : CpusetResource → RawValue → Container →
    Except Exc ListFormatBasedAllocationValue
  | .CPUSET_CPUS => CPUSetCPUSAllocationValue.create
  | .CPUSET_MEMS => CPUSetMEMSAllocationValue.create

/-- The bound of a cpuset is the number of the ids, less one. -/
theorem createCpuset_ok {container : Container} {cpuIds : Finset ℤ} {resource : CpusetResource}
    {value : String} {v : ListFormatBasedAllocationValue}
    (hcard : cpuIds.card = container.platform.cpus)
    (h : createCpuset resource (.str value) container = .ok v) :
    v.value = value ∧ v.minValue = 0 ∧
      v.maxValue = (container.platform.ids cpuIds resource).card - 1 := by
  cases resource with
  | CPUSET_CPUS =>
    cases h
    refine ⟨rfl, rfl, ?_⟩
    rw [Platform.ids, hcard]
  | CPUSET_MEMS =>
    cases h
    refine ⟨rfl, rfl, ?_⟩
    have hlen : container.platform.nodeCpus.keys.toFinset.card = container.platform.nodeCpus.len :=
      (List.toFinset_card_of_nodup container.platform.nodeCpus.nodup).trans (List.length_map _)
    rw [Platform.ids, hlen]

namespace ListFormatBasedAllocationValue

/-- The validation passes the cpusets in the list format whose ids the platform has, and takes every
other text for an invalid allocation. -/
def AgreesWithPlatform (self : ListFormatBasedAllocationValue) (ids : Finset ℤ) : Prop :=
  (self.validate = .ok () ↔ ∃ s, Denotes self.value s ∧ s ⊆ ids) ∧
    ((¬ ∃ s, Denotes self.value s ∧ s ⊆ ids) →
      ∃ why, self.validate = .error (.InvalidAllocations why))

/-- What becomes of a text that can be decoded: no bounds can be taken of the empty set. -/
theorem validate_of_decode {self : ListFormatBasedAllocationValue} {s : Finset ℤ}
    (hvalue : self.value ≠ "") (hs : decodeListformat self.value = .ok s) :
    self.validate = if s = ∅ then .error (.builtin (.IndexError "list index out of range"))
      else if ∀ id ∈ s, self.minValue ≤ id ∧ id ≤ self.maxValue then .ok ()
      else invalid (.listNotInRange self.value self.minValue self.maxValue) := by
  unfold validate
  rw [hs]
  dsimp only
  rw [if_pos hvalue]
  split
  · case h_1 first last hfirst hlast =>
    have hne : s ≠ ∅ := by
      rintro rfl
      cases hfirst
    have hrange : ¬ (first < self.minValue ∨ last > self.maxValue) ↔
        ∀ id ∈ s, self.minValue ≤ id ∧ id ≤ self.maxValue := sorted_range_iff hfirst hlast
    rw [if_neg hne]
    by_cases h : first < self.minValue ∨ last > self.maxValue
    · rw [if_pos h, if_neg fun hall => hrange.mpr hall h]
    · rw [if_neg h, if_pos (hrange.mp h)]
  · case h_2 hnone =>
    have hempty : s = ∅ := by
      by_contra hne
      obtain ⟨first, l, hl⟩ := List.exists_cons_of_ne_nil (mt sorted_eq_nil_iff.mp hne)
      obtain ⟨last, hlast⟩ := Option.ne_none_iff_exists'.mp
        (mt List.getLast?_eq_none_iff.mp (List.cons_ne_nil first l))
      exact hnone first last (by rw [hl]; rfl) (by rw [hl]; exact hlast)
    rw [if_pos hempty]

theorem validate_of_decode_error {self : ListFormatBasedAllocationValue} {e : Exn}
    (h : decodeListformat self.value = .error e) :
    self.validate = invalid (.cannotDecodeListFormat self.value e) := by
  rw [validate, h]

end ListFormatBasedAllocationValue

/-- What a text that is not read as the empty set stands for. -/
theorem denotes_iff_of_decode {value : String} {s t : Finset ℤ}
    (hs : decodeListformat value = .ok s) (hne : s ≠ ∅) :
    Denotes value t ↔ t = s ∧ ∀ item ∈ Str.split ',' value, ¬ Odd item := by
  constructor
  · intro h
    have hst : t = s := Except.ok.inj (h.decodeListformat.symm.trans hs)
    refine ⟨hst, fun item hitem => ?_⟩
    cases h with
    | blank hblank => exact absurd hst.symm hne
    | items hitems => exact listItem_iff.mp (hitems.items item hitem)
  · rintro ⟨rfl, hodd⟩
    obtain ⟨t', ht'⟩ := exists_listItems fun item hitem => listItem_iff.mpr (hodd item hitem)
    have heq := (Denotes.items ht').decodeListformat.symm.trans hs
    rw [← Except.ok.inj heq]
    exact .items ht'

/-- **The check of a cpuset.** It agrees with the ids of the platform on the empty text, on the
texts with a number that `int` refuses, and on those read as a set that is not empty and lies below
the number of ids exactly when it is written without odd items and made of ids of the platform. -/
theorem validate_agrees_iff {container : Container} {cpuIds : Finset ℤ} {resource : CpusetResource}
    {value : String} {v : ListFormatBasedAllocationValue}
    (hcard : cpuIds.card = container.platform.cpus)
    (hv : createCpuset resource (.str value) container = .ok v) :
    v.AgreesWithPlatform (container.platform.ids cpuIds resource) ↔
      value = "" ∨
      ((∃ c ∈ value.toList, Str.isSpace c = false) ∧ ∃ item ∈ Str.split ',' value, Refused item) ∨
      ∃ s, decodeListformat value = .ok s ∧ s ≠ ∅ ∧
        ((∀ id ∈ s, 0 ≤ id ∧ id < (container.platform.ids cpuIds resource).card) ↔
          (∀ item ∈ Str.split ',' value, ¬ Odd item) ∧ s ⊆ container.platform.ids cpuIds resource) := by
  obtain ⟨hvalue, hmin, hmax⟩ := createCpuset_ok hcard hv
  generalize container.platform.ids cpuIds resource = ids at hmax ⊢
  subst hvalue
  unfold ListFormatBasedAllocationValue.AgreesWithPlatform
  by_cases hempty : v.value = ""
  · have hdenotes : Denotes v.value ∅ := .blank fun c hc => by
      rw [hempty] at hc
      exact absurd hc List.not_mem_nil
    have hok : v.validate = .ok () := ListFormatBasedAllocationValue.validate_ok_iff.mpr
      ⟨∅, hdenotes.decodeListformat, fun h => absurd hempty h⟩
    have hspec : ∃ s, Denotes v.value s ∧ s ⊆ ids := ⟨∅, hdenotes, Finset.empty_subset ids⟩
    exact iff_of_true ⟨iff_of_true hok hspec, fun h => absurd hspec h⟩ (.inl hempty)
  have href := @decodeListformat_error_iff v.value
  cases hd : decodeListformat v.value with
  | error e =>
    have herror := ListFormatBasedAllocationValue.validate_of_decode_error hd
    have hspec : ¬ ∃ s, Denotes v.value s ∧ s ⊆ ids := by
      rintro ⟨s, hs, -⟩
      rw [hs.decodeListformat] at hd
      cases hd
    refine iff_of_true ⟨iff_of_false (fun hok => ?_) hspec, fun _ => ⟨_, herror⟩⟩
      (.inr (.inl (href.mp ⟨e, hd⟩)))
    rw [herror] at hok
    cases hok
  | ok s =>
    have hvalidate := ListFormatBasedAllocationValue.validate_of_decode hempty hd
    have hrefused : ¬ ((∃ c ∈ v.value.toList, Str.isSpace c = false) ∧
        ∃ item ∈ Str.split ',' v.value, Refused item) := by
      intro h
      obtain ⟨e, he⟩ := href.mpr h
      rw [hd] at he
      cases he
    by_cases hs : s = ∅
    · -- the bounds of the empty set are asked for
      rw [if_pos hs] at hvalidate
      refine iff_of_false (fun h => ?_) ?_
      · rcases Classical.em (∃ s, Denotes v.value s ∧ s ⊆ ids) with hspec | hspec
        · exact absurd (hvalidate.symm.trans (h.1.mpr hspec)) (by simp)
        · obtain ⟨why, hwhy⟩ := h.2 hspec
          exact absurd (hvalidate.symm.trans hwhy) (by simp)
      · rintro (h | h | ⟨t, ht, hne, -⟩)
        · exact hempty h
        · exact hrefused h
        · exact hne ((Except.ok.inj ht).symm.trans hs)
    · rw [if_neg hs, hmin, hmax] at hvalidate
      have hrange : (∀ id ∈ s, 0 ≤ id ∧ id ≤ (ids.card : ℤ) - 1) ↔
          ∀ id ∈ s, 0 ≤ id ∧ id < (ids.card : ℤ) := by
        simp only [Int.le_sub_one_iff]
      have hspec : (∃ t, Denotes v.value t ∧ t ⊆ ids) ↔
          (∀ item ∈ Str.split ',' v.value, ¬ Odd item) ∧ s ⊆ ids := by
        simp only [denotes_iff_of_decode hd hs, and_assoc, exists_eq_left]
      have hok : v.validate = .ok () ↔ ∀ id ∈ s, 0 ≤ id ∧ id < (ids.card : ℤ) := by
        rw [hvalidate, ← hrange]
        split
        · case isTrue h => exact iff_of_true rfl h
        · case isFalse h => exact iff_of_false (fun hi => by cases hi) h
      have hinvalid : (¬ ∀ id ∈ s, 0 ≤ id ∧ id < (ids.card : ℤ)) →
          ∃ why, v.validate = .error (.InvalidAllocations why) := by
        intro h
        rw [hvalidate, if_neg (mt hrange.mp h)]
        exact ⟨_, rfl⟩
      rw [hspec, hok]
      constructor
      · rintro ⟨h, -⟩
        exact .inr (.inr ⟨s, rfl, hs, h⟩)
      · rintro (h | h | ⟨t, ht, -, h⟩)
        · exact absurd h hempty
        · exact absurd h hrefused
        · cases ht
          exact ⟨h, fun hnot => hinvalid (mt h.mp hnot)⟩

/-- A task on a machine with the cpus 0 and 2 and the NUMA nodes 0 and 1. -/
def sparseContainer : Container where
  ident := 0
  name := "task"
  cgroup := {
    cgroupPath := "/task"
    allocationConfiguration := {}
    platform := {
      sockets := 1
      cpus := 2
      numaNodes := 2
      nodeCpus := Dict.ofItems [(0, [0]), (1, [2])]
      rdtInformation := none
      swapEnabled := false } }
  subcgroups := []
  resgroup := none

/-- The cpuset "0" is passed and "9" is refused, as they should be. -/
theorem validate_agrees_zero :
    ∃ v, createCpuset .CPUSET_CPUS (.str "0") sparseContainer = .ok v ∧
      v.AgreesWithPlatform (sparseContainer.platform.ids {0, 2} .CPUSET_CPUS) := by
  refine ⟨_, rfl, ?_⟩
  refine (@validate_agrees_iff sparseContainer {0, 2} .CPUSET_CPUS "0" _ rfl rfl).mpr ?_
  refine .inr (.inr ⟨{0}, by decide, by decide, iff_of_true (by decide) ⟨?_, by decide⟩⟩)
  have hsplit : Str.split ',' "0" = ["0"] := by decide
  rw [hsplit]
  have hplain : PlainPart "0" := ⟨by decide, List.all_eq_true.mp (by decide)⟩
  exact List.forall_mem_singleton.mpr (listItem_iff.mp ⟨_, .number hplain.isNumber⟩)

/-- The cpu 1 is offline and passes. -/
theorem validate_passes_offline :
    ∃ v, createCpuset .CPUSET_CPUS (.str "1") sparseContainer = .ok v ∧ v.validate = .ok () ∧
      ¬ v.AgreesWithPlatform (sparseContainer.platform.ids {0, 2} .CPUSET_CPUS) := by
  refine ⟨_, rfl, by decide, fun h => ?_⟩
  obtain ⟨s, hs, hsub⟩ := h.1.mp (by decide)
  have hone : decodeListformat "1" = .ok {1} := by decide
  have heq : s = {1} := Except.ok.inj (hs.decodeListformat.symm.trans hone)
  rw [heq] at hsub
  exact absurd (hsub (Finset.mem_singleton_self 1)) (by decide)

end Wca
