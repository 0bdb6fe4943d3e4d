import Mathlib.Data.List.TakeWhile
import Mathlib.Data.List.DropRight
import Wca.Py.Num

/-!
# Text

The text operations of the language that parsers of small formats use: `strip`, `lstrip`, `split`
on one character, `join`, and `int(text, base)` with all it accepts: white space around the number,
a sign, the prefix `0x` in base 16, single underscores between digits and the decimal digits of
every script. A numeral written by `str` is read back by `int` (`int_toString`).
-/

namespace Py

/-- The truth of a text that may be missing: neither `None` nor empty. -/
def truthy : Option String → Bool
  | some s => s ≠ ""
  | none => false

namespace Str

/-! ## White space and splitting -/

/-- `c.isspace()`, for the characters `strip` removes. -/
def isSpace (c : Char) : Bool :=
  let n := c.toNat
  (0x9 ≤ n && n ≤ 0xD) || (0x1C ≤ n && n ≤ 0x20) || n == 0x85 || n == 0xA0 || n == 0x1680 ||
    (0x2000 ≤ n && n ≤ 0x200A) || n == 0x2028 || n == 0x2029 || n == 0x202F || n == 0x205F ||
    n == 0x3000

/-- Both ends without the characters of `p`. -/
def trim (p : Char → Bool) (cs : List Char) : List Char :=
  (((cs.dropWhile p).reverse).dropWhile p).reverse

/-- `s.strip()`. -/
def strip (s : String) : String := .ofList (trim isSpace s.toList)

/-- `s.lstrip(chars)`. -/
def lstrip (chars : List Char) (s : String) : String :=
  .ofList (s.toList.dropWhile (· ∈ chars))

/-- `s.rstrip(chars)`. -/
def rstrip (chars : List Char) (s : String) : String :=
  .ofList (s.toList.rdropWhile (· ∈ chars))

/-- `s.split(c)`. -/
def split (c : Char) (s : String) : List String := (s.toList.splitOn c).map .ofList

/-- `sep.join(l)`. -/
def join (sep : Char) (l : List String) : String :=
  .ofList ([sep].intercalate (l.map String.toList))

/-- `s[s.find(c) + 1:]`, which is `s` itself when `c` is not in it. -/
def afterFirst (c : Char) (s : String) : String :=
  if c ∈ s.toList then .ofList (s.toList.dropWhile (· ≠ c)).tail else s

/-- `s[:s.find(c)]` for a `c` that is in `s`. -/
def beforeFirst (c : Char) (s : String) : String := .ofList (s.toList.takeWhile (· ≠ c))

/-- `s.startswith(p)`. -/
def startsWith (p s : String) : Bool := p.toList.isPrefixOf s.toList

/-- `s.endswith(p)`. -/
def endsWith (p s : String) : Bool := p.toList.isSuffixOf s.toList

/-- `p in s`. -/
def contains (p s : String) : Bool := s.toList.tails.any (p.toList.isPrefixOf ·)

/-- The characters before the first `sep`. -/
def beforeChars (sep : List Char) : List Char → List Char
  | [] => []
  | c :: cs => if sep.isPrefixOf (c :: cs) then [] else c :: beforeChars sep cs

/-- `s.split(sep)[0]`. -/
def splitFirst (sep s : String) : String := .ofList (beforeChars sep.toList s.toList)

/-- The characters left when every `p` is taken out, from left to right; the first `skip` belong to one
that has been met. -/
def removeChars (p : List Char) : ℕ → List Char → List Char
  | _, [] => []
  | skip + 1, _ :: cs => removeChars p skip cs
  | 0, c :: cs =>
    if p.isPrefixOf (c :: cs) then removeChars p (p.length - 1) cs else c :: removeChars p 0 cs

/-- `s.replace(p, '')` for a `p` that is not empty. -/
def remove (p s : String) : String := .ofList (removeChars p.toList 0 s.toList)

/-- `s.replace(c, by)` for one character. -/
def replace (c : Char) (new s : String) : String :=
  .ofList (s.toList.flatMap fun d => if d = c then new.toList else [d])

theorem toList_replace {c : Char} {new s : String} :
    (replace c new s).toList = s.toList.flatMap fun d => if d = c then new.toList else [d] :=
  String.toList_ofList

theorem replace_eq_self {c : Char} {new s : String} (h : c ∉ s.toList) : replace c new s = s := by
  have hself : ∀ cs : List Char, c ∉ cs →
      cs.flatMap (fun d => if d = c then new.toList else [d]) = cs := by
    intro cs hcs
    induction cs with
    | nil => rfl
    | cons d cs ih =>
      have hd : d ≠ c := fun hd => hcs (hd ▸ List.mem_cons_self)
      rw [List.flatMap_cons, if_neg hd, ih fun hm => hcs (List.mem_cons_of_mem d hm)]
      rfl
  rw [replace, hself _ h, String.ofList_toList]

theorem removeChars_sublist (p cs : List Char) (skip : ℕ) :
    (removeChars p skip cs).Sublist cs := by
  induction cs generalizing skip with
  | nil => simp [removeChars]
  | cons c cs ih =>
    cases skip with
    | succ skip => exact (ih skip).cons c
    | zero =>
      rw [removeChars]
      split
      · exact (ih _).cons c
      · exact (ih 0).cons_cons c

/-- What ends with a text that cannot begin any earlier. -/
theorem beforeChars_append {c : Char} {cs sep : List Char} (h : c ∉ cs) :
    beforeChars (c :: sep) (cs ++ c :: sep) = cs := by
  induction cs with
  | nil => simp [beforeChars]
  | cons d cs ih =>
    have hd : c ≠ d := fun he => h (he ▸ List.mem_cons_self)
    rw [List.cons_append, beforeChars, ih fun hm => h (List.mem_cons_of_mem d hm),
      if_neg (by simp [hd])]

/-- Texts of one length, or with different last characters, end a text only when they are equal. -/
theorem suffix_append_iff {u v pre : List Char}
    (h : u.length = v.length ∨ u.getLast? ≠ v.getLast? ∧ u ≠ [] ∧ v ≠ []) :
    u <:+ pre ++ v ↔ u = v := by
  obtain h | ⟨hlast, hu, hv⟩ := h
  · constructor
    · rintro ⟨l, hl⟩
      exact (List.append_inj' hl h).2
    · rintro rfl
      exact List.suffix_append pre u
  · refine iff_of_false ?_ fun he => hlast (he ▸ rfl)
    rintro ⟨l, hl⟩
    apply hlast
    have hlasts := congrArg List.getLast? hl
    rwa [List.getLast?_append_of_ne_nil _ hu, List.getLast?_append_of_ne_nil _ hv] at hlasts

theorem trim_eq_self {p : Char → Bool} {cs : List Char} (h : ∀ c ∈ cs, p c = false) :
    trim p cs = cs := by
  have hdrop : ∀ l : List Char, (∀ c ∈ l, p c = false) → l.dropWhile p = l := by
    intro l hl
    cases l with
    | nil => rfl
    | cons c l => rw [List.dropWhile_cons_of_neg]; simpa using hl c List.mem_cons_self
  unfold trim
  rw [hdrop cs h, hdrop _ fun c hc => h c (List.mem_reverse.mp hc), List.reverse_reverse]

theorem trim_append_append {p : Char → Bool} {l cs r : List Char} (hl : ∀ c ∈ l, p c = true)
    (hcs : ∀ c ∈ cs, p c = false) (hr : ∀ c ∈ r, p c = true) : trim p (l ++ cs ++ r) = cs := by
  have hdrop : ∀ l m : List Char, (∀ c ∈ l, p c = true) → (l ++ m).dropWhile p = m.dropWhile p :=
    fun l m hl => List.dropWhile_append_of_pos hl
  have hself := trim_eq_self hcs
  unfold trim at hself ⊢
  cases cs with
  | nil =>
    rw [List.append_nil, hdrop l r hl, List.dropWhile_eq_nil_iff.mpr hr]
    rfl
  | cons c cs =>
    have hc := hcs c List.mem_cons_self
    rw [List.append_assoc, hdrop l _ hl, List.cons_append,
      List.dropWhile_cons_of_neg (by simp [hc]), ← List.cons_append, List.reverse_append,
      hdrop r.reverse _ fun c hc => hr c (List.mem_reverse.mp hc)]
    rwa [List.dropWhile_cons_of_neg (by simp [hc])] at hself

theorem trim_eq_nil {p : Char → Bool} {cs : List Char} (h : ∀ c ∈ cs, p c = true) :
    trim p cs = [] := by
  rw [trim, List.dropWhile_eq_nil_iff.mpr h]
  rfl

/-- What is trimmed off stands at the two ends. -/
theorem exists_trim (p : Char → Bool) (cs : List Char) :
    ∃ l r, cs = l ++ trim p cs ++ r ∧ (∀ c ∈ l, p c = true) ∧ ∀ c ∈ r, p c = true := by
  have htake : ∀ l : List Char, ∀ c ∈ l.takeWhile p, p c = true :=
    fun l c hc => List.mem_takeWhile_imp hc
  refine ⟨cs.takeWhile p, ((cs.dropWhile p).reverse.takeWhile p).reverse, ?_, htake cs,
    fun c hc => htake _ c (List.mem_reverse.mp hc)⟩
  rw [trim, List.append_assoc, ← List.reverse_append, List.takeWhile_append_dropWhile,
    List.reverse_reverse, List.takeWhile_append_dropWhile]

theorem strip_eq_self {s : String} (h : ∀ c ∈ s.toList, isSpace c = false) : strip s = s := by
  rw [strip, trim_eq_self h, String.ofList_toList]

theorem split_join {c : Char} {l : List String} (hne : l ≠ [])
    (h : ∀ s ∈ l, c ∉ s.toList) : split c (join c l) = l := by
  unfold split join
  rw [String.toList_ofList, List.splitOn_intercalate c ?_ (by simpa using hne), List.map_map]
  · simp
  · intro cs hcs
    obtain ⟨s, hs, rfl⟩ := List.mem_map.mp hcs
    exact h s hs

theorem mem_intercalate {sep c : Char} {l : List (List Char)} (h : c ∈ [sep].intercalate l) :
    c = sep ∨ ∃ cs ∈ l, c ∈ cs := by
  induction l with
  | nil => cases h
  | cons cs l ih =>
    cases l with
    | nil => exact .inr ⟨cs, List.mem_cons_self, by simpa using h⟩
    | cons cs' l =>
      rw [List.intercalate_cons_cons, List.append_assoc, List.mem_append, List.mem_append,
        List.mem_singleton] at h
      rcases h with h | h | h
      · exact .inr ⟨cs, List.mem_cons_self, h⟩
      · exact .inl h
      · rcases ih h with h | ⟨cs₁, h₁, h₂⟩
        · exact .inl h
        · exact .inr ⟨cs₁, List.mem_cons_of_mem _ h₁, h₂⟩

theorem toList_comp_ofList : String.toList ∘ String.ofList = id := funext fun _ => String.toList_ofList

theorem ofList_comp_toList : String.ofList ∘ String.toList = id := funext fun _ => String.ofList_toList

theorem join_split (c : Char) (s : String) : join c (split c s) = s := by
  unfold split join
  rw [List.map_map, toList_comp_ofList, List.map_id, List.intercalate_splitOn, String.ofList_toList]

theorem split_of_not_mem {c : Char} {s : String} (h : c ∉ s.toList) : split c s = [s] := by
  unfold split
  rw [List.splitOn_eq_singleton h]
  simp

theorem exists_of_startsWith {p s : String} (h : startsWith p s = true) : ∃ rest, s = p ++ rest := by
  obtain ⟨rest, hrest⟩ := List.isPrefixOf_iff_prefix.mp h
  refine ⟨String.ofList rest, String.toList_injective ?_⟩
  rw [String.toList_append, String.toList_ofList, hrest]

theorem startsWith_append (p rest : String) : startsWith p (p ++ rest) = true := by
  rw [startsWith, String.toList_append]
  exact List.isPrefixOf_iff_prefix.mpr ⟨rest.toList, rfl⟩

theorem split_append_cons (c : Char) (s t : String) :
    split c (s ++ String.ofList [c] ++ t) = split c s ++ split c t := by
  unfold split
  rw [String.toList_append, String.toList_append, String.toList_ofList, List.append_assoc,
    List.singleton_append, List.splitOn_append_cons_self, List.map_append]

theorem not_mem_of_mem_split {c : Char} {s t : String} (h : t ∈ split c s) : c ∉ t.toList := by
  obtain ⟨cs, hcs, rfl⟩ := List.mem_map.mp h
  rw [String.toList_ofList]
  clear h
  generalize s.toList = l at hcs
  induction l generalizing cs with
  | nil =>
    rw [List.splitOn_nil, List.mem_singleton] at hcs
    exact hcs ▸ List.not_mem_nil
  | cons d l ih =>
    rw [List.splitOn_cons_eq_if_modifyHead] at hcs
    split at hcs
    · rcases List.mem_cons.mp hcs with rfl | hcs
      · exact List.not_mem_nil
      · exact ih cs hcs
    · case isFalse hd =>
      cases hl : l.splitOn c with
      | nil => exact absurd hl (List.splitOn_ne_nil c l)
      | cons first rest =>
        rw [hl, List.modifyHead_cons] at hcs
        rw [hl] at ih
        rcases List.mem_cons.mp hcs with rfl | hcs
        · intro hm
          rcases List.mem_cons.mp hm with rfl | hm
          · exact hd (beq_self_eq_true c)
          · exact ih first List.mem_cons_self hm
        · exact ih cs (List.mem_cons_of_mem _ hcs)

/-! ### Words and lines -/

/-- `s.split()`. -/
def words (s : String) : List String :=
  ((s.toList.splitOnP isSpace).filter (· ≠ [])).map .ofList

/-- `f.readlines()`, without the newlines. -/
def readlines (s : String) : List String :=
  let lines := split '\n' s
  if lines.getLast? = some "" then lines.dropLast else lines

theorem splitOnP_eq_splitOn {p : Char → Bool} {c : Char} {cs : List Char}
    (h : ∀ d ∈ cs, p d = (d == c)) : cs.splitOnP p = cs.splitOn c := by
  induction cs with
  | nil => rfl
  | cons d cs ih =>
    obtain ⟨hd, hcs⟩ := List.forall_mem_cons.mp h
    rw [List.splitOnP_cons_eq_if_modifyHead, List.splitOn_cons_eq_if_modifyHead, ih hcs, hd]

/-- Words with blanks between them. -/
theorem words_join {l : List String} (hne : l ≠ [])
    (h : ∀ s ∈ l, s ≠ "" ∧ ∀ c ∈ s.toList, isSpace c = false) : words (join ' ' l) = l := by
  have hblank : ∀ s ∈ l, ' ' ∉ s.toList := fun s hs hin =>
    absurd ((h s hs).2 ' ' hin) (by decide)
  have hchars : ∀ c ∈ (join ' ' l).toList, isSpace c = (c == ' ') := by
    intro c hc
    rw [join, String.toList_ofList] at hc
    rcases mem_intercalate hc with rfl | ⟨cs, hcs, hin⟩
    · decide
    · obtain ⟨s, hs, rfl⟩ := List.mem_map.mp hcs
      have hsp := (h s hs).2 c hin
      have hne : c ≠ ' ' := by
        rintro rfl
        exact hblank s hs hin
      rw [hsp, beq_eq_false_iff_ne.mpr hne]
  have hsplit := congrArg (List.map String.toList) (split_join hne hblank)
  rw [split, List.map_map] at hsplit
  rw [toList_comp_ofList, List.map_id] at hsplit
  rw [words, splitOnP_eq_splitOn hchars, hsplit, List.filter_eq_self.mpr ?_, List.map_map]
  · rw [ofList_comp_toList, List.map_id]
  · intro cs hcs
    obtain ⟨s, hs, rfl⟩ := List.mem_map.mp hcs
    exact decide_eq_true fun hnil => (h s hs).1 (String.toList_eq_nil_iff.mp hnil)

/-- White space in front of a text. -/
theorem words_blank {c : Char} {cs : List Char} (hc : isSpace c = true) :
    words (.ofList (c :: cs)) = words (.ofList cs) := by
  rw [words, words, String.toList_ofList, String.toList_ofList, 
    List.splitOnP_cons_eq_if_modifyHead, if_pos hc, List.filter_cons_of_neg (by simp)]

/-- A word in front of a text. -/
theorem words_append {c : Char} {cs w : List Char} (hne : w ≠ [])
    (hw : ∀ d ∈ w, isSpace d = false) (hc : isSpace c = true) :
    words (.ofList (w ++ c :: cs)) = .ofList w :: words (.ofList cs) := by
  rw [words, words, String.toList_ofList, String.toList_ofList,
    List.splitOnP_append_cons_of_forall_mem hw c hc, List.filter_cons_of_pos (by simpa using hne)]
  rfl

theorem words_eq_singleton {w : List Char} (hne : w ≠ []) (hw : ∀ d ∈ w, isSpace d = false) :
    words (.ofList w) = [.ofList w] := by
  rw [words, String.toList_ofList, List.splitOnP_eq_singleton hw,
    List.filter_cons_of_pos (by simpa using hne)]
  rfl

theorem rstrip_append {chars cs tail : List Char} (hcs : ∀ c ∈ cs, c ∉ chars)
    (htail : ∀ c ∈ tail, c ∈ chars) : rstrip chars (.ofList (cs ++ tail)) = .ofList cs := by
  rw [rstrip, String.toList_ofList]
  congr 1
  induction tail using List.reverseRecOn with
  | nil =>
    rw [List.append_nil, List.rdropWhile_eq_self_iff]
    intro hne
    simpa using hcs _ (List.getLast_mem hne)
  | append_singleton tail c ih =>
    rw [← List.append_assoc, List.rdropWhile_concat_pos _ _ _ (by simpa using htail c (by simp))]
    exact ih fun d hd => htail d (List.mem_append_left _ hd)

/-- Lines that each end with a newline. -/
theorem readlines_join {l : List String} (h : ∀ s ∈ l, '\n' ∉ s.toList) :
    readlines (join '\n' (l ++ [""])) = l := by
  have hall : ∀ s ∈ l ++ [""], '\n' ∉ s.toList := by
    intro s hs
    rcases List.mem_append.mp hs with hs | hs
    · exact h s hs
    · rw [List.mem_singleton.mp hs]
      exact List.not_mem_nil
  rw [readlines, split_join (List.append_ne_nil_of_right_ne_nil l (List.cons_ne_nil _ _)) hall,
    List.getLast?_concat, if_pos rfl, List.dropLast_concat]

/-! ## Numerals -/

/-- The zeros of the scripts that have decimal digits; the nine others follow each of them. -/
def decimalZeros : List Nat :=
  [0x30, 0x660, 0x6F0, 0x7C0, 0x966, 0x9E6, 0xA66, 0xAE6, 0xB66, 0xBE6, 0xC66, 0xCE6, 0xD66, 0xDE6,
    0xE50, 0xED0, 0xF20, 0x1040, 0x1090, 0x17E0, 0x1810, 0x1946, 0x19D0, 0x1A80, 0x1A90, 0x1B50,
    0x1BB0, 0x1C40, 0x1C50, 0xA620, 0xA8D0, 0xA900, 0xA9D0, 0xA9F0, 0xAA50, 0xABF0, 0xFF10,
    0x104A0, 0x11066, 0x110F0, 0x11136, 0x111D0, 0x112F0, 0x11450, 0x114D0, 0x11650, 0x116C0,
    0x11730, 0x118E0, 0x11C50, 0x16A60, 0x16B50, 0x1D7CE, 0x1D7D8, 0x1D7E2, 0x1D7EC, 0x1D7F6,
    0x1E950]

/-- The decimal value of a character. -/
def decimal? (c : Char) : Option Nat :=
  (decimalZeros.find? fun z => z ≤ c.toNat && c.toNat ≤ z + 9).map (c.toNat - ·)

/-- The value of a digit below `base`; the letters come after the decimal digits. -/
def digit? (base : Nat) (c : Char) : Option Nat :=
  let d? :=
    match decimal? c with
    | some d => some d
    | none =>
      if 'a' ≤ c ∧ c ≤ 'z' then some (c.toNat - 'a'.toNat + 10)
      else if 'A' ≤ c ∧ c ≤ 'Z' then some (c.toNat - 'A'.toNat + 10)
      else none
  d?.filter (· < base)

/-- White space around a numeral. -/
def isNumSpace (c : Char) : Bool := isSpace c && !(0x1C ≤ c.toNat && c.toNat ≤ 0x1F)

def ofDigits (base : Nat) (ds : List Nat) : Nat := ds.foldl (fun n d => base * n + d) 0

/-- Digits in groups with one underscore between two groups. -/
def natBody? (base : Nat) (cs : List Char) : Option Nat :=
  if (cs.splitOn '_').all (· ≠ []) then
    ((cs.filter (· ≠ '_')).mapM (digit? base)).map (ofDigits base)
  else
    none

/-- In base 16 a prefix is skipped, with one underscore after it. -/
def dropBasePrefix (base : Nat) : List Char → List Char
  | '0' :: x :: cs =>
    if base = 16 ∧ (x = 'x' ∨ x = 'X') then
      match cs with
      | '_' :: cs => cs
      | cs => cs
    else '0' :: x :: cs
  | cs => cs

def intChars? (base : Nat) (cs : List Char) : Option ℤ :=
  match trim isNumSpace cs with
  | '-' :: cs => (natBody? base (dropBasePrefix base cs)).map fun n => -(n : ℤ)
  | '+' :: cs => (natBody? base (dropBasePrefix base cs)).map Int.ofNat
  | cs => (natBody? base (dropBasePrefix base cs)).map Int.ofNat

/-- The text as `repr` shows it when nothing in it has to be escaped. -/
def repr (s : String) : String := "'" ++ s ++ "'"

/-- `int(s, base)` for the bases from 10 on. -/
def int (base : Nat) (s : String) : Except Exn ℤ :=
  match intChars? base s.toList with
  | some n => .ok n
  | none => .error (.ValueError
      ("invalid literal for int() with base " ++ toString base ++ ": " ++ repr s))

/-- `int` either returns or raises a `ValueError`. -/
theorem int_error {base : Nat} {s : String} {e : Exn} (h : int base s = .error e) :
    ∃ msg, e = .ValueError msg := by
  unfold int at h
  cases hi : intChars? base s.toList with
  | some n => rw [hi] at h; cases h
  | none => rw [hi] at h; cases h; exact ⟨_, rfl⟩

/-! ### A numeral that `str` wrote -/

theorem toNat_of_isDigit {c : Char} (h : c.isDigit = true) : 0x30 ≤ c.toNat ∧ c.toNat ≤ 0x39 :=
  Char.isDigit_iff_toNat.mp h

theorem digit?_of_isDigit {base : Nat} {c : Char} (hb : 10 ≤ base) (h : c.isDigit = true) :
    digit? base c = some (c.toNat - '0'.toNat) := by
  have hc := toNat_of_isDigit h
  have hd : decimal? c = some (c.toNat - 0x30) := by
    rw [decimal?, decimalZeros, List.find?_cons_of_pos (by simpa using hc)]
    rfl
  have h0 : '0'.toNat = 0x30 := rfl
  simp only [digit?, hd, Option.filter_some, decide_eq_true_eq]
  rw [if_pos (by omega), h0]

theorem isSpace_of_isDigit {c : Char} (h : c.isDigit = true) : isSpace c = false := by
  have hc := toNat_of_isDigit h
  simp only [isSpace, Bool.or_eq_false_iff, Bool.and_eq_false_iff, decide_eq_false_iff_not,
    beq_eq_false_iff_ne]
  omega

theorem ne_of_isDigit {c d : Char} (h : c.isDigit = true) (hd : d.isDigit = false) : c ≠ d := by
  rintro rfl
  exact Bool.noConfusion (h.symm.trans hd)

theorem mapM_digit? {base : Nat} {cs : List Char} (hb : 10 ≤ base)
    (h : ∀ c ∈ cs, c.isDigit = true) :
    cs.mapM (digit? base) = some (cs.map fun c => c.toNat - '0'.toNat) := by
  induction cs with
  | nil => rfl
  | cons c cs ih =>
    rw [List.mapM_cons, digit?_of_isDigit hb (h c List.mem_cons_self),
      ih fun d hd => h d (List.mem_cons_of_mem c hd)]
    rfl

theorem natBody?_of_isDigit {cs : List Char} (hne : cs ≠ []) (h : ∀ c ∈ cs, c.isDigit = true) :
    natBody? 10 cs = some (Nat.ofDigitChars 10 cs 0) := by
  have hu : '_' ∉ cs := fun hm => ne_of_isDigit (h _ hm) (d := '_') (by decide) rfl
  have hf : cs.filter (· ≠ '_') = cs :=
    List.filter_eq_self.mpr fun c hc => by
      simpa using fun he : c = '_' => hu (he ▸ hc)
  rw [natBody?, List.splitOn_eq_singleton hu, hf, mapM_digit? (Nat.le_refl 10) h]
  simp [hne, ofDigits, Nat.ofDigitChars, List.foldl_map]

/-- Only base 16 has a prefix. -/
@[simp] theorem dropBasePrefix_ten (cs : List Char) : dropBasePrefix 10 cs = cs := by
  unfold dropBasePrefix
  split
  · rw [if_neg (by simp)]
  · rfl

theorem intChars?_of_isDigit {cs : List Char} (hne : cs ≠ []) (h : ∀ c ∈ cs, c.isDigit = true) :
    intChars? 10 cs = some (Nat.ofDigitChars 10 cs 0 : ℤ) := by
  have hsp : ∀ c ∈ cs, isNumSpace c = false := fun c hc => by
    simp [isNumSpace, isSpace_of_isDigit (h c hc)]
  have hbody := natBody?_of_isDigit hne h
  unfold intChars?
  rw [trim_eq_self hsp]
  split
  · exact absurd rfl (ne_of_isDigit (h _ List.mem_cons_self) (by decide))
  · exact absurd rfl (ne_of_isDigit (h _ List.mem_cons_self) (by decide))
  · rw [dropBasePrefix_ten, hbody]
    rfl

theorem toList_toString (n : Nat) : (toString n).toList = Nat.toDigits 10 n := Nat.toList_repr

theorem isDigit_of_mem_toString {n : Nat} {c : Char} (h : c ∈ (toString n).toList) :
    c.isDigit = true := by
  rw [toList_toString] at h
  exact Nat.isDigit_of_mem_toDigits (by decide) (Nat.le_refl 10) h

/-- `int(str(n)) == n`. -/
theorem int_toString (n : Nat) : int 10 (toString n) = .ok (n : ℤ) := by
  have hne : Nat.toDigits 10 n ≠ [] := Nat.toDigits_ne_nil
  have hd : ∀ c ∈ Nat.toDigits 10 n, c.isDigit = true := fun c hc =>
    Nat.isDigit_of_mem_toDigits (by decide) (Nat.le_refl 10) hc
  rw [int, toList_toString, intChars?_of_isDigit hne hd, Nat.ofDigitChars_ten_toDigits]

theorem not_mem_toString {n : Nat} {c : Char} (h : c.isDigit = false) :
    c ∉ (toString n).toList := fun hc =>
  Bool.noConfusion ((isDigit_of_mem_toString hc).symm.trans h)

theorem strip_toString (n : Nat) : strip (toString n) = toString n :=
  strip_eq_self fun _ hc => isSpace_of_isDigit (isDigit_of_mem_toString hc)

/-! ### Digits -/

/-- The ranges of the digits that are not decimal ones: superscripts, subscripts, circled digits and
the digits of scripts without a zero. -/
def otherDigits : List (Nat × Nat) :=
  [(0xB2, 0xB3), (0xB9, 0xB9), (0x1369, 0x1371), (0x19DA, 0x19DA), (0x2070, 0x2070),
    (0x2074, 0x2079), (0x2080, 0x2089), (0x2460, 0x2468), (0x2474, 0x247C), (0x2488, 0x2490),
    (0x24EA, 0x24EA), (0x24F5, 0x24FD), (0x24FF, 0x24FF), (0x2776, 0x277E), (0x2780, 0x2788),
    (0x278A, 0x2792), (0x10A40, 0x10A43), (0x10E60, 0x10E68), (0x11052, 0x1105A),
    (0x1F100, 0x1F10A)]

def isdigitChar (c : Char) : Bool :=
  (decimal? c).isSome || otherDigits.any fun range => range.1 ≤ c.toNat && c.toNat ≤ range.2

/-- `s.isdigit()`. -/
def isdigit (s : String) : Bool := s ≠ "" && s.toList.all isdigitChar

theorem decimal?_eq_some {c : Char} {d : Nat} (h : decimal? c = some d) :
    ∃ z ∈ decimalZeros, z ≤ c.toNat ∧ c.toNat ≤ z + 9 ∧ d = c.toNat - z := by
  obtain ⟨z, hz, rfl⟩ := Option.map_eq_some_iff.mp h
  have hrange := List.find?_some hz
  rw [Bool.and_eq_true, decide_eq_true_eq, decide_eq_true_eq] at hrange
  exact ⟨z, List.mem_of_find?_eq_some hz, hrange.1, hrange.2, rfl⟩

/-- In base 10 the letters are no digits. -/
theorem digit?_ten (c : Char) : digit? 10 c = decimal? c := by
  unfold digit?
  cases h : decimal? c with
  | some d =>
    obtain ⟨z, -, hz, hc, rfl⟩ := decimal?_eq_some h
    exact Option.filter_eq_some_iff.mpr ⟨rfl, decide_eq_true (by omega)⟩
  | none =>
    refine Option.filter_eq_none_iff.mpr fun d hd => ?_
    have hle : 10 ≤ d := by
      change (if _ then some (c.toNat - 'a'.toNat + 10) else if _ then
        some (c.toNat - 'A'.toNat + 10) else none) = some d at hd
      split at hd
      · rw [← Option.some.inj hd]
        exact Nat.le_add_left 10 _
      · split at hd
        · rw [← Option.some.inj hd]
          exact Nat.le_add_left 10 _
        · cases hd
    simpa using hle

/-- No digit is white space, a sign or an underscore. -/
theorem toNat_of_isdigitChar {c : Char} (h : isdigitChar c = true) :
    isSpace c = false ∧ c ≠ '+' ∧ c ≠ '-' ∧ c ≠ '_' := by
  have hranges : ∀ p : Nat × Nat, (∃ z ∈ decimalZeros, p = (z, z + 9)) ∨ p ∈ otherDigits →
      (0x30 ≤ p.1 ∧ p.2 ≤ 0x39) ∨ (0xB2 ≤ p.1 ∧ p.2 < 0x1680) ∨ (0x1680 < p.1 ∧ p.2 < 0x2000) ∨
        (0x205F < p.1 ∧ p.2 < 0x3000) ∨ 0x3000 < p.1 := by
    rintro p (⟨z, hz, rfl⟩ | hp)
    · exact (by decide : ∀ z ∈ decimalZeros, (0x30 ≤ z ∧ z + 9 ≤ 0x39) ∨ (0xB2 ≤ z ∧ z + 9 < 0x1680) ∨
        (0x1680 < z ∧ z + 9 < 0x2000) ∨ (0x205F < z ∧ z + 9 < 0x3000) ∨ 0x3000 < z) z hz
    · exact (by decide : ∀ p ∈ otherDigits, (0x30 ≤ p.1 ∧ p.2 ≤ 0x39) ∨ (0xB2 ≤ p.1 ∧ p.2 < 0x1680) ∨
        (0x1680 < p.1 ∧ p.2 < 0x2000) ∨ (0x205F < p.1 ∧ p.2 < 0x3000) ∨ 0x3000 < p.1) p hp
  have hin : ∃ p : Nat × Nat, ((∃ z ∈ decimalZeros, p = (z, z + 9)) ∨ p ∈ otherDigits) ∧
      p.1 ≤ c.toNat ∧ c.toNat ≤ p.2 := by
    rcases Bool.or_eq_true_iff.mp h with h | h
    · obtain ⟨d, hd⟩ := Option.isSome_iff_exists.mp h
      obtain ⟨z, hz, hle, hge, -⟩ := decimal?_eq_some hd
      exact ⟨(z, z + 9), .inl ⟨z, hz, rfl⟩, hle, hge⟩
    · obtain ⟨p, hp, hrange⟩ := List.any_eq_true.mp h
      rw [Bool.and_eq_true, decide_eq_true_eq, decide_eq_true_eq] at hrange
      exact ⟨p, .inr hp, hrange⟩
  obtain ⟨p, hp, hle, hge⟩ := hin
  have hp := hranges p hp
  have hne : ∀ d : Char, d.toNat < 0x30 ∨ d.toNat = 0x5F → c ≠ d := by
    rintro d hd rfl
    omega
  refine ⟨?_, hne '+' (by decide), hne '-' (by decide), hne '_' (by decide)⟩
  simp only [isSpace, Bool.or_eq_false_iff, Bool.and_eq_false_iff, decide_eq_false_iff_not,
    beq_eq_false_iff_ne]
  omega

theorem mapM_digit?_isSome {cs : List Char} :
    (cs.mapM (digit? 10)).isSome = true ↔ ∀ c ∈ cs, (decimal? c).isSome = true := by
  induction cs with
  | nil => simp
  | cons c cs ih =>
    rw [List.mapM_cons, digit?_ten, List.forall_mem_cons, ← ih]
    cases decimal? c with
    | none => simp
    | some d => cases cs.mapM (digit? 10) <;> simp

/-- `int` reads a text of digits where they are decimal ones. -/
theorem int_ok_iff_of_isdigit {s : String} (h : isdigit s = true) :
    (∃ n, int 10 s = .ok n) ↔ ∀ c ∈ s.toList, (decimal? c).isSome = true := by
  obtain ⟨hne, hall⟩ := (Bool.and_eq_true _ _).mp h
  have hall := List.all_eq_true.mp hall
  have hne : s.toList ≠ [] := fun hnil => of_decide_eq_true hne (String.toList_eq_nil_iff.mp hnil)
  have htrim : trim isNumSpace s.toList = s.toList := trim_eq_self fun c hc => by
    rw [isNumSpace, (toNat_of_isdigitChar (hall c hc)).1, Bool.false_and]
  have hbody : natBody? 10 s.toList = (s.toList.mapM (digit? 10)).map (ofDigits 10) := by
    have hu : '_' ∉ s.toList := fun hm => (toNat_of_isdigitChar (hall _ hm)).2.2.2 rfl
    have hf : s.toList.filter (· ≠ '_') = s.toList :=
      List.filter_eq_self.mpr fun c hc => decide_eq_true (toNat_of_isdigitChar (hall c hc)).2.2.2
    rw [natBody?, List.splitOn_eq_singleton hu, hf, if_pos (by simpa using hne)]
  have hint : intChars? 10 s.toList =
      ((s.toList.mapM (digit? 10)).map (ofDigits 10)).map Int.ofNat := by
    unfold intChars?
    rw [htrim]
    split
    · case h_1 cs heq => exact absurd rfl (toNat_of_isdigitChar (hall _ (heq ▸ List.mem_cons_self))).2.2.1
    · case h_2 cs heq => exact absurd rfl (toNat_of_isdigitChar (hall _ (heq ▸ List.mem_cons_self))).2.1
    · rw [dropBasePrefix_ten, hbody]
  rw [← mapM_digit?_isSome, int, hint]
  cases s.toList.mapM (digit? 10) with
  | none => simp
  | some ds => simp

end Str

end Py
