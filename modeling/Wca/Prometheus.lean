import Mathlib.Data.Int.Notation
import Mathlib.Data.List.Nodup

/-!
# The Prometheus text format

A reader of the text exposition format by its rules: lines end with a line feed, tokens are separated
by blanks and tabs, `#` starts a comment unless `HELP` or `TYPE` follows, a sample is a metric name,
an optional set of labels with escaped values, a value and an optional timestamp in milliseconds, and
the lines of one metric form one group with at most one `HELP` and one `TYPE` line before its
samples. How the value is read is a parameter. The lemmas say that what is printed in the plain form
of the format is read back (`readSample_print`, `parseLine_help`, `parseLine_type`).
-/

namespace Prometheus

/-! ## Tokens -/

def isBlank (c : Char) : Bool := c == ' ' || c == '\t'

def skipBlanks (cs : List Char) : List Char := cs.dropWhile isBlank

/-- The characters up to the next blank, at least one. -/
def readToken (cs : List Char) : Option (List Char × List Char) :=
  if cs.takeWhile (!isBlank ·) = [] then none
  else some (cs.takeWhile (!isBlank ·), cs.dropWhile (!isBlank ·))

def isLetter (c : Char) : Bool := ('a' ≤ c && c ≤ 'z') || ('A' ≤ c && c ≤ 'Z')

def isLabelStart (c : Char) : Bool := isLetter c || c == '_'

def isLabelChar (c : Char) : Bool := isLabelStart c || c.isDigit

def isMetricStart (c : Char) : Bool := isLabelStart c || c == ':'

def isMetricChar (c : Char) : Bool := isMetricStart c || c.isDigit

/-- The longest name. -/
def readName (start char : Char → Bool) : List Char → Option (List Char × List Char)
  | [] => none
  | c :: cs => if start c then some (c :: cs.takeWhile char, cs.dropWhile char) else none

/-- A name of the given characters. -/
def IsName (start char : Char → Bool) (cs : List Char) : Prop :=
  ∃ c rest, cs = c :: rest ∧ start c = true ∧ ∀ d ∈ rest, char d = true

/-! ## Samples -/

structure Sample (V : Type) where
  name : String
  labels : List (String × String)
  value : V
  timestamp : Option ℤ
  deriving DecidableEq

/-- The character that a backslash and this one stand for. -/
def unescape? (quoted : Bool) (c : Char) : Option Char :=
  if c = '\\' then some '\\'
  else if c = 'n' then some '\n'
  else if quoted ∧ c = '"' then some '"'
  else none

/-- A label value up to its closing quote; the flag is set after a backslash. -/
def readQuoted : Bool → List Char → Option (List Char × List Char)
  | _, [] => none
  | true, c :: cs => do
    let e ← unescape? true c
    let (v, rest) ← readQuoted false cs
    some (e :: v, rest)
  | false, c :: cs =>
    if c = '"' then some ([], cs)
    else if c = '\\' then readQuoted true cs
    else do
      let (v, rest) ← readQuoted false cs
      some (c :: v, rest)

/-- `name="value"`. -/
def readLabel (cs : List Char) : Option ((String × String) × List Char) := do
  let (name, cs) ← readName isLabelStart isLabelChar cs
  match skipBlanks cs with
  | '=' :: cs =>
    match skipBlanks cs with
    | '"' :: cs => do
      let (value, cs) ← readQuoted false cs
      some ((.ofList name, .ofList value), cs)
    | _ => none
  | _ => none

/-- After a label: the end of the labels, or more of them. -/
def readMore (next : List Char → Option (List (String × String) × List Char))
    (label : String × String) : List Char → Option (List (String × String) × List Char)
  | '}' :: cs => some ([label], cs)
  | ',' :: cs => do
    let (labels, cs) ← next cs
    some (label :: labels, cs)
  | _ => none

/-- Labels up to the closing brace, at most as many as the first argument. -/
def readLabels : ℕ → List Char → Option (List (String × String) × List Char)
  | 0, _ => none
  | n + 1, cs =>
    match skipBlanks cs with
    | '}' :: cs => some ([], cs)
    | cs => (readLabel cs).bind fun p => readMore (readLabels n) p.1 (skipBlanks p.2)

def readLabelSet : List Char → Option (List (String × String) × List Char)
  | '{' :: cs => readLabels (cs.length + 1) cs
  | cs => some ([], cs)

def readNat (cs : List Char) : Option ℕ :=
  if cs ≠ [] ∧ cs.all Char.isDigit then some (Nat.ofDigitChars 10 cs 0) else none

def readInt : List Char → Option ℤ
  | '-' :: cs => (readNat cs).map fun n => -(n : ℤ)
  | cs => (readNat cs).map Int.ofNat

/-- What comes after the value. -/
def readTimestamp (cs : List Char) : Option (Option ℤ) :=
  if cs = [] then some none
  else do
    let (timestamp, cs) ← readToken cs
    if skipBlanks cs = [] then (readInt timestamp).map some else none

variable {V : Type} (readValue : String → Option V)

def readSample (cs : List Char) : Option (Sample V) := do
  let (name, cs) ← readName isMetricStart isMetricChar cs
  let (labels, cs) ← readLabelSet (skipBlanks cs)
  let (value, cs) ← readToken (skipBlanks cs)
  let value ← readValue (.ofList value)
  let timestamp ← readTimestamp (skipBlanks cs)
  if (labels.map Prod.fst).Nodup then some ⟨.ofList name, labels, value, timestamp⟩ else none

/-! ## Lines -/

inductive Line (V : Type) where
  | blank
  | comment
  | help (name doc : String)
  | type (name type : String)
  | sample (sample : Sample V)
  deriving DecidableEq

/-- The text of a help line; the flag is set after a backslash. -/
def unescapeHelp : Bool → List Char → Option (List Char)
  | false, [] => some []
  | true, [] => none
  | true, c :: cs => do
    let e ← unescape? false c
    let rest ← unescapeHelp false cs
    some (e :: rest)
  | false, c :: cs =>
    if c = '\\' then unescapeHelp true cs
    else do
      let rest ← unescapeHelp false cs
      some (c :: rest)

def readHelp (cs : List Char) : Option (Line V) := do
  let (name, cs) ← readName isMetricStart isMetricChar (skipBlanks cs)
  let doc ← unescapeHelp false (skipBlanks cs)
  some (.help (.ofList name) (.ofList doc))

def metricTypes : List String := ["counter", "gauge", "histogram", "summary", "untyped"]

def readType (cs : List Char) : Option (Line V) := do
  let (name, cs) ← readName isMetricStart isMetricChar (skipBlanks cs)
  let (type, cs) ← readToken (skipBlanks cs)
  if skipBlanks cs = [] ∧ .ofList type ∈ metricTypes then some (.type (.ofList name) (.ofList type))
  else none

def readComment (cs : List Char) : Option (Line V) :=
  match readToken cs with
  | none => some .comment
  | some (keyword, cs) =>
    if keyword = "HELP".toList then readHelp cs
    else if keyword = "TYPE".toList then readType cs
    else some .comment

def parseLine (cs : List Char) : Option (Line V) :=
  match skipBlanks cs with
  | [] => some .blank
  | '#' :: cs => readComment (skipBlanks cs)
  | cs => (readSample readValue cs).map .sample

/-! ## Groups -/

/-- The lines of one metric. -/
structure Family (V : Type) where
  name : String
  help : Option String := none
  type : Option String := none
  samples : List (Sample V) := []
  deriving DecidableEq

/-- The group that a line about a metric belongs to, apart from the others: the one of the line
before, or a new one for a name that had none. The last group comes first. -/
def openFamily (name : String) : List (Family V) → Option (Family V × List (Family V))
  | [] => some ({ name }, [])
  | family :: families =>
    if family.name = name then some (family, families)
    else if name ∈ families.map Family.name then none
    else some ({ name }, family :: families)

/-- One more line. Help and type come once, before the samples. -/
def addLine (families : List (Family V)) : Line V → Option (List (Family V))
  | .blank => some families
  | .comment => some families
  | .help name doc => do
    let (family, families) ← openFamily name families
    if family.help = none ∧ family.samples.isEmpty then
      some ({ family with help := some doc } :: families)
    else none
  | .type name type => do
    let (family, families) ← openFamily name families
    if family.type = none ∧ family.samples.isEmpty then
      some ({ family with type := some type } :: families)
    else none
  | .sample sample => do
    let (family, families) ← openFamily sample.name families
    some ({ family with samples := family.samples ++ [sample] } :: families)

/-- The groups of a text, which is empty or ends with a line feed. -/
def parse (text : String) : Option (List (Family V)) :=
  let lines := text.toList.splitOn '\n'
  if lines.getLast? = some [] then do
    let lines ← lines.mapM (parseLine readValue)
    let families ← lines.foldlM addLine []
    some families.reverse
  else none

/-! ## What is printed is read back -/

/-- The text does not go on with such a character. -/
def Stops (p : Char → Bool) (cs : List Char) : Prop := ∀ c ∈ cs.head?, p c = false

theorem stops_nil {p : Char → Bool} : Stops p [] := fun _ hc => absurd hc (Option.not_mem_none _)

theorem stops_cons {p : Char → Bool} {c : Char} {cs : List Char} (h : p c = false) :
    Stops p (c :: cs) := fun _ hd => Option.some.inj hd ▸ h

theorem span_append {p : Char → Bool} {cs rest : List Char} (h : ∀ c ∈ cs, p c = true)
    (hrest : Stops p rest) :
    (cs ++ rest).takeWhile p = cs ∧ (cs ++ rest).dropWhile p = rest := by
  induction cs with
  | nil =>
    cases rest with
    | nil => exact ⟨rfl, rfl⟩
    | cons c rest =>
      have hc : ¬p c = true := Bool.not_eq_true _ ▸ hrest c rfl
      exact ⟨List.takeWhile_cons_of_neg hc, List.dropWhile_cons_of_neg hc⟩
  | cons c cs ih =>
    have hc := h c List.mem_cons_self
    obtain ⟨htake, hdrop⟩ := ih fun d hd => h d (List.mem_cons_of_mem c hd)
    rw [List.cons_append, List.takeWhile_cons_of_pos hc, List.dropWhile_cons_of_pos hc, htake, hdrop]
    exact ⟨rfl, rfl⟩

/-- A class of characters without blank and tab. -/
theorem isBlank_eq_false {p : Char → Bool} {c : Char} (h : p c = true) (hblank : p ' ' = false)
    (htab : p '\t' = false) : isBlank c = false := by
  cases hb : isBlank c with
  | false => rfl
  | true =>
    rcases Bool.or_eq_true_iff.mp hb with hc | hc
    · rw [eq_of_beq hc, hblank] at h
      cases h
    · rw [eq_of_beq hc, htab] at h
      cases h

theorem skipBlanks_of_stops {cs : List Char} (h : Stops isBlank cs) : skipBlanks cs = cs := by
  have hspan := span_append (p := isBlank) (fun c hc => absurd hc List.not_mem_nil) h
  exact hspan.2

theorem skipBlanks_blank (cs : List Char) : skipBlanks (' ' :: cs) = skipBlanks cs := rfl

theorem readName_append {start char : Char → Bool} {name rest : List Char}
    (h : IsName start char name) (hrest : Stops char rest) :
    readName start char (name ++ rest) = some (name, rest) := by
  obtain ⟨c, cs, rfl, hc, hcs⟩ := h
  obtain ⟨htake, hdrop⟩ := span_append hcs hrest
  rw [List.cons_append, readName, if_pos hc, htake, hdrop]

/-- A token is not empty and has no blank. -/
def IsToken (cs : List Char) : Prop := cs ≠ [] ∧ ∀ c ∈ cs, isBlank c = false

theorem isToken_of_all {cs : List Char} (hne : cs ≠ []) (h : cs.all (!isBlank ·) = true) :
    IsToken cs := ⟨hne, fun c hc => by simpa using List.all_eq_true.mp h c hc⟩

theorem IsToken.stops {cs rest : List Char} (h : IsToken cs) : Stops isBlank (cs ++ rest) := by
  cases cs with
  | nil => exact absurd rfl h.1
  | cons c cs => exact stops_cons (h.2 c List.mem_cons_self)

theorem readToken_append {token rest : List Char} (h : IsToken token)
    (hrest : rest = [] ∨ ∃ cs, rest = ' ' :: cs) :
    readToken (token ++ rest) = some (token, rest) := by
  have hstops : Stops (!isBlank ·) rest := by
    rcases hrest with rfl | ⟨cs, rfl⟩
    · exact stops_nil
    · exact stops_cons rfl
  obtain ⟨htake, hdrop⟩ := span_append (fun c hc => by rw [h.2 c hc]; rfl) hstops
  rw [readToken, htake, hdrop, if_neg h.1]

/-! ### Labels -/

/-- A character of a label value, or of a help text, which may hold quotes. -/
def escapeChar (quoted : Bool) (c : Char) : List Char :=
  if c = '\\' then ['\\', '\\']
  else if c = '\n' then ['\\', 'n']
  else if quoted ∧ c = '"' then ['\\', '"']
  else [c]

def escape (quoted : Bool) (s : String) : List Char := s.toList.flatMap (escapeChar quoted)

/-- A character is printed as itself, or after a backslash as one that stands for it. -/
theorem escapeChar_cases (quoted : Bool) (c : Char) :
    (escapeChar quoted c = [c] ∧ c ≠ '\\' ∧ c ≠ '\n' ∧ (quoted = true → c ≠ '"')) ∨
      ∃ d, escapeChar quoted c = ['\\', d] ∧ unescape? quoted d = some c ∧ d ≠ '\n' := by
  unfold escapeChar
  split
  · case isTrue h => exact .inr ⟨'\\', rfl, by rw [h]; rfl, by decide⟩
  · case isFalse hback =>
    split
    · case isTrue h => exact .inr ⟨'n', rfl, by rw [h]; rfl, by decide⟩
    · case isFalse hline =>
      split
      · case isTrue h =>
        obtain ⟨rfl, rfl⟩ := h
        exact .inr ⟨'"', rfl, rfl, by decide⟩
      · case isFalse hquote => exact .inl ⟨rfl, hback, hline, fun hq hc => hquote ⟨hq, hc⟩⟩

theorem newline_not_mem_escape (quoted : Bool) (s : String) : '\n' ∉ escape quoted s := by
  intro h
  obtain ⟨c, -, hc⟩ := List.mem_flatMap.mp h
  rcases escapeChar_cases quoted c with ⟨heq, -, hline, -⟩ | ⟨d, heq, -, hd⟩
  · rw [heq, List.mem_singleton] at hc
    exact hline hc.symm
  · rw [heq] at hc
    rcases List.mem_cons.mp hc with hc | hc
    · exact absurd hc (by decide)
    · exact hd (List.mem_singleton.mp hc).symm

theorem readQuoted_escape (cs rest : List Char) :
    readQuoted false (cs.flatMap (escapeChar true) ++ '"' :: rest) = some (cs, rest) := by
  induction cs with
  | nil => rw [List.flatMap_nil, List.nil_append, readQuoted, if_pos rfl]
  | cons c cs ih =>
    rw [List.flatMap_cons, List.append_assoc]
    rcases escapeChar_cases true c with ⟨heq, hback, -, hquote⟩ | ⟨d, heq, hd, -⟩
    · rw [heq, List.singleton_append, readQuoted, if_neg (hquote rfl), if_neg hback, ih]
      rfl
    · rw [heq, List.cons_append, List.singleton_append, readQuoted, if_neg (by decide), if_pos rfl,
        readQuoted, hd, ih]
      rfl

theorem unescapeHelp_escape (cs : List Char) :
    unescapeHelp false (cs.flatMap (escapeChar false)) = some cs := by
  induction cs with
  | nil => rfl
  | cons c cs ih =>
    rw [List.flatMap_cons]
    rcases escapeChar_cases false c with ⟨heq, hback, -, -⟩ | ⟨d, heq, hd, -⟩
    · rw [heq, List.singleton_append, unescapeHelp, if_neg hback, ih]
      rfl
    · rw [heq, List.cons_append, List.singleton_append, unescapeHelp, if_pos rfl, unescapeHelp, hd, ih]
      rfl

def printLabel (label : String × String) : List Char :=
  label.1.toList ++ '=' :: '"' :: escape true label.2 ++ ['"']

def printLabels (labels : List (String × String)) : List Char :=
  [','].intercalate (labels.map printLabel)

def printLabelSet (labels : List (String × String)) : List Char :=
  if labels = [] then [] else '{' :: printLabels labels ++ ['}']

def IsLabelName (s : String) : Prop := IsName isLabelStart isLabelChar s.toList

def IsMetricName (s : String) : Prop := IsName isMetricStart isMetricChar s.toList

theorem readLabel_print {label : String × String} (h : IsLabelName label.1) (rest : List Char) :
    readLabel (printLabel label ++ rest) = some (label, rest) := by
  have happend : printLabel label ++ rest =
      label.1.toList ++ '=' :: '"' :: (escape true label.2 ++ '"' :: rest) := by
    simp [printLabel]
  have hname : readName isLabelStart isLabelChar (printLabel label ++ rest) =
      some (label.1.toList, '=' :: '"' :: (escape true label.2 ++ '"' :: rest)) := by
    rw [happend]
    exact readName_append h (stops_cons (by decide))
  rw [readLabel, hname]
  change (readQuoted false (escape true label.2 ++ '"' :: rest)).bind _ = _
  rw [escape, readQuoted_escape]
  change some ((String.ofList label.1.toList, String.ofList label.2.toList), rest) = _
  rw [String.ofList_toList, String.ofList_toList]

/-- Where the labels do not end, a label comes. -/
theorem readLabels_succ {n : ℕ} {name : String} (h : IsLabelName name) (cs : List Char) :
    readLabels (n + 1) (name.toList ++ cs) = (readLabel (name.toList ++ cs)).bind fun p =>
      readMore (readLabels n) p.1 (skipBlanks p.2) := by
  obtain ⟨c, rest, hname, hc, -⟩ := h
  have hblank : isBlank c = false := isBlank_eq_false hc (by decide) (by decide)
  have hbrace : c ≠ '}' := by
    rintro rfl
    exact absurd hc (by decide)
  rw [readLabels, hname, List.cons_append, skipBlanks_of_stops (stops_cons hblank)]
  split
  · case h_1 cs' heq =>
    rw [List.cons.injEq] at heq
    exact absurd heq.1 hbrace
  · rfl

theorem readLabels_print {labels : List (String × String)} (hne : labels ≠ [])
    (h : ∀ label ∈ labels, IsLabelName label.1) {n : ℕ} (hn : labels.length ≤ n) (rest : List Char) :
    readLabels n (printLabels labels ++ '}' :: rest) = some (labels, rest) := by
  induction labels generalizing n with
  | nil => exact absurd rfl hne
  | cons label labels ih =>
    obtain ⟨n, rfl⟩ : ∃ m, n = m + 1 := ⟨n - 1, by rw [List.length_cons] at hn; omega⟩
    have hlabel := h label List.mem_cons_self
    have hstep : ∀ cs, readLabels (n + 1) (printLabel label ++ cs) =
        readMore (readLabels n) label (skipBlanks cs) := by
      intro cs
      have hassoc : printLabel label ++ cs =
          label.1.toList ++ ('=' :: '"' :: escape true label.2 ++ ['"'] ++ cs) := by
        simp [printLabel]
      rw [hassoc, readLabels_succ hlabel, ← hassoc, readLabel_print hlabel]
      rfl
    cases labels with
    | nil =>
      have hprint : printLabels [label] = printLabel label := List.append_nil _
      rw [hprint, hstep, skipBlanks_of_stops (stops_cons (by decide))]
      rfl
    | cons label' labels =>
      have hprint : printLabels (label :: label' :: labels) ++ '}' :: rest =
          printLabel label ++ ',' :: (printLabels (label' :: labels) ++ '}' :: rest) := by
        rw [printLabels, List.map_cons, List.map_cons, List.intercalate_cons_cons]
        simp [printLabels]
      have hmore := ih (List.cons_ne_nil _ _) (fun l hl => h l (List.mem_cons_of_mem _ hl))
        (Nat.le_of_succ_le_succ hn)
      rw [hprint, hstep, skipBlanks_of_stops (stops_cons (by decide))]
      change (readLabels n _).bind _ = _
      rw [hmore]
      rfl

theorem printLabels_append (labels : List (String × String)) (label : String × String)
    (labels' : List (String × String)) :
    ∃ rest, printLabels (labels ++ label :: labels') =
      labels.flatMap (fun label => printLabel label ++ [',']) ++ (printLabel label ++ rest) := by
  induction labels with
  | nil =>
    cases labels' with
    | nil => exact ⟨[], rfl⟩
    | cons label' labels' => exact ⟨_, List.intercalate_cons_cons.trans (List.append_assoc _ _ _)⟩
  | cons first labels ih =>
    obtain ⟨rest, hrest⟩ := ih
    refine ⟨rest, ?_⟩
    have hcons : printLabels (first :: (labels ++ label :: labels')) =
        printLabel first ++ ',' :: printLabels (labels ++ label :: labels') := by
      cases labels with
      | nil => exact List.intercalate_cons_cons.trans (List.append_assoc _ _ _)
      | cons second labels => exact List.intercalate_cons_cons.trans (List.append_assoc _ _ _)
    rw [List.cons_append, hcons, hrest, List.flatMap_cons, List.append_assoc, List.append_assoc]
    rfl

/-- Labels that break off after the name of one are not read. -/
theorem readLabels_broken {labels : List (String × String)}
    (h : ∀ label ∈ labels, IsLabelName label.1) {name : String} (hname : IsLabelName name) (n : ℕ) :
    readLabels n (labels.flatMap (fun label => printLabel label ++ [',']) ++ name.toList) = none := by
  induction labels generalizing n with
  | nil =>
    cases n with
    | zero => rfl
    | succ n =>
      have hread : readName isLabelStart isLabelChar (name.toList ++ []) = some (name.toList, []) :=
        readName_append hname stops_nil
      rw [List.append_nil] at hread
      have hsucc := readLabels_succ (n := n) hname []
      rw [List.append_nil, readLabel, hread] at hsucc
      exact hsucc
  | cons label labels ih =>
    cases n with
    | zero => rfl
    | succ n =>
      have hlabel := h label List.mem_cons_self
      have hassoc : (label :: labels).flatMap (fun label => printLabel label ++ [',']) ++ name.toList =
          printLabel label ++
            ',' :: (labels.flatMap (fun label => printLabel label ++ [',']) ++ name.toList) := by
        simp
      have hassoc' : ∀ cs, printLabel label ++ cs =
          label.1.toList ++ ('=' :: '"' :: escape true label.2 ++ ['"'] ++ cs) := by
        simp [printLabel]
      rw [hassoc, hassoc', readLabels_succ hlabel, ← hassoc', readLabel_print hlabel]
      change (readLabels n _).bind _ = none
      rw [ih fun l hl => h l (List.mem_cons_of_mem _ hl)]
      rfl

/-! ### Samples and lines -/

theorem readNat_toString (n : ℕ) : readNat (toString n).toList = some n := by
  have hne : Nat.toDigits 10 n ≠ [] := Nat.toDigits_ne_nil
  have hdigits : ∀ c ∈ Nat.toDigits 10 n, c.isDigit = true := fun c hc =>
    Nat.isDigit_of_mem_toDigits (by decide) (Nat.le_refl 10) hc
  have hlist : (toString n).toList = Nat.toDigits 10 n := Nat.toList_repr
  rw [hlist, readNat, if_pos ⟨hne, List.all_eq_true.mpr hdigits⟩, Nat.ofDigitChars_ten_toDigits]

theorem isDigit_of_mem_toString {n : ℕ} {c : Char} (h : c ∈ (toString n).toList) :
    c.isDigit = true := by
  have hlist : (toString n).toList = Nat.toDigits 10 n := Nat.toList_repr
  rw [hlist] at h
  exact Nat.isDigit_of_mem_toDigits (by decide) (Nat.le_refl 10) h

theorem readInt_toString (t : ℤ) : readInt (toString t).toList = some t := by
  cases t with
  | ofNat n =>
    have hread := readNat_toString n
    change readInt (toString n).toList = _
    cases hlist : (toString n).toList with
    | nil =>
      rw [hlist] at hread
      cases hread
    | cons c cs =>
      have hc : c ≠ '-' := by
        rintro rfl
        have hdigit := isDigit_of_mem_toString (n := n) (hlist ▸ List.mem_cons_self)
        exact absurd hdigit (by decide)
      rw [readInt, ← hlist, hread]
      · rfl
      · intro cs' heq
        rw [List.cons.injEq] at heq
        exact hc heq.1
  | negSucc n =>
    have hlist : (toString (Int.negSucc n)).toList = '-' :: (toString (n + 1)).toList := by
      change ("-" ++ toString (n + 1)).toList = _
      rw [String.toList_append]
      rfl
    rw [hlist, readInt, readNat_toString]
    rfl

/-- The characters that numerals are made of. -/
def isNumeralChar (c : Char) : Bool := c.isAlphanum || c == '.' || c == '+' || c == '-'

/-- A class of characters has none of the others. -/
theorem ne_of_class {p : Char → Bool} {c d : Char} (h : p c = true) (hd : p d = false) : c ≠ d := by
  rintro rfl
  rw [h] at hd
  cases hd

theorem isToken_of_numeral {cs : List Char} (hne : cs ≠ []) (h : ∀ c ∈ cs, isNumeralChar c = true) :
    IsToken cs ∧ cs.head? ≠ some '{' ∧ '\n' ∉ cs := by
  refine ⟨⟨hne, fun c hc => isBlank_eq_false (h c hc) (by decide) (by decide)⟩, fun hhead => ?_,
    fun hc => ne_of_class (h _ hc) (by decide) rfl⟩
  exact ne_of_class (h _ (List.mem_of_head? hhead)) (by decide) rfl

theorem isNumeralChar_of_mem_toString {t : ℤ} {c : Char} (h : c ∈ (toString t).toList) :
    isNumeralChar c = true := by
  have hdigit : ∀ {n : ℕ}, c ∈ (toString n).toList → isNumeralChar c = true := by
    intro n hc
    simp [isNumeralChar, Char.isAlphanum, isDigit_of_mem_toString hc]
  cases t with
  | ofNat n => exact hdigit h
  | negSucc n =>
    change c ∈ ("-" ++ toString (n + 1)).toList at h
    rw [String.toList_append] at h
    rcases List.mem_append.mp h with h | h
    · rw [List.mem_singleton.mp h]
      rfl
    · exact hdigit h

theorem toString_ne_nil (t : ℤ) : (toString t).toList ≠ [] := by
  intro hnil
  have hread := readInt_toString t
  rw [hnil] at hread
  cases hread

theorem isToken_toString (t : ℤ) : IsToken (toString t).toList :=
  (isToken_of_numeral (toString_ne_nil t) fun _ hc => isNumeralChar_of_mem_toString hc).1

def printTimestamp : Option ℤ → List Char
  | none => []
  | some t => ' ' :: (toString t).toList

/-- A sample, with its value as text. -/
def printSample (name : String) (labels : List (String × String)) (value : List Char)
    (timestamp : Option ℤ) : List Char :=
  name.toList ++ (printLabelSet labels ++ ' ' :: (value ++ printTimestamp timestamp))

theorem printTimestamp_eq (timestamp : Option ℤ) :
    printTimestamp timestamp = [] ∨ ∃ cs, printTimestamp timestamp = ' ' :: cs := by
  cases timestamp with
  | none => exact .inl rfl
  | some t => exact .inr ⟨_, rfl⟩

theorem readTimestamp_print (timestamp : Option ℤ) :
    readTimestamp (skipBlanks (printTimestamp timestamp)) = some timestamp := by
  cases timestamp with
  | none => rfl
  | some t =>
    have htoken := isToken_toString t
    have hstops : Stops isBlank ((toString t).toList ++ []) := htoken.stops
    have hread : readToken ((toString t).toList ++ []) = some ((toString t).toList, []) :=
      readToken_append htoken (.inl rfl)
    rw [List.append_nil] at hstops hread
    rw [printTimestamp, skipBlanks_blank, skipBlanks_of_stops hstops, readTimestamp,
      if_neg htoken.1, hread]
    change (readInt (toString t).toList).map some = _
    rw [readInt_toString]
    rfl

theorem stops_printLabelSet (labels : List (String × String)) (cs : List Char) :
    Stops isMetricChar (printLabelSet labels ++ ' ' :: cs) := by
  unfold printLabelSet
  split
  · exact stops_cons (by decide)
  · exact stops_cons (by decide)

theorem length_le_printLabels (labels : List (String × String)) :
    labels.length ≤ (printLabels labels).length := by
  induction labels with
  | nil => exact Nat.zero_le _
  | cons label labels ih =>
    have hlabel : 1 ≤ (printLabel label).length := by
      simp only [printLabel, List.length_append, List.length_cons]
      omega
    cases labels with
    | nil =>
      have hprint : printLabels [label] = printLabel label := List.append_nil _
      rw [hprint]
      exact hlabel
    | cons label' labels =>
      rw [printLabels, List.map_cons, List.map_cons, List.intercalate_cons_cons,
        List.length_append, List.length_append]
      rw [printLabels, List.map_cons] at ih
      simp only [List.length_cons] at ih ⊢
      omega

/-- The labels of a printed sample are read, up to blanks before its value. -/
theorem readLabelSet_print {labels : List (String × String)}
    (h : ∀ label ∈ labels, IsLabelName label.1) {value rest : List Char} (hvalue : IsToken value)
    (hbrace : value.head? ≠ some '{') :
    ∃ cs, readLabelSet (skipBlanks (printLabelSet labels ++ ' ' :: (value ++ rest))) =
        some (labels, cs) ∧ skipBlanks cs = value ++ rest := by
  have hskip : skipBlanks (value ++ rest) = value ++ rest := skipBlanks_of_stops hvalue.stops
  unfold printLabelSet
  split
  · case isTrue hnil =>
    refine ⟨value ++ rest, ?_, hskip⟩
    rw [List.nil_append, skipBlanks_blank, hskip, hnil]
    cases value with
    | nil => exact absurd rfl hvalue.1
    | cons c value =>
      rw [List.cons_append, readLabelSet]
      intro cs heq
      rw [List.cons.injEq] at heq
      exact hbrace (congrArg some heq.1)
  · case isFalse hnil =>
    refine ⟨' ' :: (value ++ rest), ?_, by rw [skipBlanks_blank, hskip]⟩
    have happend : '{' :: printLabels labels ++ ['}'] ++ ' ' :: (value ++ rest) =
        '{' :: (printLabels labels ++ '}' :: ' ' :: (value ++ rest)) := by simp
    rw [happend, skipBlanks_of_stops (stops_cons (by decide)), readLabelSet]
    apply readLabels_print hnil h
    have hle := length_le_printLabels labels
    rw [List.length_append]
    omega

theorem readSample_print {name : String} {labels : List (String × String)} {value : List Char}
    (hname : IsMetricName name) (hlabels : ∀ label ∈ labels, IsLabelName label.1)
    (hnodup : (labels.map Prod.fst).Nodup) (hvalue : IsToken value) (hbrace : value.head? ≠ some '{')
    (timestamp : Option ℤ) :
    readSample readValue (printSample name labels value timestamp) =
      (readValue (.ofList value)).map fun v => ⟨name, labels, v, timestamp⟩ := by
  rw [readSample, printSample, readName_append hname (stops_printLabelSet _ _)]
  change (readLabelSet _).bind _ = _
  obtain ⟨cs, hset, hcs⟩ : ∃ cs, readLabelSet (skipBlanks (printLabelSet labels ++
      ' ' :: (value ++ printTimestamp timestamp))) = some (labels, cs) ∧
        skipBlanks cs = value ++ printTimestamp timestamp := readLabelSet_print hlabels hvalue hbrace
  rw [hset]
  change (readToken (skipBlanks cs)).bind _ = _
  rw [hcs, readToken_append hvalue (printTimestamp_eq timestamp)]
  change (readValue (.ofList value)).bind _ = _
  cases readValue (.ofList value) with
  | none => rfl
  | some v =>
    change (readTimestamp _).bind _ = _
    rw [readTimestamp_print]
    change (if _ then some (Sample.mk (String.ofList name.toList) labels v timestamp) else none) = _
    rw [if_pos hnodup, String.ofList_toList]
    rfl

theorem isMetricStart_ne {c : Char} (h : isMetricStart c = true) :
    isBlank c = false ∧ c ≠ '#' := by
  refine ⟨isBlank_eq_false h (by decide) (by decide), ?_⟩
  rintro rfl
  exact absurd h (by decide)

/-- A line that starts with a metric name is a sample. -/
theorem parseLine_of_metric {name : String} (h : IsMetricName name) (cs : List Char) :
    parseLine readValue (name.toList ++ cs) =
      (readSample readValue (name.toList ++ cs)).map .sample := by
  obtain ⟨c, rest, hname, hc, -⟩ := h
  obtain ⟨hblank, hhash⟩ := isMetricStart_ne hc
  rw [hname, List.cons_append, parseLine, skipBlanks_of_stops (stops_cons hblank)]
  split
  · case h_1 heq => cases heq
  · case h_2 heq =>
    rw [List.cons.injEq] at heq
    exact absurd heq.1 hhash
  · rfl

/-- A line that breaks off after a metric name has no value. -/
theorem parseLine_name {name : String} (h : IsMetricName name) :
    parseLine readValue name.toList = none := by
  have hparse := parseLine_of_metric readValue h []
  have hread : readName isMetricStart isMetricChar (name.toList ++ []) = some (name.toList, []) :=
    readName_append h stops_nil
  rw [List.append_nil] at hparse hread
  rw [hparse, readSample, hread]
  rfl

/-- A line that breaks off after the name of a label is none. -/
theorem parseLine_broken {name : String} (h : IsMetricName name) {labels : List (String × String)}
    (hlabels : ∀ label ∈ labels, IsLabelName label.1) {key : String} (hkey : IsLabelName key) :
    parseLine readValue (name.toList ++
      '{' :: (labels.flatMap (fun label => printLabel label ++ [',']) ++ key.toList)) = none := by
  rw [parseLine_of_metric readValue h, readSample,
    readName_append h (stops_cons (by decide))]
  change ((readLabelSet (skipBlanks ('{' :: _))).bind _).map _ = none
  rw [skipBlanks_of_stops (stops_cons (by decide)), readLabelSet, readLabels_broken hlabels hkey]
  rfl

def printHelp (name doc : String) : List Char :=
  '#' :: ' ' :: ("HELP".toList ++ ' ' :: (name.toList ++ ' ' :: escape false doc))

theorem skipBlanks_escape (doc : String) :
    skipBlanks (escape false doc) = escape false (.ofList (skipBlanks doc.toList)) := by
  rw [escape, escape, String.toList_ofList]
  induction doc.toList with
  | nil => rfl
  | cons c cs ih =>
    cases hb : isBlank c with
    | true =>
      have hescape : escapeChar false c = [c] := by
        rcases Bool.or_eq_true_iff.mp hb with hc | hc
        · rw [eq_of_beq hc]
          rfl
        · rw [eq_of_beq hc]
          rfl
      rw [List.flatMap_cons, hescape, List.singleton_append, skipBlanks,
        List.dropWhile_cons_of_pos hb, skipBlanks, List.dropWhile_cons_of_pos hb]
      exact ih
    | false =>
      have hskip : skipBlanks (c :: cs) = c :: cs := skipBlanks_of_stops (stops_cons hb)
      rw [hskip]
      apply skipBlanks_of_stops
      rw [List.flatMap_cons]
      rcases escapeChar_cases false c with ⟨heq, -⟩ | ⟨d, heq, -⟩
      · rw [heq]
        exact stops_cons hb
      · rw [heq]
        exact stops_cons (by decide)

/-- Blanks at the start of a help text are not kept. -/
theorem parseLine_help {name : String} (h : IsMetricName name) (doc : String) :
    parseLine readValue (printHelp name doc) =
      some (.help name (.ofList (skipBlanks doc.toList))) := by
  have htoken : IsToken "HELP".toList := isToken_of_all (by decide) (by decide)
  have hstops : Stops isBlank ("HELP".toList ++ ' ' :: (name.toList ++ ' ' :: escape false doc)) :=
    htoken.stops
  obtain ⟨c, rest, hname, hc, -⟩ := id h
  have hskip : skipBlanks (name.toList ++ ' ' :: escape false doc) =
      name.toList ++ ' ' :: escape false doc := by
    rw [hname]
    exact skipBlanks_of_stops (stops_cons (isMetricStart_ne hc).1)
  rw [printHelp, parseLine, skipBlanks_of_stops (stops_cons (by decide))]
  change readComment (skipBlanks (' ' :: _)) = _
  rw [skipBlanks_blank, skipBlanks_of_stops hstops, readComment,
    readToken_append htoken (.inr ⟨_, rfl⟩)]
  change readHelp (' ' :: _) = _
  rw [readHelp, skipBlanks_blank, hskip, readName_append h (stops_cons (by decide))]
  change (unescapeHelp false (skipBlanks (' ' :: escape false doc))).bind _ = _
  rw [skipBlanks_blank, skipBlanks_escape, escape, String.toList_ofList, unescapeHelp_escape]
  change some (Line.help (String.ofList name.toList) _) = _
  rw [String.ofList_toList]

def printType (name type : String) : List Char :=
  '#' :: ' ' :: ("TYPE".toList ++ ' ' :: (name.toList ++ ' ' :: type.toList))

theorem parseLine_type {name type : String} (h : IsMetricName name) (htype : type ∈ metricTypes) :
    parseLine readValue (printType name type) = some (.type name type) := by
  have htoken : IsToken "TYPE".toList := isToken_of_all (by decide) (by decide)
  have hstops : Stops isBlank ("TYPE".toList ++ ' ' :: (name.toList ++ ' ' :: type.toList)) :=
    htoken.stops
  obtain ⟨hne, hall⟩ := (by decide : ∀ type ∈ metricTypes, type.toList ≠ [] ∧
    type.toList.all (!isBlank ·) = true) type htype
  have htypeToken := isToken_of_all hne hall
  obtain ⟨c, rest, hname, hc, -⟩ := id h
  have hskip : skipBlanks (name.toList ++ ' ' :: type.toList) = name.toList ++ ' ' :: type.toList := by
    rw [hname]
    exact skipBlanks_of_stops (stops_cons (isMetricStart_ne hc).1)
  have htypeStops : Stops isBlank (type.toList ++ []) := htypeToken.stops
  have hread : readToken (type.toList ++ []) = some (type.toList, []) :=
    readToken_append htypeToken (.inl rfl)
  rw [List.append_nil] at htypeStops hread
  rw [printType, parseLine, skipBlanks_of_stops (stops_cons (by decide))]
  change readComment (skipBlanks (' ' :: _)) = _
  rw [skipBlanks_blank, skipBlanks_of_stops hstops, readComment,
    readToken_append htoken (.inr ⟨_, rfl⟩)]
  change readType (' ' :: _) = _
  rw [readType, skipBlanks_blank, hskip, readName_append h (stops_cons (by decide))]
  change (readToken (skipBlanks (' ' :: type.toList))).bind _ = _
  rw [skipBlanks_blank, skipBlanks_of_stops htypeStops, hread]
  change (if _ then some (Line.type (String.ofList name.toList) (String.ofList type.toList)) else none) = _
  rw [String.ofList_toList, String.ofList_toList, if_pos ⟨rfl, htype⟩]

/-! ### Texts -/

/-- The lines of a group. -/
def Family.lines (family : Family V) : List (Line V) :=
  family.help.toList.map (.help family.name) ++ family.type.toList.map (.type family.name) ++
    family.samples.map .sample

theorem openFamily_new {name : String} {families : List (Family V)}
    (h : name ∉ families.map Family.name) : openFamily name families = some ({ name }, families) := by
  cases families with
  | nil => rfl
  | cons family families =>
    rw [List.map_cons, List.mem_cons, not_or] at h
    rw [openFamily, if_neg fun he => h.1 he.symm, if_neg h.2]

theorem openFamily_same {name : String} {family : Family V} (h : family.name = name)
    (families : List (Family V)) : openFamily name (family :: families) = some (family, families) :=
  if_pos h

variable {name : String} {families families' : List (Family V)}

theorem foldlM_help (help : Option String)
    (hopen : openFamily name families = some ({ name }, families')) :
    ∃ opened, (help.toList.map (Line.help name)).foldlM addLine families = some opened ∧
      openFamily name opened = some ({ name, help }, families') := by
  cases help with
  | none => exact ⟨families, rfl, hopen⟩
  | some help =>
    have hline : addLine families (.help name help) = some ({ name, help := some help } :: families') := by
      rw [addLine, hopen]
      rfl
    refine ⟨{ name, help := some help } :: families', ?_, openFamily_same rfl _⟩
    rw [Option.toList_some, List.map_singleton, List.foldlM_cons, hline]
    rfl

theorem foldlM_type {help : Option String} (type : Option String)
    (hopen : openFamily name families = some ({ name, help }, families')) :
    ∃ opened, (type.toList.map (Line.type name)).foldlM addLine families = some opened ∧
      openFamily name opened = some ({ name, help, type }, families') := by
  cases type with
  | none => exact ⟨families, rfl, hopen⟩
  | some type =>
    have hline : addLine families (.type name type) =
        some ({ name, help, type := some type } :: families') := by
      rw [addLine, hopen]
      rfl
    refine ⟨{ name, help, type := some type } :: families', ?_, openFamily_same rfl _⟩
    rw [Option.toList_some, List.map_singleton, List.foldlM_cons, hline]
    rfl

/-- Samples of a group that is open, or that the first of them opens. -/
theorem foldlM_samples {help type : Option String} {before samples : List (Sample V)}
    (hne : samples ≠ []) (h : ∀ sample ∈ samples, sample.name = name)
    (hopen : openFamily name families = some (⟨name, help, type, before⟩, families')) :
    (samples.map Line.sample).foldlM addLine families =
      some (⟨name, help, type, before ++ samples⟩ :: families') := by
  induction samples generalizing before families with
  | nil => exact absurd rfl hne
  | cons sample samples ih =>
    have hline : addLine families (.sample sample) =
        some (⟨name, help, type, before ++ [sample]⟩ :: families') := by
      rw [addLine, h sample List.mem_cons_self, hopen]
      rfl
    rw [List.map_cons, List.foldlM_cons, hline]
    change (samples.map Line.sample).foldlM addLine _ = _
    cases samples with
    | nil => rfl
    | cons sample' samples =>
      rw [ih (List.cons_ne_nil _ _) (fun s hs => h s (List.mem_cons_of_mem _ hs))
        (openFamily_same rfl _), List.append_assoc, List.singleton_append]

/-- The lines of a group make the group, if its name is new. -/
theorem foldlM_lines {family : Family V} (hne : family.samples ≠ [])
    (h : ∀ sample ∈ family.samples, sample.name = family.name)
    (hnew : family.name ∉ families.map Family.name) :
    family.lines.foldlM addLine families = some (family :: families) := by
  obtain ⟨opened, hhelp, hopened⟩ := foldlM_help family.help (openFamily_new hnew)
  obtain ⟨opened', htype, hopened'⟩ := foldlM_type family.type hopened
  rw [Family.lines, List.foldlM_append, List.foldlM_append, hhelp]
  change ((family.type.toList.map (Line.type family.name)).foldlM addLine opened).bind _ = _
  rw [htype]
  exact foldlM_samples hne h hopened'

/-- Groups of new names, each after empty lines. -/
theorem foldlM_families {groups : List (Family V)} {blocks : List (List (Line V))}
    (h : List.Forall₂ (fun family block => ∃ blanks, (∀ line ∈ blanks, line = .blank) ∧
      block = blanks ++ family.lines) groups blocks)
    (hgroups : ∀ family ∈ groups, family.samples ≠ [] ∧
      ∀ sample ∈ family.samples, sample.name = family.name)
    {families : List (Family V)}
    (hnodup : (groups.map Family.name ++ families.map Family.name).Nodup) :
    blocks.flatten.foldlM addLine families = some (groups.reverse ++ families) := by
  induction h generalizing families with
  | nil => rfl
  | @cons family block groups blocks hblock _ ih =>
    obtain ⟨blanks, hblanks, rfl⟩ := hblock
    have hskip : blanks.foldlM addLine families = some families := by
      clear ih
      induction blanks with
      | nil => rfl
      | cons line blanks ih =>
        rw [List.foldlM_cons, hblanks line List.mem_cons_self]
        exact ih fun line hline => hblanks line (List.mem_cons_of_mem _ hline)
    obtain ⟨hne, hnames⟩ := hgroups family List.mem_cons_self
    rw [List.map_cons, List.cons_append, List.nodup_cons] at hnodup
    have hnew : family.name ∉ families.map Family.name := fun hm =>
      hnodup.1 (List.mem_append_right _ hm)
    have hrest : (groups.map Family.name ++ (family :: families).map Family.name).Nodup := by
      rw [List.map_cons]
      exact List.perm_middle.nodup_iff.mpr (List.nodup_cons.mpr hnodup)
    rw [List.flatten_cons, List.foldlM_append, List.foldlM_append, hskip]
    change ((family.lines.foldlM addLine families).bind _) = _
    rw [foldlM_lines hne hnames hnew]
    refine (ih (fun family hfamily => hgroups family (List.mem_cons_of_mem _ hfamily)) hrest).trans ?_
    rw [List.reverse_cons, List.append_assoc, List.singleton_append]

/-- Lines as text. -/
def render (lines : List (List Char)) : List Char := lines.flatMap (· ++ ['\n'])

theorem splitOn_render {lines : List (List Char)} (h : ∀ line ∈ lines, '\n' ∉ line) :
    (render lines).splitOn '\n' = lines ++ [[]] := by
  induction lines with
  | nil => rfl
  | cons line lines ih =>
    have happend : render (line :: lines) = line ++ '\n' :: render lines := by
      rw [render, List.flatMap_cons, List.append_assoc, List.singleton_append]
      rfl
    rw [happend, List.splitOn_append_cons_self, List.splitOn_eq_singleton (h line List.mem_cons_self),
      ih fun line hline => h line (List.mem_cons_of_mem _ hline)]
    rfl

/-- A text of whole lines. -/
theorem parse_render {lines : List (List Char)} (h : ∀ line ∈ lines, '\n' ∉ line) {text : String}
    (htext : text.toList = render lines) :
    parse readValue text = (lines.mapM (parseLine readValue)).bind fun lines =>
      (lines.foldlM addLine []).map List.reverse := by
  have hmap : (lines ++ [[]]).mapM (parseLine readValue) =
      (lines.mapM (parseLine readValue)).map (· ++ [.blank]) := by
    rw [List.mapM_append]
    cases lines.mapM (parseLine readValue) with
    | none => rfl
    | some lines => rfl
  rw [parse, htext, splitOn_render h, if_pos List.getLast?_concat, hmap]
  cases lines.mapM (parseLine readValue) with
  | none => rfl
  | some lines =>
    change ((lines ++ [Line.blank]).foldlM addLine []).bind _ = ((lines.foldlM addLine []).map _)
    rw [List.foldlM_append]
    cases lines.foldlM addLine [] with
    | none => rfl
    | some families => rfl

/-- Every line of a text that is read is a line of the format. -/
theorem parseLine_of_parse {text : String} {families : List (Family V)}
    (h : parse readValue text = some families) {before line after : List Char}
    (hline : '\n' ∉ line) (hbefore : before = [] ∨ ∃ cs, before = cs ++ ['\n'])
    (htext : text.toList = before ++ line ++ '\n' :: after) :
    ∃ parsed, parseLine readValue line = some parsed := by
  have hmem : line ∈ text.toList.splitOn '\n' := by
    have hrest : line ∈ (line ++ '\n' :: after).splitOn '\n' := by
      rw [List.splitOn_append_cons_self, List.splitOn_eq_singleton hline]
      exact List.mem_cons_self
    rw [htext]
    rcases hbefore with rfl | ⟨cs, rfl⟩
    · exact hrest
    · rw [List.append_assoc, List.append_assoc, List.singleton_append, List.splitOn_append_cons_self]
      exact List.mem_append_right _ hrest
  unfold parse at h
  dsimp only at h
  split at h
  · obtain ⟨lines, hlines, -⟩ := Option.bind_eq_some_iff.mp h
    clear h
    revert hmem
    generalize text.toList.splitOn '\n' = split at hlines
    intro hmem
    induction split generalizing lines with
    | nil => exact absurd hmem List.not_mem_nil
    | cons first split ih =>
      rw [List.mapM_cons] at hlines
      obtain ⟨parsed, hparsed, hlines⟩ := Option.bind_eq_some_iff.mp hlines
      obtain ⟨rest, hrest, -⟩ := Option.bind_eq_some_iff.mp hlines
      rcases List.mem_cons.mp hmem with rfl | hmem
      · exact ⟨parsed, hparsed⟩
      · exact ih rest hrest hmem
  · cases h

end Prometheus
