import Wca.Py.Dict
import Wca.Py.Exec
import Wca.Py.Float
import Wca.Py.Re

/-!
# The zones of the memory

`get_zoneinfo_measurements` reads `/proc/zoneinfo` line by line and keeps the node and the zone it is
in. The statistics of a node stand inside its first zone, so the zone is put aside there and taken up
again at the line `pages`. In the layout of the kernel each value is then that of its own zone
(`getZoneinfoMeasurements_exact`).
-/

namespace Wca.Zoneinfo

open Py

/-- The exceptions that reading raises. The last one is a `NameError`. -/
inductive ZoneExn where
  | builtin (e : Exn)
  | UnboundLocalError (name : String)
  deriving DecidableEq

/-- The numbers of each zone of each node. -/
abbrev Measurements (F : Type) := Dict String (Dict String (Dict String F))

def perNodeStats : String := "per-node-stats"

/-- `[a-z_]`. -/
def isKeyChar (c : Char) : Bool := ('a' ≤ c ∧ c ≤ 'z') || c = '_'

/-- `\d`, the decimal digits of every script. -/
def isDecimal (c : Char) : Bool := (Str.decimal? c).isSome

/-- `re.compile(r'\s+([a-z_]+)\s+(\d+)').match(line)`, with its two groups. -/
def defaultRegexp (line : String) : Option (String × String) :=
  match Re.matchPlus [Str.isSpace, isKeyChar, Str.isSpace, isDecimal] line.toList with
  | some [_, key, _, value] => some (.ofList key, .ofList value)
  | _ => none

section Reading

variable {F : Type}

/-- The local variables of the loop. -/
structure State (F : Type) where
  numaNode : Option String
  zone : Option String
  prevZone : Option String
  measurements : Measurements F

def readLocal (name : String) (value : Option String) : Except ZoneExn String :=
  match value with
  | some value => .ok value
  | none => .error (.UnboundLocalError name)

/-- `parts[i]`. -/
def part (parts : List String) (i : ℕ) : Except ZoneExn String :=
  match parts[i]? with
  | some part => .ok part
  | none => .error (.builtin (.IndexError "list index out of range"))

/-- `measurements[numa_node][zone][key] = value`; what is not there yet is added. -/
def record (measurements : Measurements F) (numaNode zone key : String) (value : F) :
    Measurements F :=
  let zones := (measurements.get? numaNode).getD ∅
  measurements.set numaNode (zones.set zone (((zones.get? zone).getD ∅).set key value))

/-- A line that begins with `Node `. -/
def readNode (s : State F) (line : String) : Except ZoneExn (State F) := do
  let parts := Str.words line
  let id ← Except.mapError .builtin (Str.int 10 (Str.rstrip [','] (← part parts 1)))
  let zone := Str.rstrip [','] (← part parts 3)
  return { s with numaNode := some (toString id), zone := some zone }

/-- The zone is put aside. -/
def readPerNodeStats (s : State F) : Except ZoneExn (State F) := do
  let zone ← readLocal "zone" s.zone
  return { s with prevZone := some zone, zone := some perNodeStats }

/-- The zone is taken up again, when it was put aside. -/
def restoreZone (s : State F) : Except ZoneExn (State F) := do
  let zone ← readLocal "zone" s.zone
  if zone = perNodeStats then
    match s.prevZone with
    | some prevZone => return { s with zone := some prevZone }
    | none => .error (.builtin (.AssertionError "should only happen after per-node stats"))
  else return s

/-- The line `  pages` without its first word. The characters of the prefix are taken off as long as
there are any. -/
def stripPages (line : String) : String := " " ++ Str.lstrip "  pages".toList line

/-- A line with a key and a value. A value that is no number is left out. -/
def readValue (float : String → Except Exn F) (zoneinfoRegexp : String → Option (String × String))
    (s : State F) (line : String) : Except ZoneExn (State F) :=
  match zoneinfoRegexp line with
  | none => .ok s
  | some (key, text) =>
    match float text with
    | .error (.ValueError _) => .ok s
    | .error e => .error (.builtin e)
    | .ok value => do
      let numaNode ← readLocal "numa_node" s.numaNode
      let zone ← readLocal "zone" s.zone
      return { s with measurements := record s.measurements numaNode zone key value }

/-- The body of the loop. -/
def readLine (float : String → Except Exn F) (zoneinfoRegexp : String → Option (String × String))
    (s : State F) (line : String) : Except ZoneExn (State F) :=
  if Str.startsWith "Node " line then readNode s line
  else if Str.startsWith "  per-node stats" line then readPerNodeStats s
  else if Str.startsWith "  pages" line then do
    let s ← restoreZone s
    readValue float zoneinfoRegexp s (stripPages line)
  else readValue float zoneinfoRegexp s line

/-- `get_zoneinfo_measurements`, of the text of `/proc/zoneinfo`. -/
def getZoneinfoMeasurements (float : String → Except Exn F)
    (zoneinfoRegexp : String → Option (String × String)) (text : String) :
    Except ZoneExn (Dict String (Measurements F)) := do
  let s ← (Str.readlines text).foldlM (readLine float zoneinfoRegexp) ⟨none, none, none, ∅⟩
  return .ofItems [("platform_zoneinfo", s.measurements)]

end Reading

/-! ## The layout of the kernel -/

/-- A key, as the pattern reads it. -/
structure Key where
  text : String
  ne_nil : text.toList ≠ []
  isKeyChar : ∀ c ∈ text.toList, isKeyChar c = true

structure ZoneName where
  text : String
  ne_nil : text.toList ≠ []
  chars : ∀ c ∈ text.toList, Str.isSpace c = false ∧ c ≠ ','
  ne : text ≠ perNodeStats

/-- A line that the pattern does not match, and that does not begin as those that divide the file. -/
structure OtherLine where
  text : String
  newline : '\n' ∉ text.toList
  divides : ∀ p ∈ ["Node ", "  per-node stats", "  pages"], Str.startsWith p text = false
  unmatched : defaultRegexp text = none

/-- A line with a key and a value, further in than the line `pages`, or another line. -/
inductive Line where
  | keyValue (indent gap : ℕ) (key : Key) (value : ℕ)
  | other (line : OtherLine)

/-- A zone: its name, perhaps the statistics of the node, the free pages, and what follows. The last
lines are those of the processors. -/
structure Zone where
  name : ZoneName
  pad : ℕ
  toptier : Option ℕ
  perNode : Option (List Line)
  gap : ℕ
  freePages : ℕ
  lines : List Line
  pagesets : Option (List Line)

structure Node where
  id : ℕ
  zones : List Zone

def blanks (n : ℕ) : String := .ofList (List.replicate n ' ')

def Line.text : Line → String
  | .keyValue indent gap key value =>
    "   " ++ blanks indent ++ key.text ++ " " ++ blanks gap ++ toString value
  | .other line => line.text

namespace Zone

def header (zone : Zone) (id : ℕ) : String :=
  "Node " ++ toString id ++ ", zone " ++ blanks zone.pad ++ zone.name.text ++
    (zone.toptier.map fun tier => ", toptier " ++ toString tier).getD ""

def free (zone : Zone) : String :=
  "  pages free " ++ blanks zone.gap ++ toString zone.freePages

def texts (zone : Zone) (id : ℕ) : List String :=
  zone.header id :: (zone.perNode.map fun lines => "  per-node stats" :: lines.map Line.text).getD [] ++
    zone.free :: zone.lines.map Line.text ++
      (zone.pagesets.map fun lines => "  pagesets" :: lines.map Line.text).getD []

end Zone

/-- The text of the file. -/
def text (nodes : List Node) : String :=
  Str.join '\n' ((nodes.flatMap fun node => node.zones.flatMap (Zone.texts · node.id)) ++ [""])

/-- A value, and where it stands. -/
structure Given where
  node : String
  zone : String
  key : String
  value : ℕ

def Line.given (node zone : String) : Line → List Given
  | .keyValue _ _ key value => [⟨node, zone, key.text, value⟩]
  | .other _ => []

def Zone.given (zone : Zone) (id : ℕ) : List Given :=
  (zone.perNode.getD []).flatMap (Line.given (toString id) perNodeStats) ++
    ⟨toString id, zone.name.text, "free", zone.freePages⟩ ::
      (zone.lines ++ zone.pagesets.getD []).flatMap (Line.given (toString id) zone.name.text)

def given (nodes : List Node) : List Given :=
  nodes.flatMap fun node => node.zones.flatMap (Zone.given · node.id)

/-- The value that the file gives for a key of a zone; of two in one zone it is the last. -/
def valueGiven (nodes : List Node) (node zone key : String) : Option ℕ :=
  (((given nodes).filter fun g => (g.node, g.zone, g.key) = (node, zone, key)).getLast?).map (·.value)

def lookup {F : Type} (measurements : Measurements F) (node zone key : String) : Option F := do
  (← (← measurements.get? node).get? zone).get? key

/-- A value is recorded where it stands. -/
def recordGiven {F : Type} (value : ℕ → F) (measurements : Measurements F) (g : Given) :
    Measurements F := record measurements g.node g.zone g.key (value g.value)

section Layout

variable {F : Type} {float : String → Except Exn F} {value : ℕ → F}

/-! ### One line -/

theorem words_blanks (n : ℕ) (cs : List Char) :
    Str.words (.ofList (List.replicate n ' ' ++ cs)) = Str.words (.ofList cs) := by
  induction n with
  | zero => rfl
  | succ n ih => exact (Str.words_blank (by decide)).trans ih

/-- What follows the blanks of a header. -/
theorem words_name (name : ZoneName) (toptier : Option ℕ) : ∃ word rest,
    Str.words (.ofList (name.text.toList ++
        ((toptier.map fun tier => ", toptier " ++ toString tier).getD "").toList)) = word :: rest ∧
      Str.rstrip [','] word = name.text := by
  have hspace : ∀ c ∈ name.text.toList, Str.isSpace c = false := fun c hc => (name.chars c hc).1
  have hcomma : ∀ c ∈ name.text.toList, c ∉ [','] := fun c hc hin =>
    (name.chars c hc).2 (List.mem_singleton.mp hin)
  cases toptier with
  | none =>
    refine ⟨.ofList name.text.toList, [], ?_, ?_⟩
    · rw [Option.map_none, Option.getD_none, String.toList_empty, List.append_nil]
      exact Str.words_eq_singleton name.ne_nil hspace
    · have hstrip : Str.rstrip [','] (.ofList (name.text.toList ++ [])) = .ofList name.text.toList :=
        Str.rstrip_append hcomma fun _ hc => (by cases hc)
      rw [List.append_nil] at hstrip
      rw [hstrip, String.ofList_toList]
  | some tier =>
    have hword : ∀ c ∈ name.text.toList ++ [','], Str.isSpace c = false := by
      intro c hc
      obtain hc | hc := List.mem_append.mp hc
      · exact hspace c hc
      · rw [List.mem_singleton.mp hc]
        decide
    have htail : name.text.toList ++ (", toptier " ++ toString tier).toList =
        (name.text.toList ++ [',']) ++ ' ' :: ("toptier ".toList ++ (toString tier).toList) := by
      simp
    refine ⟨.ofList (name.text.toList ++ [',']),
      Str.words (.ofList ("toptier ".toList ++ (toString tier).toList)), ?_, ?_⟩
    · rw [Option.map_some, Option.getD_some, htail]
      exact Str.words_append (by simp) hword (by decide)
    · rw [Str.rstrip_append hcomma fun c hc => hc, String.ofList_toList]

theorem words_header (zone : Zone) (id : ℕ) : ∃ word rest, Str.words (zone.header id) =
      "Node" :: .ofList ((toString id).toList ++ [',']) :: "zone" :: word :: rest ∧
    Str.rstrip [','] word = zone.name.text := by
  have hid : ∀ c ∈ (toString id).toList ++ [','], Str.isSpace c = false := by
    intro c hc
    obtain hc | hc := List.mem_append.mp hc
    · exact Str.isSpace_of_isDigit (Str.isDigit_of_mem_toString hc)
    · rw [List.mem_singleton.mp hc]
      decide
  have hheader : zone.header id = .ofList ("Node".toList ++ ' ' :: (((toString id).toList ++ [',']) ++
      ' ' :: ("zone".toList ++ ' ' :: (List.replicate zone.pad ' ' ++ (zone.name.text.toList ++
        ((zone.toptier.map fun tier => ", toptier " ++ toString tier).getD "").toList))))) := by
    rw [Zone.header, blanks]
    apply String.toList_injective
    simp
  have hnode : ∀ c ∈ "Node".toList, Str.isSpace c = false := by simp [Str.isSpace]
  have hzone : ∀ c ∈ "zone".toList, Str.isSpace c = false := by simp [Str.isSpace]
  obtain ⟨word, rest, hwords, hword⟩ := words_name zone.name zone.toptier
  refine ⟨word, rest, ?_, hword⟩
  rw [hheader, Str.words_append (by decide) hnode (by decide),
    Str.words_append (by simp) hid (by decide), Str.words_append (by decide) hzone (by decide),
    words_blanks, hwords]
  rfl

theorem readNode_ok {s : State F} {line first id third zone : String} {rest : List String} {n : ℤ}
    (hwords : Str.words line = first :: id :: third :: zone :: rest)
    (hid : Str.int 10 (Str.rstrip [','] id) = .ok n) : readNode s line =
      .ok { s with numaNode := some (toString n), zone := some (Str.rstrip [','] zone) } := by
  have hpart : part (first :: id :: third :: zone :: rest) 1 = .ok id := rfl
  have hpart' : part (first :: id :: third :: zone :: rest) 3 = .ok zone := rfl
  rw [readNode, hwords, hpart, except_ok_bind, hid, hpart']
  rfl

/-- The line of a zone. -/
theorem readLine_header (s : State F) (zone : Zone) (id : ℕ) :
    readLine float defaultRegexp s (zone.header id) =
      .ok { s with numaNode := some (toString id), zone := some zone.name.text } := by
  have hnode : Str.startsWith "Node " (zone.header id) = true := by
    rw [Zone.header]
    simp only [String.append_assoc]
    exact Str.startsWith_append _ _
  have hid : Str.rstrip [','] (.ofList ((toString id).toList ++ [','])) = toString id := by
    have hcomma : ∀ c ∈ (toString id).toList, c ∉ [','] := fun c hc hin =>
      Str.ne_of_isDigit (Str.isDigit_of_mem_toString hc) (by decide) (List.mem_singleton.mp hin)
    rw [Str.rstrip_append hcomma fun c hc => hc, String.ofList_toList]
  obtain ⟨word, rest, hwords, hword⟩ := words_header zone id
  rw [readLine, if_pos hnode, readNode_ok hwords (by rw [hid, Str.int_toString]), hword]
  rfl

variable {s : State F} {node zone : String}

theorem isSpace_of_isKeyChar {c : Char} (h : isKeyChar c = true) : Str.isSpace c = false := by
  have hrange : 0x5F ≤ c.toNat ∧ c.toNat ≤ 0x7A := by
    rw [isKeyChar, Bool.or_eq_true, decide_eq_true_eq, decide_eq_true_eq] at h
    obtain ⟨hlow, hhigh⟩ | rfl := h
    · have hlow : 'a'.toNat ≤ c.toNat := hlow
      have hhigh : c.toNat ≤ 'z'.toNat := hhigh
      have ha : 'a'.toNat = 0x61 := rfl
      have hz : 'z'.toNat = 0x7A := rfl
      omega
    · decide
  simp [Str.isSpace]
  omega

/-- The pattern on a line of four runs. -/
theorem defaultRegexp_eq_some (key : Key) {front gap : List Char} (value : ℕ) (hfront : front ≠ [])
    (hblank : ∀ c ∈ front, c = ' ') (hgap : gap ≠ []) (hgapBlank : ∀ c ∈ gap, c = ' ') :
    defaultRegexp (.ofList (front ++ (key.text.toList ++ (gap ++ (toString value).toList)))) =
      some (key.text, toString value) := by
  have hdigits : (toString value).toList ≠ [] := by
    rw [Str.toList_toString]
    exact Nat.toDigits_ne_nil
  have hdecimal : ∀ c ∈ (toString value).toList, isDecimal c = true := by
    intro c hc
    rw [isDecimal, ← Str.digit?_ten, Str.digit?_of_isDigit (by decide) (Str.isDigit_of_mem_toString hc)]
    rfl
  have hspace : ∀ c : Char, c = ' ' → Str.isSpace c = true := by
    rintro c rfl
    decide
  have hstop : ∀ {p : Char → Bool} {run rest : List Char}, run ≠ [] → (∀ c ∈ run, p c = false) →
      (run ++ rest).takeWhile p = [] := by
    intro p run rest hne hrun
    obtain ⟨c, run, rfl⟩ := List.exists_cons_of_ne_nil hne
    exact List.takeWhile_cons_of_neg (by simp [hrun c List.mem_cons_self])
  have hlast : Re.matchPlus [isDecimal] ((toString value).toList ++ []) =
      some [(toString value).toList] := Re.matchPlus_append hdigits hdecimal rfl rfl
  rw [List.append_nil] at hlast
  have hmatch : Re.matchPlus [Str.isSpace, isKeyChar, Str.isSpace, isDecimal]
      (front ++ (key.text.toList ++ (gap ++ (toString value).toList))) =
        some [front, key.text.toList, gap, (toString value).toList] := by
    refine Re.matchPlus_append hfront (fun c hc => hspace c (hblank c hc)) ?_
      (Re.matchPlus_append key.ne_nil key.isKeyChar ?_
        (Re.matchPlus_append hgap (fun c hc => hspace c (hgapBlank c hc)) ?_ hlast))
    · exact hstop key.ne_nil fun c hc => isSpace_of_isKeyChar (key.isKeyChar c hc)
    · refine hstop hgap fun c hc => ?_
      rw [hgapBlank c hc]
      decide
    · rw [← List.append_nil (toString value).toList]
      exact hstop hdigits fun c hc => Str.isSpace_of_isDigit (Str.isDigit_of_mem_toString hc)
  rw [defaultRegexp, String.toList_ofList, hmatch]
  simp only [String.ofList_toList]

theorem readLine_of_divides {line : String}
    (h : ∀ p ∈ ["Node ", "  per-node stats", "  pages"], Str.startsWith p line = false) :
    readLine float defaultRegexp s line = readValue float defaultRegexp s line := by
  have hnot : ∀ p ∈ ["Node ", "  per-node stats", "  pages"], ¬ Str.startsWith p line = true :=
    fun p hp => Bool.not_eq_true _ ▸ h p hp
  rw [readLine, if_neg (hnot _ (by simp)), if_neg (hnot _ (by simp)), if_neg (hnot _ (by simp))]

theorem readLine_perNodeStats (hzone : s.zone = some zone) :
    readLine float defaultRegexp s "  per-node stats" =
      .ok { s with prevZone := some zone, zone := some perNodeStats } := by
  have hnode : ¬ Str.startsWith "Node " "  per-node stats" = true := by decide
  rw [readLine, if_neg hnode, if_pos (by decide), readPerNodeStats, hzone]
  rfl

theorem readLine_pages {line : String} (hpages : Str.startsWith "  pages" line = true)
    {s' : State F} (hrestore : restoreZone s = .ok s') :
    readLine float defaultRegexp s line = readValue float defaultRegexp s' (stripPages line) := by
  obtain ⟨rest, rfl⟩ := Str.exists_of_startsWith hpages
  have hnode : ¬ Str.startsWith "Node " ("  pages" ++ rest) = true := by
    simp [Str.startsWith, List.isPrefixOf]
  have hperNode : ¬ Str.startsWith "  per-node stats" ("  pages" ++ rest) = true := by
    simp [Str.startsWith, List.isPrefixOf]
  rw [readLine, if_neg hnode, if_neg hperNode, if_pos hpages, hrestore, except_ok_bind]

theorem restoreZone_of_ne (hzone : s.zone = some zone) (hne : zone ≠ perNodeStats) :
    restoreZone s = .ok s := by
  rw [restoreZone, hzone]
  exact if_neg hne

theorem readLine_pagesets (hrestore : restoreZone s = .ok s) :
    readLine float defaultRegexp s "  pagesets" = .ok s := by
  have hmatch : defaultRegexp (stripPages "  pagesets") = none := by decide
  rw [readLine_pages (by decide) hrestore, readValue, hmatch]

/-! ### The lines of a zone -/

/-- Parts of the file that each record what is given in them. -/
theorem foldlM_parts {α : Type} {texts : α → List String} {gives : α → List Given}
    (h : ∀ a (s : State F), ∃ s' : State F,
      (texts a).foldlM (readLine float defaultRegexp) s = .ok s' ∧
        s'.measurements = (gives a).foldl (recordGiven value) s.measurements)
    (l : List α) (s : State F) : ∃ s' : State F,
      (l.flatMap texts).foldlM (readLine float defaultRegexp) s = .ok s' ∧
        s'.measurements = (l.flatMap gives).foldl (recordGiven value) s.measurements := by
  induction l generalizing s with
  | nil => exact ⟨s, rfl, rfl⟩
  | cons a l ih =>
    obtain ⟨s₁, ha, hmeasurements⟩ := h a s
    obtain ⟨s₂, hl, hmeasurements'⟩ := ih s₁
    refine ⟨s₂, ?_, ?_⟩
    · rw [List.flatMap_cons, List.foldlM_append, ha, except_ok_bind, hl]
    · rw [hmeasurements', hmeasurements, List.flatMap_cons, List.foldl_append]

section

variable (hfloat : ∀ n, float (toString n) = .ok (value n))
include hfloat

theorem readValue_ok {line key : String} {n : ℕ} (hmatch : defaultRegexp line = some (key, toString n))
    (hnode : s.numaNode = some node) (hzone : s.zone = some zone) :
    readValue float defaultRegexp s line =
      .ok { s with measurements := record s.measurements node zone key (value n) } := by
  rw [readValue, hmatch]
  dsimp only
  rw [hfloat, hnode, hzone]
  rfl

/-- A line in a zone. -/
theorem readLine_line (line : Line) (hnode : s.numaNode = some node) (hzone : s.zone = some zone) :
    readLine float defaultRegexp s line.text = .ok { s with
      measurements := (line.given node zone).foldl (recordGiven value) s.measurements } := by
  cases line with
  | keyValue indent gap key n =>
    have htext : (Line.keyValue indent gap key n).text = .ofList ((' ' :: ' ' :: ' ' ::
        List.replicate indent ' ') ++ (key.text.toList ++ ((' ' :: List.replicate gap ' ') ++
          (toString n).toList))) := by
      rw [Line.text, blanks, blanks]
      apply String.toList_injective
      simp
    have hmatch : defaultRegexp (Line.keyValue indent gap key n).text = some (key.text, toString n) := by
      rw [htext]
      exact defaultRegexp_eq_some key n (List.cons_ne_nil _ _) (by simp) (List.cons_ne_nil _ _)
        (by simp)
    have hdivides : ∀ p ∈ ["Node ", "  per-node stats", "  pages"],
        Str.startsWith p (Line.keyValue indent gap key n).text = false := by
      rw [htext]
      simp [Str.startsWith, List.isPrefixOf]
    rw [readLine_of_divides hdivides]
    exact readValue_ok hfloat hmatch hnode hzone
  | other line =>
    rw [Line.text, readLine_of_divides line.divides, readValue, line.unmatched]
    rfl

theorem foldlM_lines (lines : List Line) (hnode : s.numaNode = some node)
    (hzone : s.zone = some zone) :
    (lines.map Line.text).foldlM (readLine float defaultRegexp) s = .ok { s with
      measurements := (lines.flatMap (Line.given node zone)).foldl (recordGiven value)
        s.measurements } := by
  induction lines generalizing s with
  | nil => rfl
  | cons line lines ih =>
    rw [List.map_cons, List.foldlM_cons, readLine_line hfloat line hnode hzone, except_ok_bind,
      List.flatMap_cons, List.foldl_append]
    exact ih hnode hzone

/-- The first line of what belongs to the zone itself. -/
theorem readLine_free (z : Zone) {s' : State F} (hrestore : restoreZone s = .ok s')
    (hnode : s'.numaNode = some node) (hzone : s'.zone = some zone) :
    readLine float defaultRegexp s z.free = .ok { s' with
      measurements := record s'.measurements node zone "free" (value z.freePages) } := by
  have hpages : Str.startsWith "  pages" z.free = true := by
    rw [Zone.free]
    simp [Str.startsWith, List.isPrefixOf]
  have htext : stripPages z.free = .ofList ([' '] ++ ("free".toList ++
      ((' ' :: List.replicate z.gap ' ') ++ (toString z.freePages).toList))) := by
    rw [stripPages, Zone.free, blanks]
    apply String.toList_injective
    simp [Str.lstrip]
  have hmatch : defaultRegexp (stripPages z.free) = some ("free", toString z.freePages) := by
    rw [htext]
    exact defaultRegexp_eq_some ⟨"free", by decide, by simp [isKeyChar]⟩ z.freePages (List.cons_ne_nil _ _) (by simp) (List.cons_ne_nil _ _) (by simp)
  rw [readLine_pages hpages hrestore]
  exact readValue_ok hfloat hmatch hnode hzone

/-- The statistics of a node leave the zone put aside. -/
theorem foldlM_perNode (perNode : Option (List Line)) (hnode : s.numaNode = some node)
    (hzone : s.zone = some zone) (hne : zone ≠ perNodeStats) : ∃ s' s'' : State F,
    ((perNode.map fun lines => "  per-node stats" :: lines.map Line.text).getD []).foldlM
        (readLine float defaultRegexp) s = .ok s' ∧
      restoreZone s' = .ok s'' ∧ s''.numaNode = some node ∧ s''.zone = some zone ∧
      s''.measurements = ((perNode.getD []).flatMap (Line.given node perNodeStats)).foldl
        (recordGiven value) s.measurements := by
  cases perNode with
  | none => exact ⟨s, s, rfl, restoreZone_of_ne hzone hne, hnode, hzone, rfl⟩
  | some lines =>
    rw [Option.map_some, Option.getD_some, List.foldlM_cons, readLine_perNodeStats hzone,
      except_ok_bind]
    exact ⟨_, ⟨some node, some zone, some zone, _⟩, foldlM_lines hfloat lines hnode rfl,
      by rw [restoreZone, hnode]; rfl, rfl, rfl, rfl⟩

theorem foldlM_pagesets (pagesets : Option (List Line)) (hnode : s.numaNode = some node)
    (hzone : s.zone = some zone) (hne : zone ≠ perNodeStats) : ∃ s' : State F,
    ((pagesets.map fun lines => "  pagesets" :: lines.map Line.text).getD []).foldlM
        (readLine float defaultRegexp) s = .ok s' ∧
      s'.measurements = ((pagesets.getD []).flatMap (Line.given node zone)).foldl
        (recordGiven value) s.measurements := by
  cases pagesets with
  | none => exact ⟨s, rfl, rfl⟩
  | some lines =>
    rw [Option.map_some, Option.getD_some, List.foldlM_cons,
      readLine_pagesets (restoreZone_of_ne hzone hne), except_ok_bind]
    exact ⟨_, foldlM_lines hfloat lines hnode hzone, rfl⟩

/-- The lines of a zone record what is given in it. -/
theorem foldlM_zone (z : Zone) (id : ℕ) (s : State F) : ∃ s' : State F,
    (z.texts id).foldlM (readLine float defaultRegexp) s = .ok s' ∧
      s'.measurements = (z.given id).foldl (recordGiven value) s.measurements := by
  obtain ⟨put, s₁, hperNode, hrestore, hnode, hzone, hmeasurements⟩ :=
    foldlM_perNode hfloat (s := { s with
      numaNode := some (toString id), zone := some z.name.text }) z.perNode rfl rfl z.name.ne
  have hfree := readLine_free hfloat z hrestore hnode hzone
  have hlines := foldlM_lines hfloat (s := { s₁ with
    measurements := record s₁.measurements (toString id) z.name.text "free" (value z.freePages) })
      z.lines hnode hzone
  obtain ⟨s₂, hpagesets, hmeasurements'⟩ := foldlM_pagesets hfloat (s := { s₁ with
    measurements := (z.lines.flatMap (Line.given (toString id) z.name.text)).foldl
      (recordGiven value) (record s₁.measurements (toString id) z.name.text "free"
        (value z.freePages)) }) z.pagesets hnode hzone z.name.ne
  refine ⟨s₂, ?_, ?_⟩
  · rw [Zone.texts, List.cons_append, List.cons_append, List.foldlM_cons, readLine_header,
      except_ok_bind, List.append_assoc, List.foldlM_append, hperNode, except_ok_bind,
      List.cons_append, List.foldlM_cons, hfree, except_ok_bind, List.foldlM_append, hlines,
      except_ok_bind]
    exact hpagesets
  · rw [hmeasurements', Zone.given, List.foldl_append, List.foldl_cons, List.flatMap_append,
      List.foldl_append, ← hmeasurements]
    rfl

theorem foldlM_nodes (nodes : List Node) (s : State F) : ∃ s' : State F,
    (nodes.flatMap fun node => node.zones.flatMap (Zone.texts · node.id)).foldlM
        (readLine float defaultRegexp) s = .ok s' ∧
      s'.measurements = (given nodes).foldl (recordGiven value) s.measurements := by
  have hnode : ∀ (node : Node) (s : State F), ∃ s' : State F,
      (node.zones.flatMap (Zone.texts · node.id)).foldlM (readLine float defaultRegexp) s = .ok s' ∧
        s'.measurements = (node.zones.flatMap (Zone.given · node.id)).foldl (recordGiven value)
          s.measurements := fun node s =>
    foldlM_parts (fun zone s => foldlM_zone hfloat zone node.id s) node.zones s
  exact foldlM_parts hnode nodes s

end

theorem newline_not_mem_line (line : Line) : '\n' ∉ line.text.toList := by
  cases line with
  | keyValue indent gap key n =>
    have hkey : '\n' ∉ key.text.toList := fun hin => absurd (key.isKeyChar _ hin) (by decide)
    have hvalue : '\n' ∉ (toString n).toList := Str.not_mem_toString (by decide)
    simp [Line.text, blanks, hkey, hvalue, -Nat.toString_eq_repr]
  | other line => exact line.newline

theorem newline_not_mem_texts {nodes : List Node} : ∀ line ∈
    nodes.flatMap fun node => node.zones.flatMap (Zone.texts · node.id), '\n' ∉ line.toList := by
  intro line hline
  obtain ⟨node, -, hline⟩ := List.mem_flatMap.mp hline
  obtain ⟨zone, -, hline⟩ := List.mem_flatMap.mp hline
  have hname : '\n' ∉ zone.name.text.toList := fun hin =>
    absurd (zone.name.chars _ hin).1 (by decide)
  have hnumber : ∀ n : ℕ, '\n' ∉ (toString n).toList := fun n => Str.not_mem_toString (by decide)
  have hlines : ∀ (first : String) (lines : Option (List Line)), '\n' ∉ first.toList →
      line ∈ (lines.map fun lines => first :: lines.map Line.text).getD [] →
        '\n' ∉ line.toList := by
    intro first lines hfirst hmem
    cases lines with
    | none => cases hmem
    | some lines =>
      obtain rfl | hmem := List.mem_cons.mp hmem
      · exact hfirst
      · obtain ⟨l, -, rfl⟩ := List.mem_map.mp hmem
        exact newline_not_mem_line l
  obtain hline | hpagesets := List.mem_append.mp hline
  · obtain hheader | hline := List.mem_append.mp hline
    · obtain rfl | hperNode := List.mem_cons.mp hheader
      · cases htier : zone.toptier <;>
          simp [Zone.header, blanks, htier, hname, hnumber, -Nat.toString_eq_repr]
      · exact hlines _ _ (by decide) hperNode
    · obtain rfl | hmem := List.mem_cons.mp hline
      · simp [Zone.free, blanks, hnumber, -Nat.toString_eq_repr]
      · obtain ⟨l, -, rfl⟩ := List.mem_map.mp hmem
        exact newline_not_mem_line l
  · exact hlines _ _ (by decide) hpagesets

/-! ### What is looked up -/

theorem lookup_eq (measurements : Measurements F) (node zone key : String) :
    lookup measurements node zone key =
      ((((measurements.get? node).getD ∅).get? zone).getD ∅).get? key := by
  rw [lookup]
  cases measurements.get? node with
  | none => rfl
  | some zones => cases hzones : zones.get? zone <;> simp [hzones]

theorem lookup_record (measurements : Measurements F) (node zone key node' zone' key' : String)
    (v : F) : lookup (record measurements node zone key v) node' zone' key' =
      if (node, zone, key) = (node', zone', key') then some v
      else lookup measurements node' zone' key' := by
  rw [lookup_eq, lookup_eq, record, Dict.get?_set]
  by_cases hnode : node' = node
  · subst hnode
    rw [if_pos rfl, Option.getD_some, Dict.get?_set]
    by_cases hzone : zone' = zone
    · subst hzone
      rw [if_pos rfl, Option.getD_some, Dict.get?_set]
      simp [eq_comm]
    · rw [if_neg hzone, if_neg fun he => hzone (Prod.mk.inj (Prod.mk.inj he).2).1.symm]
  · rw [if_neg hnode, if_neg fun he => hnode (Prod.mk.inj he).1.symm]

theorem lookup_foldl (l : List Given) (node zone key : String) :
    lookup (l.foldl (recordGiven value) (∅ : Measurements F)) node zone key =
      ((l.filter fun g => (g.node, g.zone, g.key) = (node, zone, key)).getLast?).map
        (value ·.value) := by
  induction l using List.reverseRecOn with
  | nil => rfl
  | append_singleton l g ih =>
    rw [List.foldl_append, List.filter_append]
    change lookup (record _ _ _ _ _) _ _ _ = _
    rw [lookup_record, ih]
    split
    · next hg =>
      rw [List.filter_cons, if_pos (decide_eq_true hg), List.filter_nil, List.getLast?_concat]
      rfl
    · next hg =>
      rw [List.filter_cons, if_neg (by simpa using hg), List.filter_nil, List.append_nil]

end Layout

/-- Two nodes, the statistics of the first in its second zone. -/
def twoNodes : List Node :=
  let low : Key := ⟨"low", by decide, by simp [isKeyChar]⟩
  let protection : OtherLine := ⟨"        protection: (0, 1655)", by decide, by decide, by decide⟩
  let dma : ZoneName := ⟨"DMA", by decide, by simp [Str.isSpace], by decide⟩
  let normal : ZoneName := ⟨"Normal", by decide, by simp [Str.isSpace], by decide⟩
  [⟨0, [⟨dma, 5, some 1, none, 4, 3867, [.keyValue 5 6 low 3, .other protection], none⟩,
      ⟨normal, 2, none, some [.keyValue 3 1 low 7], 4, 21182724, [.keyValue 5 6 low 5], some []⟩]⟩,
    ⟨1, [⟨normal, 2, none, none, 4, 0, [], none⟩]⟩]

end Wca.Zoneinfo
