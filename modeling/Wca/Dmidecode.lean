import Mathlib.Algebra.BigOperators.Group.List.Basic
import Mathlib.Algebra.Group.Prod
import Wca.Py.Dict
import Wca.Py.Exec
import Wca.Py.Str

/-!
# Memory modules

`_parse_dmidecode_output` goes through the lines of `dmidecode` and counts a module when it has seen a
size, a type and a speed. What it has collected is dropped only then: an empty slot and the text after
it leave something to the next module. The modules of a text are counted one by one exactly where
nothing of that takes part in a count (`parseDmidecodeOutput_additive_iff`).
-/

namespace Wca.Dmidecode

open Py Str

def units : Dict String ℚ := Dict.ofItems [("GB", 10 ^ 9), ("MB", 10 ^ 6), ("B", 1)]

def ddrTypes : List String := ["DDR4", "DDR3"]

/-- A type that is collected: one of `ddr_types`, or `'Non-Volatile'`. -/
inductive DimmType where
  | ddr (name : String)
  | nonVolatile
  deriving DecidableEq

/-- What a line of a block says. -/
inductive Param where
  | size (value unit : String)
  | type (type : DimmType)
  | speed (speed : String)
  deriving DecidableEq

/-- `memory_device_params`. All texts in it are words, so none of them is empty. -/
structure Params where
  size : Option (String × String) := none
  type : Option DimmType := none
  speed : Option String := none
  deriving DecidableEq

def Params.update (params : Params) : Option Param → Params
  | some (.size value unit) => { params with size := some (value, unit) }
  | some (.type type) => { params with type := some type }
  | some (.speed speed) => { params with speed := some speed }
  | none => params

def Params.complete (params : Params) : Bool :=
  params.size.isSome && params.type.isSome && params.speed.isSome

/-- `split_line[i]`. -/
def word (line : String) (i : ℕ) : Except Exn String :=
  match (words line)[i]? with
  | some w => .ok w
  | none => .error (.IndexError "list index out of range")

/-- The branches after the one for types. -/
def readDetail (line : String) : Except Exn (Option Param) :=
  if contains "Type Detail:" line && contains "Non-Volatile" line then
    return some (.type .nonVolatile)
  else if contains "Speed:" line && !contains "Configured" line && !contains "Unknown" line then do
    return some (.speed (← word line 1))
  else
    return none

def readLine (line : String) : Except Exn (Option Param) :=
  if contains "Size:" line then do
    return some (.size (← word line 1) (← word line 2))
  else if contains "Type:" line then do
    -- the word is looked up whatever the line is
    let name ← word line 1
    if name ∈ ddrTypes then return some (.type (.ddr name)) else readDetail line
  else
    readDetail line

/-- `nvm_dimm_count`, `ram_dimm_count`, `nvm_dimm_size` and `ram_dimm_size`. -/
abbrev Totals := ℕ × ℕ × ℚ × ℚ

/-- What one module adds. -/
def dimm (bytes : ℚ) : DimmType → Totals
  | .ddr _ => (0, 1, 0, bytes)
  | .nonVolatile => (1, 0, bytes, 0)

/-- The state of the loop. The speed is `0` in the source until there is one. -/
structure State where
  foundMemoryDevice : Bool := false
  memoryDeviceParams : Params := {}
  totals : Totals := 0
  ramDimmSpeed : Option String := none
  deriving DecidableEq

def sizeInBytes (size : String × String) : Except Exn ℚ := do
  let value ← Str.int 10 size.1
  let multiplier ← units.item size.2
  return value * multiplier

def ramSpeed (s : State) (speed : String) : DimmType → Option String
  | .ddr _ => some speed
  | .nonVolatile => s.ramDimmSpeed

/-- The end of the body of the loop. -/
def countComplete (s : State) : Except Exn State :=
  match s.memoryDeviceParams with
  | ⟨some size, some type, some speed⟩ => do
    let bytes ← sizeInBytes size
    return ⟨false, {}, s.totals + dimm bytes type, ramSpeed s speed type⟩
  | _ => return s

/-- One line. -/
def step (s : State) (line : String) : Except Exn State :=
  if startsWith "Memory Device" line then
    return { s with foundMemoryDevice := true }
  else if s.foundMemoryDevice then do
    let param ← readLine line
    countComplete { s with memoryDeviceParams := s.memoryDeviceParams.update param }
  else
    countComplete s

def parseDmidecodeOutput (dmidecodeStr : String) : Except Exn (Totals × Option String) := do
  let s ← (split '\n' dmidecodeStr).foldlM step {}
  return (s.totals, s.ramDimmSpeed)

/-! ## Texts of `dmidecode` -/

abbrev Line := { s : String // '\n' ∉ s.toList }

/-- The text of lines that each end with a newline. -/
def textOf (lines : List Line) : String := join '\n' (lines.map (·.1) ++ [""])

def heading : Line := ⟨"Memory Device", by decide⟩

def isHeading (line : Line) : Bool := startsWith "Memory Device" line.1

theorem isHeading_heading : isHeading heading = true := by decide

/-- The fields that are looked for. -/
def fieldNames : List String := ["Size:", "Type:", "Type Detail:", "Speed:"]

/-- A line of a block that is the field `name`; one of the many others when there is none. -/
def Field (name : Option String) (line : Line) : Prop :=
  isHeading line = false ∧ ∀ other ∈ fieldNames, contains other line.1 = true ↔ name = some other

instance (name : Option String) (line : Line) : Decidable (Field name line) :=
  inferInstanceAs (Decidable (_ ∧ _))

/-- The block of a populated slot, its lines in the order of `dmidecode`. -/
structure Module where
  head : List Line
  size : Line
  amount : ℕ
  unit : String
  form : List Line
  type : Line
  typeName : String
  detail : Line
  speed : Line
  rate : String
  tail : List Line
  head_field : ∀ line ∈ head, Field none line
  size_field : Field (some "Size:") size
  size_words : words size.1 = ["Size:", toString amount, unit]
  form_field : ∀ line ∈ form, Field none line
  type_field : Field (some "Type:") type
  type_word : (words type.1)[1]? = some typeName
  detail_field : Field (some "Type Detail:") detail
  populated : typeName ∈ ddrTypes ∨ contains "Non-Volatile" detail.1 = true
  speed_field : Field (some "Speed:") speed
  speed_known : contains "Configured" speed.1 = false ∧ contains "Unknown" speed.1 = false
  speed_word : (words speed.1)[1]? = some rate
  tail_field : ∀ line ∈ tail, isHeading line = false

/-- A line of a block that does not tell its speed. -/
inductive UnclockedField (line : Line) : Prop where
  | other : Field none line → UnclockedField line
  | size : Field (some "Size:") line → 3 ≤ (words line.1).length → UnclockedField line
  | type : Field (some "Type:") line → 2 ≤ (words line.1).length → UnclockedField line
  | detail : Field (some "Type Detail:") line → UnclockedField line
  | speed : Field (some "Speed:") line →
    contains "Configured" line.1 = true ∨ contains "Unknown" line.1 = true → UnclockedField line

/-- The block of an empty slot, where no module is installed and type and speed are unknown, and of any
other slot that does not tell its speed. -/
structure Slot where
  fields : List Line
  unclocked : ∀ line ∈ fields, UnclockedField line

/-- A block that is not counted, or a line between blocks. -/
inductive Piece where
  | slot (block : Slot)
  | text (line : Line) (h : line ≠ heading)

abbrev Gap := List Piece

/-- The modules with what stands before each of them, and what stands after the last one. -/
structure Output where
  modules : List (Gap × Module)
  rest : Gap

namespace Module

def fields (m : Module) : List Line :=
  m.head ++ m.size :: m.form ++ m.type :: m.detail :: m.speed :: m.tail

def lines (m : Module) : List Line := heading :: m.fields

def ownType (m : Module) : DimmType :=
  if contains "Non-Volatile" m.detail.1 then .nonVolatile else .ddr m.typeName

def bytes (m : Module) : ℚ := m.amount * (units.get? m.unit).getD 0

end Module

def Slot.lines (block : Slot) : List Line := heading :: block.fields

def Piece.lines : Piece → List Line
  | .slot block => block.lines
  | .text line _ => [line]

/-- The blocks of a gap. -/
def Piece.blocks : Piece → List (List Line)
  | .slot block => [block.lines]
  | .text _ _ => []

namespace Output

def lines (o : Output) : List Line :=
  o.modules.flatMap (fun p => p.1.flatMap Piece.lines ++ p.2.lines) ++ o.rest.flatMap Piece.lines

def blocks (o : Output) : List (List Line) :=
  o.modules.flatMap (fun p => p.1.flatMap Piece.blocks ++ [p.2.lines]) ++
    o.rest.flatMap Piece.blocks

/-- The text is read, as is every block alone, and its counts and sizes are the sums of theirs. -/
def Additive (o : Output) : Prop :=
  ∃ r rs, parseDmidecodeOutput (textOf o.lines) = .ok r ∧
    o.blocks.mapM (fun block => parseDmidecodeOutput (textOf block)) = .ok rs ∧
      r.1 = (rs.map Prod.fst).sum

end Output

/-! ## When nothing is left for another module -/

/-- What a line says, for a line that can be read. -/
def told (line : Line) : Option Param := (readLine line.1).toOption.join

/-- What lines say when they are read after others. -/
def collected (params : Params) (lines : List Line) : Params :=
  lines.foldl (fun params line => params.update (told line)) params

/-- The lines of a gap that are read: those after its first heading. -/
def readLines (gap : Gap) : List Line :=
  ((gap.flatMap Piece.lines).dropWhile fun line => !isHeading line).filter fun line =>
    !isHeading line

/-- What a gap leaves to the module after it. -/
def leftover (gap : Gap) : Params := collected {} (readLines gap)

/-- All lines can be read, and they do not tell a size, a type and a speed. -/
def Harmless (params : Params) (lines : List Line) : Prop :=
  (∀ line ∈ lines, ∃ param, readLine line.1 = .ok param) ∧ (collected params lines).complete = false

/-- The type that a module is counted by. A speed that is left over ends its block at the first type. -/
def countedType (left : Params) (m : Module) : DimmType :=
  match left.speed, left.type with
  | none, _ => m.ownType
  | some _, some type => type
  | some _, none => if m.typeName ∈ ddrTypes then .ddr m.typeName else .nonVolatile

def DimmType.isRam : DimmType → Bool
  | .ddr _ => true
  | .nonVolatile => false

/-- Number and size of the modules of one kind that are counted as the other one. -/
def miscounted (ram : Bool) (modules : List (Gap × Module)) : ℕ × ℚ :=
  ((modules.filter fun p => p.2.ownType.isRam = ram ∧
    (countedType (leftover p.1) p.2).isRam ≠ ram).map fun p => (1, p.2.bytes)).sum

/-- The units are known, no gap is taken for a module or stops the reading, and the modules that a type
or a speed of a gap turns into the other kind make up for each other. -/
structure Clean (o : Output) : Prop where
  unit : ∀ p ∈ o.modules, p.2.unit ∈ units
  harmless : ∀ p ∈ o.modules, Harmless {} (readLines p.1)
  rest : Harmless {} (readLines o.rest)
  balanced : miscounted true o.modules = miscounted false o.modules

/-! ## One line -/

/-- The loop over some of the lines. -/
def run (s : State) (lines : List Line) : Except Exn State :=
  lines.foldlM (fun s line => step s line.1) s

/-- The number of modules. -/
def count (totals : Totals) : ℕ := totals.1 + totals.2.1

def State.count (s : State) : ℕ := Dmidecode.count s.totals

/-- What holds between two lines: something of a module is still missing. -/
def State.Waiting (s : State) : Prop := s.memoryDeviceParams.complete = false

theorem count_add (totals totals' : Totals) :
    count (totals + totals') = count totals + count totals' := by
  simp only [count, Prod.fst_add, Prod.snd_add]
  omega

theorem count_dimm (bytes : ℚ) (type : DimmType) : count (dimm bytes type) = 1 := by
  cases type <;> rfl

section Lines

variable {s s' : State} {params : Params} {line : Line} {lines : List Line}

theorem run_cons : run s (line :: lines) = step s line.1 >>= fun s' => run s' lines :=
  List.foldlM_cons

theorem run_append {lines' : List Line} :
    run s (lines ++ lines') = run s lines >>= fun s' => run s' lines' :=
  List.foldlM_append

theorem Params.complete_update (h : params.complete = true) (param : Option Param) :
    (params.update param).complete = true := by
  obtain ⟨size, type, speed⟩ := params
  simp only [complete, Bool.and_eq_true] at h
  cases param with
  | none => simp [update, complete, h]
  | some param => cases param <;> simp [update, complete, h]

theorem complete_collected (h : params.complete = true) :
    (collected params lines).complete = true := by
  induction lines generalizing params with
  | nil => exact h
  | cons line lines ih => exact ih (params.complete_update h _)

theorem collected_cons {param : Option Param} (hparam : readLine line.1 = .ok param) :
    collected params (line :: lines) = collected (params.update param) lines := by
  have htold : told line = param := by
    rw [told, hparam]
    cases param <;> rfl
  rw [collected, List.foldl_cons, htold, collected]

theorem harmless_cons : Harmless params (line :: lines) ↔
    ∃ param, readLine line.1 = .ok param ∧ (params.update param).complete = false ∧
      Harmless (params.update param) lines := by
  constructor
  · rintro ⟨hread, hincomplete⟩
    obtain ⟨param, hparam⟩ := hread line List.mem_cons_self
    rw [collected_cons hparam] at hincomplete
    refine ⟨param, hparam, ?_, fun l hl => hread l (List.mem_cons_of_mem _ hl), hincomplete⟩
    rw [← Bool.not_eq_true]
    intro hcomplete
    rw [complete_collected hcomplete] at hincomplete
    cases hincomplete
  · rintro ⟨param, hparam, -, hread, hincomplete⟩
    refine ⟨fun l hl => ?_, (collected_cons hparam).symm ▸ hincomplete⟩
    obtain rfl | hl := List.mem_cons.mp hl
    · exact ⟨param, hparam⟩
    · exact hread l hl

theorem countComplete_waiting (hs : s.Waiting) : countComplete s = .ok s := by
  rw [countComplete]
  split
  · case h_1 size type speed heq =>
    rw [State.Waiting, heq] at hs
    cases hs
  · rfl

theorem countComplete_complete {size : String × String} {type : DimmType} {speed : String}
    (hs : s.memoryDeviceParams = ⟨some size, some type, some speed⟩) :
    countComplete s = (sizeInBytes size).map fun bytes =>
      ⟨false, {}, s.totals + dimm bytes type, ramSpeed s speed type⟩ := by
  rw [countComplete, hs]
  dsimp only
  cases sizeInBytes size <;> rfl

/-- Exactly one module is counted at a time. -/
theorem count_countComplete (hs : ¬ s.Waiting) (h : countComplete s = .ok s') :
    s'.Waiting ∧ s'.count = s.count + 1 := by
  obtain ⟨size, type, speed, hparams⟩ : ∃ size type speed,
      s.memoryDeviceParams = ⟨some size, some type, some speed⟩ := by
    rw [State.Waiting, Bool.not_eq_false, Params.complete, Bool.and_eq_true, Bool.and_eq_true] at hs
    obtain ⟨⟨hsize, htype⟩, hspeed⟩ := hs
    obtain ⟨size, hsize⟩ := Option.isSome_iff_exists.mp hsize
    obtain ⟨type, htype⟩ := Option.isSome_iff_exists.mp htype
    obtain ⟨speed, hspeed⟩ := Option.isSome_iff_exists.mp hspeed
    refine ⟨size, type, speed, ?_⟩
    rw [← hsize, ← htype, ← hspeed]
  rw [countComplete_complete hparams] at h
  cases hbytes : sizeInBytes size with
  | error e =>
    rw [hbytes] at h
    cases h
  | ok bytes =>
    rw [hbytes] at h
    cases h
    refine ⟨rfl, ?_⟩
    rw [State.count, count_add, count_dimm]
    rfl

theorem countComplete_le (h : countComplete s = .ok s') : s'.Waiting ∧ s.count ≤ s'.count := by
  by_cases hs : s.Waiting
  · rw [countComplete_waiting hs] at h
    cases h
    exact ⟨hs, le_rfl⟩
  · obtain ⟨hwaiting, hcount⟩ := count_countComplete hs h
    exact ⟨hwaiting, hcount ▸ Nat.le_succ _⟩

theorem step_heading (h : isHeading line = true) :
    step s line.1 = .ok { s with foundMemoryDevice := true } := by
  rw [isHeading] at h
  rw [step, if_pos h]
  rfl

theorem step_skip (hs : s.Waiting) (hfound : s.foundMemoryDevice = false)
    (h : isHeading line = false) : step s line.1 = .ok s := by
  rw [isHeading, ← Bool.not_eq_true] at h
  rw [step, if_neg h, hfound]
  exact countComplete_waiting hs

theorem step_read (hfound : s.foundMemoryDevice = true) (h : isHeading line = false) :
    step s line.1 = readLine line.1 >>= fun param =>
      countComplete { s with memoryDeviceParams := s.memoryDeviceParams.update param } := by
  rw [isHeading, ← Bool.not_eq_true] at h
  rw [step, if_neg h, hfound]
  rfl

/-- A line that says something that does not complete a module. -/
theorem step_collect (hfound : s.foundMemoryDevice = true) (h : isHeading line = false)
    {param : Option Param} (hparam : readLine line.1 = .ok param)
    (hincomplete : (s.memoryDeviceParams.update param).complete = false) :
    step s line.1 = .ok { s with memoryDeviceParams := s.memoryDeviceParams.update param } := by
  rw [step_read hfound h, hparam, except_ok_bind]
  exact countComplete_waiting hincomplete

theorem step_waiting (hs : s.Waiting) (h : step s line.1 = .ok s') :
    s'.Waiting ∧ s.count ≤ s'.count := by
  cases hhead : isHeading line with
  | true =>
    rw [step_heading hhead] at h
    cases h
    exact ⟨hs, le_rfl⟩
  | false =>
    cases hfound : s.foundMemoryDevice with
    | false =>
      rw [step_skip hs hfound hhead] at h
      cases h
      exact ⟨hs, le_rfl⟩
    | true =>
      rw [step_read hfound hhead] at h
      obtain ⟨param, -, hstep⟩ := except_bind_ok_iff.mp h
      obtain ⟨hwaiting, hle⟩ := countComplete_le hstep
      exact ⟨hwaiting, hle⟩

/-! ## Several lines -/

theorem run_waiting (hs : s.Waiting) (h : run s lines = .ok s') :
    s'.Waiting ∧ s.count ≤ s'.count :=
  except_foldlM_inv (I := fun t : State => t.Waiting ∧ s.count ≤ t.count) ⟨hs, le_rfl⟩
    (fun line _ t t' ht hstep => by
      obtain ⟨hwaiting, hle⟩ := step_waiting ht.1 hstep
      exact ⟨hwaiting, ht.2.trans hle⟩) h

/-- Until the first heading nothing is read. -/
theorem run_skip (hs : s.Waiting) (hfound : s.foundMemoryDevice = false)
    (h : ∀ line ∈ lines, isHeading line = false) : run s lines = .ok s := by
  induction lines with
  | nil => rfl
  | cons line lines ih =>
    rw [run_cons, step_skip hs hfound (h line List.mem_cons_self), except_ok_bind,
      ih fun l hl => h l (List.mem_cons_of_mem _ hl)]

/-- Harmless lines are collected, from wherever the reading has begun. -/
theorem run_harmless (hs : s.Waiting) (hfound : s.foundMemoryDevice = true)
    (h : Harmless s.memoryDeviceParams (lines.filter fun line => !isHeading line)) :
    run s lines = .ok { s with
      memoryDeviceParams :=
        collected s.memoryDeviceParams (lines.filter fun line => !isHeading line) } := by
  induction lines generalizing s with
  | nil => rfl
  | cons line lines ih =>
    rw [run_cons]
    cases hhead : isHeading line with
    | true =>
      have hsame : { s with foundMemoryDevice := true } = s := by rw [← hfound]
      rw [List.filter_cons_of_neg (by simp [hhead])] at h ⊢
      rw [step_heading hhead, except_ok_bind, hsame]
      exact ih hs hfound h
    | false =>
      rw [List.filter_cons_of_pos (by simp [hhead])] at h ⊢
      obtain ⟨param, hparam, hincomplete, hrest⟩ := harmless_cons.mp h
      rw [step_collect hfound hhead hparam hincomplete, except_ok_bind,
        ih (s := { s with memoryDeviceParams := s.memoryDeviceParams.update param }) hincomplete
          hfound hrest, collected_cons hparam]

/-- Lines that are not harmless and are read to their end have counted a module. -/
theorem run_harmful (hs : s.Waiting) (hfound : s.foundMemoryDevice = true)
    (h : ¬ Harmless s.memoryDeviceParams (lines.filter fun line => !isHeading line))
    (hrun : run s lines = .ok s') : s.count < s'.count := by
  induction lines generalizing s with
  | nil => exact absurd ⟨fun _ hmem => (by cases hmem), hs⟩ h
  | cons line lines ih =>
    rw [run_cons] at hrun
    obtain ⟨t, hstep, hrun⟩ := except_bind_ok_iff.mp hrun
    cases hhead : isHeading line with
    | true =>
      rw [List.filter_cons_of_neg (by simp [hhead])] at h
      rw [step_heading hhead] at hstep
      cases hstep
      exact ih (s := { s with foundMemoryDevice := true }) hs rfl h hrun
    | false =>
      rw [List.filter_cons_of_pos (by simp [hhead]), harmless_cons] at h
      rw [step_read hfound hhead] at hstep
      obtain ⟨param, hparam, hcount⟩ := except_bind_ok_iff.mp hstep
      by_cases hw : State.Waiting { s with memoryDeviceParams := s.memoryDeviceParams.update param }
      · rw [countComplete_waiting hw] at hcount
        cases hcount
        exact ih (s := { s with memoryDeviceParams := s.memoryDeviceParams.update param }) hw hfound
          (fun hrest => h ⟨param, hparam, hw, hrest⟩) hrun
      · obtain ⟨hwaiting, hone⟩ := count_countComplete hw hcount
        have hle := (run_waiting hwaiting hrun).2
        have hsame : State.count { s with
            memoryDeviceParams := s.memoryDeviceParams.update param } = s.count := rfl
        omega

end Lines

/-! ## A gap -/

section Gaps

variable {s s' : State} {gap : Gap}

/-- A state after a module, or before the first line. -/
structure State.Fresh (s : State) : Prop where
  found : s.foundMemoryDevice = false
  empty : s.memoryDeviceParams = {}

theorem State.Fresh.waiting (hs : s.Fresh) : s.Waiting := by
  rw [State.Waiting, hs.empty]
  rfl

theorem fresh_init : State.Fresh {} := ⟨rfl, rfl⟩

/-- The lines before the first heading of a gap are skipped. -/
theorem run_gap (gap : Gap) (hs : s.Fresh) :
    readLines gap = [] ∧ run s (gap.flatMap Piece.lines) = .ok s ∨
      ∃ lines : List Line, readLines gap = lines.filter (fun line => !isHeading line) ∧
        run s (gap.flatMap Piece.lines) = run { s with foundMemoryDevice := true } lines := by
  have hsplit := List.takeWhile_append_dropWhile
    (p := fun line => !isHeading line) (l := gap.flatMap Piece.lines)
  have hskip : run s ((gap.flatMap Piece.lines).takeWhile fun line => !isHeading line) = .ok s :=
    run_skip hs.waiting hs.found fun line hline => by simpa using List.mem_takeWhile_imp hline
  rw [readLines]
  cases hdrop : (gap.flatMap Piece.lines).dropWhile fun line => !isHeading line with
  | nil =>
    rw [hdrop, List.append_nil] at hsplit
    rw [hsplit] at hskip
    exact .inl ⟨rfl, hskip⟩
  | cons line lines =>
    have hhead : isHeading line = true := by
      have hnot := List.head_dropWhile_not (fun line => !isHeading line) (hdrop ▸ List.cons_ne_nil _ _)
      simpa [hdrop] using hnot
    refine .inr ⟨lines, by rw [List.filter_cons_of_neg (by simp [hhead])], ?_⟩
    rw [← hsplit, hdrop, run_append, hskip, except_ok_bind, run_cons, step_heading hhead,
      except_ok_bind]

theorem run_gap_harmless (hs : s.Fresh) (h : Harmless {} (readLines gap)) :
    ∃ found, run s (gap.flatMap Piece.lines) =
      .ok { s with foundMemoryDevice := found, memoryDeviceParams := leftover gap } := by
  have hempty := hs.empty
  obtain ⟨hnone, hrun⟩ | ⟨lines, hlines, hrun⟩ := run_gap gap hs
  · refine ⟨s.foundMemoryDevice, ?_⟩
    rw [hrun, leftover, hnone, collected, List.foldl_nil, ← hempty]
  · rw [hlines, ← hempty] at h
    refine ⟨true, ?_⟩
    rw [hrun, run_harmless (s := { s with foundMemoryDevice := true }) hs.waiting rfl h, leftover,
      hlines, hempty]

theorem run_gap_harmful (hs : s.Fresh) (h : ¬ Harmless {} (readLines gap))
    (hrun : run s (gap.flatMap Piece.lines) = .ok s') : s.count < s'.count := by
  obtain ⟨hnone, -⟩ | ⟨lines, hlines, hsame⟩ := run_gap gap hs
  · rw [hnone] at h
    exact absurd ⟨fun _ hmem => (by cases hmem), rfl⟩ h
  · rw [hlines, ← hs.empty] at h
    rw [hsame] at hrun
    exact run_harmful (s := { s with foundMemoryDevice := true }) hs.waiting rfl h hrun

end Gaps

/-! ## Fields -/

section Fields

variable {line : Line} {name : Option String} {other : String}

theorem Field.contains (h : Field (some other) line) (hmem : other ∈ fieldNames) :
    contains other line.1 = true :=
  (h.2 other hmem).mpr rfl

theorem Field.not_contains (h : Field name line) (hmem : other ∈ fieldNames)
    (hne : name ≠ some other) : Str.contains other line.1 = false := by
  rw [← Bool.not_eq_true, h.2 other hmem]
  exact hne

theorem word_eq_ok {s w : String} {i : ℕ} (h : (words s)[i]? = some w) : word s i = .ok w := by
  rw [word, h]

theorem readDetail_other (h : Field name line) (hdetail : name ≠ some "Type Detail:")
    (hspeed : name ≠ some "Speed:") : readDetail line.1 = .ok none := by
  rw [readDetail, h.not_contains (by decide) hdetail, h.not_contains (by decide) hspeed]
  rfl

theorem readLine_other (h : Field none line) : readLine line.1 = .ok none := by
  rw [readLine, h.not_contains (by decide) (Option.some_ne_none _).symm,
    h.not_contains (by decide) (Option.some_ne_none _).symm]
  exact readDetail_other h (Option.some_ne_none _).symm (Option.some_ne_none _).symm

theorem readLine_size (h : Field (some "Size:") line) {value unit : String}
    (hvalue : (words line.1)[1]? = some value) (hunit : (words line.1)[2]? = some unit) :
    readLine line.1 = .ok (some (.size value unit)) := by
  rw [readLine, if_pos (h.contains (by decide)), word_eq_ok hvalue, word_eq_ok hunit]
  rfl

theorem readLine_type (h : Field (some "Type:") line) {typeName : String}
    (htype : (words line.1)[1]? = some typeName) :
    readLine line.1 = .ok (if typeName ∈ ddrTypes then some (.type (.ddr typeName)) else none) := by
  rw [readLine, h.not_contains (by decide) (by decide), if_neg Bool.false_ne_true,
    if_pos (h.contains (by decide)), word_eq_ok htype, except_ok_bind]
  split
  · rfl
  · exact readDetail_other h (by decide) (by decide)

theorem readLine_detail (h : Field (some "Type Detail:") line) : readLine line.1 =
    .ok (if contains "Non-Volatile" line.1 then some (.type .nonVolatile) else none) := by
  have hspeed : Str.contains "Speed:" line.1 = false := h.not_contains (by decide) (by decide)
  rw [readLine, h.not_contains (by decide) (by decide), if_neg Bool.false_ne_true,
    h.not_contains (by decide) (by decide), if_neg Bool.false_ne_true, readDetail,
    h.contains (by decide), hspeed]
  cases Str.contains "Non-Volatile" line.1 <;> rfl

theorem readLine_speed (h : Field (some "Speed:") line) : readLine line.1 =
    if !contains "Configured" line.1 && !contains "Unknown" line.1 then
      (word line.1 1).map fun speed => some (.speed speed) else .ok none := by
  have hdetail : Str.contains "Type Detail:" line.1 = false :=
    h.not_contains (by decide) (by decide)
  rw [readLine, h.not_contains (by decide) (by decide), if_neg Bool.false_ne_true,
    h.not_contains (by decide) (by decide), if_neg Bool.false_ne_true, readDetail,
    hdetail, h.contains (by decide)]
  cases Str.contains "Configured" line.1 <;> cases Str.contains "Unknown" line.1 <;>
    cases word line.1 1 <;> rfl

/-- A line of a block without a speed says nothing of a speed. -/
theorem UnclockedField.readLine (h : UnclockedField line) : ∃ param,
    readLine line.1 = .ok param ∧ ∀ speed, param ≠ some (.speed speed) := by
  cases h with
  | other h => exact ⟨none, readLine_other h, fun _ => Option.some_ne_none _ |>.symm⟩
  | size h hlength =>
    refine ⟨_, readLine_size h (List.getElem?_eq_getElem (by omega))
      (List.getElem?_eq_getElem (by omega)), fun speed hspeed => ?_⟩
    cases hspeed
  | type h hlength =>
    refine ⟨_, readLine_type h (List.getElem?_eq_getElem (by omega)), fun speed hspeed => ?_⟩
    split at hspeed <;> cases hspeed
  | detail h =>
    refine ⟨_, readLine_detail h, fun speed hspeed => ?_⟩
    split at hspeed <;> cases hspeed
  | speed h hunknown =>
    refine ⟨none, ?_, fun speed hspeed => by cases hspeed⟩
    rw [readLine_speed h]
    obtain hunknown | hunknown := hunknown <;> simp [hunknown]

theorem UnclockedField.body (h : UnclockedField line) : isHeading line = false := by
  cases h with
  | other h => exact h.1
  | size h => exact h.1
  | type h => exact h.1
  | detail h => exact h.1
  | speed h => exact h.1

end Fields

/-! ## A module -/

section Modules

variable {s : State} {m : Module} {line : Line} {lines : List Line}

theorem run_other (hs : s.Waiting) (h : ∀ line ∈ lines, Field none line) : run s lines = .ok s := by
  induction lines with
  | nil => rfl
  | cons line lines ih =>
    have hline := h line List.mem_cons_self
    have hstep : step s line.1 = .ok s := by
      cases hfound : s.foundMemoryDevice with
      | false => exact step_skip hs hfound hline.1
      | true => exact step_collect hfound hline.1 (readLine_other hline) hs
    rw [run_cons, hstep, except_ok_bind, ih fun l hl => h l (List.mem_cons_of_mem _ hl)]

theorem run_other_append {lines' : List Line} (hs : s.memoryDeviceParams.complete = false)
    (h : ∀ line ∈ lines, Field none line) : run s (lines ++ lines') = run s lines' := by
  rw [run_append, run_other hs h, except_ok_bind]

/-- A line that is collected. -/
theorem run_collect (hfound : s.foundMemoryDevice = true) (h : isHeading line = false)
    {param : Option Param} (hparam : readLine line.1 = .ok param)
    (hincomplete : (s.memoryDeviceParams.update param).complete = false) :
    run s (line :: lines) =
      run { s with memoryDeviceParams := s.memoryDeviceParams.update param } lines := by
  rw [run_cons, step_collect hfound h hparam hincomplete, except_ok_bind]

/-- The line that completes a module; what the block says after it is not read. -/
theorem run_complete (size : String × String) (type : DimmType) (speed : String)
    (hfound : s.foundMemoryDevice = true) (h : isHeading line = false)
    {param : Option Param} (hparam : readLine line.1 = .ok param)
    (hcomplete : s.memoryDeviceParams.update param = ⟨some size, some type, some speed⟩)
    (hlines : ∀ line ∈ lines, isHeading line = false) :
    run s (line :: lines) = (sizeInBytes size).map fun bytes =>
      ⟨false, {}, s.totals + dimm bytes type, ramSpeed s speed type⟩ := by
  rw [run_cons, step_read hfound h, hparam, except_ok_bind, countComplete_complete hcomplete]
  cases sizeInBytes size with
  | error e => rfl
  | ok bytes => exact run_skip rfl rfl hlines

theorem Module.body (m : Module) : ∀ line ∈ m.fields, isHeading line = false := by
  intro line hline
  simp only [fields, List.mem_append, List.mem_cons] at hline
  obtain (hline | rfl | hline) | rfl | rfl | rfl | hline := hline
  · exact (m.head_field line hline).1
  · exact m.size_field.1
  · exact (m.form_field line hline).1
  · exact m.type_field.1
  · exact m.detail_field.1
  · exact m.speed_field.1
  · exact m.tail_field line hline

theorem Module.body_of_suffix (m : Module) (h : lines <:+ m.fields) : ∀ line ∈ lines, isHeading line = false :=
  fun line hline => m.body line (h.subset hline)

theorem Module.readLine_size (m : Module) :
    readLine m.size.1 = .ok (some (.size (toString m.amount) m.unit)) :=
  Dmidecode.readLine_size m.size_field (by rw [m.size_words]; rfl) (by rw [m.size_words]; rfl)

theorem Module.readLine_speed (m : Module) : readLine m.speed.1 = .ok (some (.speed m.rate)) := by
  rw [Dmidecode.readLine_speed m.speed_field, m.speed_known.1, m.speed_known.2,
    word_eq_ok m.speed_word]
  rfl

/-- The fields of a module after what was collected before it. -/
theorem run_fields {size : Option (String × String)} {type : Option DimmType} {speed : Option String}
    {totals : Totals} {ramDimmSpeed : Option String}
    (hs : Params.complete ⟨size, type, speed⟩ = false) :
    ∃ rate, run ⟨true, ⟨size, type, speed⟩, totals, ramDimmSpeed⟩ m.fields =
      (sizeInBytes (toString m.amount, m.unit)).map fun bytes =>
        ⟨false, {}, totals + dimm bytes (countedType ⟨size, type, speed⟩ m), rate⟩ := by
  have hsize := m.readLine_size
  have htype := readLine_type m.type_field m.type_word
  have hdetail := readLine_detail m.detail_field
  rw [Module.fields, List.append_assoc, List.cons_append, run_other_append hs m.head_field]
  cases speed with
  | some speed =>
    cases type with
    | some type =>
      -- the size of the module completes what was collected before it
      exact ⟨_, run_complete _ _ _ rfl m.size_field.1 hsize rfl
        (m.body_of_suffix ⟨m.head ++ [m.size], by simp [Module.fields]⟩)⟩
    | none =>
      rw [run_collect rfl m.size_field.1 hsize rfl, run_other_append rfl m.form_field]
      by_cases hddr : m.typeName ∈ ddrTypes
      · rw [if_pos hddr] at htype
        rw [countedType, if_pos hddr]
        exact ⟨_, run_complete _ _ _ rfl m.type_field.1 htype rfl
          (m.body_of_suffix ⟨m.head ++ m.size :: m.form ++ [m.type], by simp [Module.fields]⟩)⟩
      · rw [if_neg hddr] at htype
        rw [if_pos (m.populated.resolve_left hddr)] at hdetail
        rw [countedType, if_neg hddr, run_collect rfl m.type_field.1 htype rfl]
        exact ⟨_, run_complete _ _ _ rfl m.detail_field.1 hdetail rfl (m.body_of_suffix
          ⟨m.head ++ m.size :: m.form ++ [m.type, m.detail], by simp [Module.fields]⟩)⟩
  | none =>
    rw [run_collect rfl m.size_field.1 hsize (by exact Bool.and_false _),
      run_other_append (by exact Bool.and_false _) m.form_field]
    by_cases hddr : m.typeName ∈ ddrTypes
    · rw [if_pos hddr] at htype
      rw [run_collect rfl m.type_field.1 htype rfl, run_collect rfl m.detail_field.1 hdetail ?_]
      · refine ⟨_, run_complete _ m.ownType m.rate rfl m.speed_field.1 m.readLine_speed ?_ m.tail_field⟩
        rw [Module.ownType]
        split <;> rfl
      · split <;> rfl
    · rw [if_neg hddr] at htype
      have hnvm := m.populated.resolve_left hddr
      rw [if_pos hnvm] at hdetail
      rw [run_collect rfl m.type_field.1 htype (by exact Bool.and_false _),
        run_collect rfl m.detail_field.1 hdetail rfl]
      refine ⟨_, run_complete _ m.ownType m.rate rfl m.speed_field.1 m.readLine_speed ?_ m.tail_field⟩
      rw [Module.ownType, if_pos hnvm]
      rfl

/-- A module is counted once and with its own size. -/
theorem run_module (hs : s.Waiting) : ∃ rate, run s m.lines =
    (sizeInBytes (toString m.amount, m.unit)).map fun bytes =>
      ⟨false, {}, s.totals + dimm bytes (countedType s.memoryDeviceParams m), rate⟩ := by
  rw [Module.lines, run_cons, step_heading isHeading_heading, except_ok_bind]
  exact run_fields hs

theorem sizeInBytes_module {bytes : ℚ} : sizeInBytes (toString m.amount, m.unit) = .ok bytes ↔
    m.unit ∈ units ∧ bytes = m.bytes := by
  rw [sizeInBytes, int_toString, except_ok_bind, Dict.item, Module.bytes, Dict.mem_def,
    Dict.mem_keys_iff_get?]
  cases units.get? m.unit with
  | none => simp
  | some multiplier => simp [eq_comm]

theorem run_module_ok {s' : State} (hs : s.Waiting) (h : run s m.lines = .ok s') :
    m.unit ∈ units ∧ s'.Fresh ∧
      s'.totals = s.totals + dimm m.bytes (countedType s.memoryDeviceParams m) := by
  obtain ⟨rate, hrun⟩ := run_module (m := m) hs
  rw [hrun] at h
  cases hbytes : sizeInBytes (toString m.amount, m.unit) with
  | error e =>
    rw [hbytes] at h
    cases h
  | ok bytes =>
    rw [hbytes] at h
    cases h
    obtain ⟨hunit, rfl⟩ := sizeInBytes_module.mp hbytes
    exact ⟨hunit, ⟨rfl, rfl⟩, rfl⟩

theorem run_module_returns (hs : s.Waiting) (hunit : m.unit ∈ units) :
    ∃ s', run s m.lines = .ok s' := by
  obtain ⟨rate, hrun⟩ := run_module (m := m) hs
  rw [hrun, sizeInBytes_module.mpr ⟨hunit, rfl⟩]
  exact ⟨_, rfl⟩

end Modules

/-! ## All modules of a text -/

section Runs

variable {s s' : State} {modules : List (Gap × Module)}

/-- The lines of the modules and of the gaps before them. -/
def linesOf (modules : List (Gap × Module)) : List Line :=
  modules.flatMap fun p => p.1.flatMap Piece.lines ++ p.2.lines

/-- What the modules add, each by a type of its own. -/
def total (typeOf : Gap × Module → DimmType) (modules : List (Gap × Module)) : Totals :=
  (modules.map fun p => dimm p.2.bytes (typeOf p)).sum

theorem count_total (typeOf : Gap × Module → DimmType) : count (total typeOf modules) =
    modules.length := by
  induction modules with
  | nil => rfl
  | cons p modules ih =>
    rw [total, List.map_cons, List.sum_cons, count_add, count_dimm, ← total, ih, List.length_cons,
      Nat.add_comm]

theorem run_modules_clean (hs : s.Fresh) (hunit : ∀ p ∈ modules, p.2.unit ∈ units)
    (hharmless : ∀ p ∈ modules, Harmless {} (readLines p.1)) :
    ∃ s', run s (linesOf modules) = .ok s' ∧ s'.Fresh ∧
      s'.totals = s.totals + total (fun p => countedType (leftover p.1) p.2) modules := by
  induction modules generalizing s with
  | nil => exact ⟨s, rfl, hs, (add_zero _).symm⟩
  | cons p modules ih =>
    obtain ⟨found, hgap⟩ := run_gap_harmless hs (hharmless p List.mem_cons_self)
    have hwaiting := (run_waiting hs.waiting hgap).1
    obtain ⟨t, ht⟩ := run_module_returns hwaiting (hunit p List.mem_cons_self)
    obtain ⟨-, hfresh, htotals⟩ := run_module_ok hwaiting ht
    obtain ⟨s', hs', hfresh', htotals'⟩ := ih hfresh (fun q hq => hunit q (List.mem_cons_of_mem _ hq))
      fun q hq => hharmless q (List.mem_cons_of_mem _ hq)
    refine ⟨s', ?_, hfresh', ?_⟩
    · rw [linesOf, List.flatMap_cons, run_append, run_append, hgap, except_ok_bind, ht,
        except_ok_bind, ← linesOf, hs']
    · rw [htotals', htotals, total, total, List.map_cons, List.sum_cons, add_assoc]

/-- A text that is read has all its modules counted, and only these when no gap does any harm. -/
theorem run_modules_ok (hs : s.Fresh) (h : run s (linesOf modules) = .ok s') :
    s'.Fresh ∧ (∀ p ∈ modules, p.2.unit ∈ units) ∧ s.count + modules.length ≤ s'.count ∧
      (s'.count = s.count + modules.length → ∀ p ∈ modules, Harmless {} (readLines p.1)) := by
  induction modules generalizing s with
  | nil =>
    cases h
    exact ⟨hs, fun _ hmem => (by cases hmem), le_rfl, fun _ _ hmem => by cases hmem⟩
  | cons p modules ih =>
    rw [linesOf, List.flatMap_cons, run_append, run_append] at h
    obtain ⟨u, hu, hrest⟩ := except_bind_ok_iff.mp h
    obtain ⟨t, hgap, hmodule⟩ := except_bind_ok_iff.mp hu
    obtain ⟨hwaiting, hle⟩ := run_waiting hs.waiting hgap
    obtain ⟨hunit, hfresh, htotals⟩ := run_module_ok hwaiting hmodule
    have hcount : u.count = t.count + 1 := by
      rw [State.count, htotals, count_add, count_dimm]
      rfl
    obtain ⟨hfresh', hunits, hle', hall⟩ := ih hfresh hrest
    rw [List.length_cons]
    refine ⟨hfresh', List.forall_mem_cons.mpr ⟨hunit, hunits⟩, by omega, fun heq => ?_⟩
    refine List.forall_mem_cons.mpr ⟨?_, hall (by omega)⟩
    by_contra hharm
    have hlt := run_gap_harmful hs hharm hgap
    omega

end Runs

/-! ## Whole texts -/

theorem parse_textOf_ok_iff {lines : List Line} {r : Totals × Option String} :
    parseDmidecodeOutput (textOf lines) = .ok r ↔
      ∃ s, run {} lines = .ok s ∧ r = (s.totals, s.ramDimmSpeed) := by
  have hlines : ∀ s ∈ lines.map (·.1) ++ [""], '\n' ∉ s.toList := by
    intro s hs
    obtain hs | hs := List.mem_append.mp hs
    · obtain ⟨line, -, rfl⟩ := List.mem_map.mp hs
      exact line.2
    · rw [List.mem_singleton.mp hs]
      exact List.not_mem_nil
  have hlast : ∀ s : State, s.Waiting → step s "" = .ok s := by
    intro s hs
    have hother : Field none ⟨"", List.not_mem_nil⟩ := by decide
    obtain ⟨t, ht, hdone⟩ := except_bind_ok_iff.mp
      (run_other (s := s) hs (List.forall_mem_singleton.mpr hother))
    cases hdone
    exact ht
  rw [parseDmidecodeOutput, textOf,
    split_join (List.append_ne_nil_of_right_ne_nil _ (List.cons_ne_nil _ _)) hlines,
    List.foldlM_append, List.foldlM_map, ← run]
  cases hrun : run {} lines with
  | error e => exact iff_of_false (fun h => by cases h) fun h => by obtain ⟨s, hs, -⟩ := h; cases hs
  | ok s =>
    rw [except_ok_bind, List.foldlM_cons, hlast s (run_waiting fresh_init.waiting hrun).1]
    constructor
    · intro h
      cases h
      exact ⟨s, rfl, rfl⟩
    · rintro ⟨t, ht, rfl⟩
      cases ht
      rfl

/-- A block that does not tell its speed is not counted. -/
theorem harmless_slot (block : Slot) : Harmless {} block.fields := by
  have hspeed : ∀ (lines : List Line) (params : Params), (∀ line ∈ lines, UnclockedField line) →
      params.speed = none → (collected params lines).speed = none := by
    intro lines
    induction lines with
    | nil => exact fun _ _ h => h
    | cons line lines ih =>
      intro params hlines hnone
      obtain ⟨param, hread, hparam⟩ := (hlines line List.mem_cons_self).readLine
      rw [collected_cons hread]
      refine ih _ (fun l hl => hlines l (List.mem_cons_of_mem _ hl)) ?_
      cases param with
      | none => exact hnone
      | some param =>
        cases param with
        | size value unit => exact hnone
        | type type => exact hnone
        | speed speed => exact absurd rfl (hparam speed)
  refine ⟨fun line hline => ?_, ?_⟩
  · obtain ⟨param, hread, -⟩ := (block.unclocked line hline).readLine
    exact ⟨param, hread⟩
  · rw [Params.complete, hspeed block.fields {} block.unclocked rfl]
    exact Bool.and_false _

theorem parse_slot (block : Slot) :
    ∃ r, parseDmidecodeOutput (textOf block.lines) = .ok r ∧ r.1 = 0 := by
  have hfields : block.fields.filter (fun line => !isHeading line) = block.fields :=
    List.filter_eq_self.mpr fun line hline => by
      rw [(block.unclocked line hline).body]
      rfl
  have hharmless := harmless_slot block
  rw [← hfields] at hharmless
  have hrun := run_harmless (s := { foundMemoryDevice := true }) rfl rfl hharmless
  have hlines : run {} block.lines = .ok
      { foundMemoryDevice := true, memoryDeviceParams := collected {} block.fields } := by
    rw [Slot.lines, run_cons, step_heading isHeading_heading, except_ok_bind, hrun,
      hfields]
  exact ⟨_, parse_textOf_ok_iff.mpr ⟨_, hlines, rfl⟩, rfl⟩

theorem parse_module {m : Module} (hunit : m.unit ∈ units) : ∃ r,
    parseDmidecodeOutput (textOf m.lines) = .ok r ∧ r.1 = dimm m.bytes m.ownType := by
  obtain ⟨s, hs⟩ := run_module_returns fresh_init.waiting hunit
  obtain ⟨-, -, htotals⟩ := run_module_ok fresh_init.waiting hs
  refine ⟨_, parse_textOf_ok_iff.mpr ⟨s, hs, rfl⟩, ?_⟩
  rw [htotals]
  exact zero_add _

/-- The blocks of a text one by one. -/
theorem mapM_blocks {o : Output} (hunit : ∀ p ∈ o.modules, p.2.unit ∈ units) : ∃ rs,
    o.blocks.mapM (fun block => parseDmidecodeOutput (textOf block)) = .ok rs ∧
      (rs.map Prod.fst).sum = total (fun p => p.2.ownType) o.modules := by
  have happend : ∀ (l l' : List (List Line)) (t t' : Totals),
      (∃ rs, l.mapM (fun block => parseDmidecodeOutput (textOf block)) = .ok rs ∧
        (rs.map Prod.fst).sum = t) →
      (∃ rs, l'.mapM (fun block => parseDmidecodeOutput (textOf block)) = .ok rs ∧
        (rs.map Prod.fst).sum = t') →
      ∃ rs, (l ++ l').mapM (fun block => parseDmidecodeOutput (textOf block)) = .ok rs ∧
        (rs.map Prod.fst).sum = t + t' := by
    rintro l l' t t' ⟨rs, hrs, rfl⟩ ⟨rs', hrs', rfl⟩
    refine ⟨rs ++ rs', ?_, by rw [List.map_append, List.sum_append]⟩
    rw [List.mapM_append, hrs, except_ok_bind, hrs']
    rfl
  have hgap : ∀ gap : Gap, ∃ rs,
      (gap.flatMap Piece.blocks).mapM (fun block => parseDmidecodeOutput (textOf block)) = .ok rs ∧
        (rs.map Prod.fst).sum = 0 := by
    intro gap
    induction gap with
    | nil => exact ⟨[], rfl, rfl⟩
    | cons piece gap ih =>
      rw [List.flatMap_cons, ← add_zero (0 : Totals)]
      refine happend _ _ _ _ ?_ ih
      cases piece with
      | slot block =>
        obtain ⟨r, hr, hzero⟩ := parse_slot block
        exact ⟨[r], except_mapM_ok_iff.mpr (.cons hr .nil), by simp [hzero]⟩
      | text line h => exact ⟨[], rfl, rfl⟩
  obtain ⟨modules, rest⟩ := o
  rw [Output.blocks, ← add_zero (total _ modules)]
  refine happend _ _ _ _ ?_ (hgap rest)
  induction modules with
  | nil => exact ⟨[], rfl, rfl⟩
  | cons p modules ih =>
    obtain ⟨r, hr, hown⟩ := parse_module (hunit p List.mem_cons_self)
    rw [List.flatMap_cons, total, List.map_cons, List.sum_cons, ← zero_add (dimm _ _)]
    exact happend _ _ _ _ (happend _ _ _ _ (hgap p.1)
      ⟨[r], except_mapM_ok_iff.mpr (.cons hr .nil), by simp [hown]⟩)
        (ih fun q hq => hunit q (List.mem_cons_of_mem _ hq))

/-- The totals of one kind. -/
def ofKind (ram : Bool) (totals : Totals) : ℕ × ℚ :=
  if ram then (totals.2.1, totals.2.2.2) else (totals.1, totals.2.2.1)

theorem ofKind_add (ram : Bool) (totals totals' : Totals) :
    ofKind ram (totals + totals') = ofKind ram totals + ofKind ram totals' := by
  cases ram <;> rfl

theorem ofKind_dimm (ram : Bool) (bytes : ℚ) (type : DimmType) :
    ofKind ram (dimm bytes type) = if type.isRam = ram then (1, bytes) else 0 := by
  cases ram <;> cases type <;> rfl

theorem totals_ext {totals totals' : Totals} (h : ∀ ram, ofKind ram totals = ofKind ram totals') :
    totals = totals' := by
  have hram := Prod.mk.inj (h true)
  have hnvm := Prod.mk.inj (h false)
  exact Prod.ext hnvm.1 (Prod.ext hram.1 (Prod.ext hnvm.2 hram.2))

/-- What one kind loses and what it gets. -/
theorem ofKind_total (ram : Bool) (modules : List (Gap × Module)) :
    ofKind ram (total (fun p => countedType (leftover p.1) p.2) modules) + miscounted ram modules =
      ofKind ram (total (fun p => p.2.ownType) modules) + miscounted (!ram) modules := by
  induction modules with
  | nil => rfl
  | cons p modules ih =>
    have hcons : ∀ ram, miscounted ram (p :: modules) = (if p.2.ownType.isRam = ram ∧
        (countedType (leftover p.1) p.2).isRam ≠ ram then (1, p.2.bytes) else 0) +
          miscounted ram modules := by
      intro ram
      rw [miscounted, List.filter_cons]
      split
      · case isTrue h => rw [if_pos (of_decide_eq_true h), List.map_cons, List.sum_cons, miscounted]
      · case isFalse h => rw [if_neg (fun hp => h (decide_eq_true hp)), zero_add, miscounted]
    have htotal : ∀ typeOf : Gap × Module → DimmType, ofKind ram (total typeOf (p :: modules)) =
        (if (typeOf p).isRam = ram then (1, p.2.bytes) else 0) + ofKind ram (total typeOf modules) := by
      intro typeOf
      rw [total, List.map_cons, List.sum_cons, ofKind_add, ofKind_dimm, total]
    have hhead : ∀ own counted : Bool,
        (if counted = ram then (1, p.2.bytes) else 0) +
            (if own = ram ∧ counted ≠ ram then (1, p.2.bytes) else 0) =
          (if own = ram then (1, p.2.bytes) else (0 : ℕ × ℚ)) +
            (if own = !ram ∧ counted ≠ !ram then (1, p.2.bytes) else 0) := by
      intro own counted
      cases ram <;> cases own <;> cases counted <;> simp
    rw [htotal, htotal, hcons, hcons, add_add_add_comm, ih, hhead, add_add_add_comm]

theorem total_eq_iff {modules : List (Gap × Module)} :
    total (fun p => countedType (leftover p.1) p.2) modules = total (fun p => p.2.ownType) modules ↔
      miscounted true modules = miscounted false modules := by
  constructor
  · intro h
    have hram := ofKind_total true modules
    rw [h] at hram
    exact add_left_cancel hram
  · intro h
    refine totals_ext fun ram => ?_
    have hkind := ofKind_total ram modules
    have hsame : miscounted ram modules = miscounted (!ram) modules := by
      cases ram
      · exact h.symm
      · exact h
    rw [hsame] at hkind
    exact add_right_cancel hkind

theorem Output.Additive.clean {o : Output} (h : o.Additive) : Clean o := by
  obtain ⟨r, rs, hr, hrs, hsum⟩ := h
  obtain ⟨s, hs, rfl⟩ := parse_textOf_ok_iff.mp hr
  rw [Output.lines, ← linesOf, run_append] at hs
  obtain ⟨t, ht, hrest⟩ := except_bind_ok_iff.mp hs
  obtain ⟨hfresh, hunit, hle, hall⟩ := run_modules_ok fresh_init ht
  obtain ⟨rs', hrs', hown⟩ := mapM_blocks hunit
  cases hrs.symm.trans hrs'
  have hsum : s.totals = total (fun p => p.2.ownType) o.modules := hsum.trans hown
  have hcount : s.count = o.modules.length := by rw [State.count, hsum, count_total]
  have hzero : State.count {} = 0 := rfl
  have hmono := (run_waiting hfresh.waiting hrest).2
  -- there is no room for a module of a gap
  have hharmlessRest : Harmless {} (readLines o.rest) := by
    by_contra hharm
    have hlt := run_gap_harmful hfresh hharm hrest
    omega
  have hharmless := hall (by omega)
  obtain ⟨t', ht', -, htotals⟩ := run_modules_clean fresh_init hunit hharmless
  cases ht.symm.trans ht'
  obtain ⟨found, hgap⟩ := run_gap_harmless hfresh hharmlessRest
  cases hrest.symm.trans hgap
  refine ⟨hunit, hharmless, hharmlessRest, total_eq_iff.mp ?_⟩
  rw [← hsum]
  exact (htotals.trans (zero_add _)).symm

theorem Clean.additive {o : Output} (h : Clean o) : o.Additive := by
  obtain ⟨t, ht, hfresh, htotals⟩ := run_modules_clean fresh_init h.unit h.harmless
  obtain ⟨found, hgap⟩ := run_gap_harmless hfresh h.rest
  obtain ⟨rs, hrs, hown⟩ := mapM_blocks h.unit
  have hrun : run {} o.lines = .ok { t with
      foundMemoryDevice := found, memoryDeviceParams := leftover o.rest } := by
    rw [Output.lines, ← linesOf, run_append, ht, except_ok_bind, hgap]
  refine ⟨_, rs, parse_textOf_ok_iff.mpr ⟨_, hrun, rfl⟩, hrs, ?_⟩
  rw [hown, ← total_eq_iff.mpr h.balanced, htotals]
  exact zero_add _

/-- The counts and sizes of a text are the sums of those of its blocks exactly when the units are known
and the gaps neither stop the reading, nor make up a module, nor change the kinds of more modules one
way than the other. -/
theorem parseDmidecodeOutput_additive_iff (o : Output) : o.Additive ↔ Clean o :=
  ⟨fun h => h.clean, fun h => h.additive⟩

/-! ## Texts that are not summed up -/

def nvdimm : Module where
  head := [⟨"\tTotal Width: 72 bits", by decide⟩]
  size := ⟨"\tSize: 16 GB", by decide⟩
  amount := 16
  unit := "GB"
  form := [⟨"\tForm Factor: DIMM", by decide⟩]
  type := ⟨"\tType: DDR4", by decide⟩
  typeName := "DDR4"
  detail := ⟨"\tType Detail: Synchronous Non-Volatile", by decide⟩
  speed := ⟨"\tSpeed: 2666 MT/s", by decide⟩
  rate := "2666"
  tail := [⟨"\tConfigured Clock Speed: 2666 MT/s", by decide⟩]
  head_field := by decide +kernel
  size_field := by decide +kernel
  size_words := by decide +kernel
  form_field := by decide +kernel
  type_field := by decide +kernel
  type_word := by decide +kernel
  detail_field := by decide +kernel
  populated := by decide +kernel
  speed_field := by decide +kernel
  speed_known := by decide +kernel
  speed_word := by decide +kernel
  tail_field := by decide +kernel

def terabyte : Module :=
  { nvdimm with
    size := ⟨"\tSize: 1 TB", by decide⟩
    amount := 1
    unit := "TB"
    size_field := by decide +kernel
    size_words := by decide +kernel }

def noModule : Slot where
  fields := [⟨"\tSize: No Module Installed", by decide⟩, ⟨"\tType: Unknown", by decide⟩,
    ⟨"\tType Detail: None", by decide⟩, ⟨"\tSpeed: Unknown", by decide⟩]
  unclocked := by
    refine List.forall_mem_cons.mpr ⟨.size (by decide +kernel) (by decide +kernel), ?_⟩
    refine List.forall_mem_cons.mpr ⟨.type (by decide +kernel) (by decide +kernel), ?_⟩
    refine List.forall_mem_cons.mpr ⟨.detail (by decide +kernel), ?_⟩
    exact List.forall_mem_singleton.mpr (.speed (by decide +kernel) (by decide +kernel))

/-- A line about another memory, after an empty slot. -/
def afterSlot : Output where
  modules := [([.slot noModule, .text ⟨"\tCurrent Speed: 70 ns", by decide⟩ (by decide)], nvdimm)]
  rest := []

/-- A module of a terabyte is not read, and a module after an empty slot is counted as the other kind. -/
theorem not_additive : ¬ Output.Additive ⟨[([], terabyte)], []⟩ ∧ ¬ afterSlot.Additive := by
  constructor
  · intro h
    exact absurd (h.clean.unit _ (List.mem_singleton_self _)) (by decide)
  · intro h
    exact absurd h.clean.balanced (by decide +kernel)

end Wca.Dmidecode
