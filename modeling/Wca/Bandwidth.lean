import Mathlib.Order.Bounds.Basic
import Wca.ResctrlAllocations
import Wca.Rows
import Wca.TasksFiles

/-!
# Memory bandwidth

What `normalizeMbString` returns, and the lines that an accepted request hands on: the normalized
line is computed by the validation and dropped.
-/

namespace Py.Str

/-- `str(n)` of an integer holds digits and a sign. -/
theorem mem_toString_int {n : ℤ} {c : Char} (h : c ∈ (toString n).toList) :
    c = '-' ∨ c.isDigit = true := by
  cases n with
  | ofNat n => exact .inr (isDigit_of_mem_toString h)
  | negSucc n =>
    have htext : toString (Int.negSucc n) = "-" ++ toString (n + 1) := rfl
    rw [htext, String.toList_append, List.mem_append] at h
    rcases h with h | h
    · exact .inl (List.mem_singleton.mp h)
    · exact .inr (isDigit_of_mem_toString h)

theorem toString_int_ne_empty (n : ℤ) : toString n ≠ "" := by
  intro he
  have hlist := congrArg String.toList he
  cases n with
  | ofNat n => exact Nat.toDigits_ne_nil ((toList_toString n).symm.trans hlist)
  | negSucc n =>
    have htext : toString (Int.negSucc n) = "-" ++ toString (n + 1) := rfl
    rw [htext, String.toList_append] at hlist
    exact List.cons_ne_nil _ _ hlist

/-- `int(str(n)) == n` for an integer. -/
theorem int_toString_int (n : ℤ) : int 10 (toString n) = .ok n := by
  cases n with
  | ofNat n => exact int_toString n
  | negSucc n =>
    have htext : (toString (Int.negSucc n)).toList = '-' :: Nat.toDigits 10 (n + 1) := by
      have hsign : toString (Int.negSucc n) = "-" ++ toString (n + 1) := rfl
      rw [hsign, String.toList_append, toList_toString]
      rfl
    have hdigits : ∀ c ∈ Nat.toDigits 10 (n + 1), c.isDigit = true := fun c hc =>
      Nat.isDigit_of_mem_toDigits (by decide) (Nat.le_refl 10) hc
    have hsp : ∀ c ∈ '-' :: Nat.toDigits 10 (n + 1), isNumSpace c = false := by
      refine List.forall_mem_cons.mpr ⟨by decide, fun c hc => ?_⟩
      rw [isNumSpace, isSpace_of_isDigit (hdigits c hc), Bool.false_and]
    have hbody := natBody?_of_isDigit Nat.toDigits_ne_nil hdigits
    rw [Nat.ofDigitChars_ten_toDigits] at hbody
    have hint : intChars? 10 ('-' :: Nat.toDigits 10 (n + 1)) = some (Int.negSucc n) := by
      rw [intChars?, trim_eq_self hsp]
      simp only [dropBasePrefix_ten, hbody]
      rfl
    rw [int, htext, hint]

end Py.Str

namespace Wca

open Py

/-- Rounding up gives the least multiple that is not below. -/
theorem isLeast_ceil_mul {n g : ℤ} (hg : 0 < g) :
    IsLeast {m | g ∣ m ∧ n ≤ m} (⌈(n : ℚ) / g⌉ * g) := by
  have hg' : (0 : ℚ) < g := by exact_mod_cast hg
  refine ⟨⟨Dvd.intro_left _ rfl, ?_⟩, ?_⟩
  · have hle := (div_le_iff₀ hg').mp (Int.le_ceil ((n : ℚ) / g))
    exact_mod_cast hle
  · rintro m ⟨⟨q, rfl⟩, hm⟩
    rw [mul_comm g q]
    refine mul_le_mul_of_nonneg_right (Int.ceil_le.mpr ((div_le_iff₀ hg').mpr ?_)) hg.le
    rw [mul_comm g q] at hm
    exact_mod_cast hm

/-! ## The normalized line -/

/-- The second item is the first one with the least multiple of the granularity that is not below
the requested value. -/
def NormalizedItem (gran : ℤ) (item item' : String × String) : Prop :=
  item'.1 = item.1 ∧ ∃ n m, Str.int 10 item.2 = .ok n ∧ IsLeast {m | gran ∣ m ∧ n ≤ m} m ∧
    item'.2 = toString m

/-- The line gives each domain of the row the least multiple that is not below its value. -/
def GivesLeastMultiples (gran : ℤ) (row : Row) (line : String) : Prop :=
  ∃ row', parseSchemataFileRow line = .ok row' ∧
    List.Forall₂ (NormalizedItem gran) row.items row'.items

section Normalize

variable {minBandwidth gran : ℤ}

theorem normalizeMbDomain_ok_iff (hgran : 0 < gran) {domain value text : String} :
    normalizeMbDomain minBandwidth gran domain value = .ok text ↔
      ∃ n, Str.int 10 value = .ok n ∧ minBandwidth ≤ n ∧
        text = itemText (domain, toString (⌈(n : ℚ) / gran⌉ * gran)) := by
  unfold normalizeMbDomain
  cases hn : Str.int 10 value with
  | error e => simp [Except.mapError]
  | ok n =>
    have hok : (Except.ok n : Except Exn ℤ).mapError
      (fun _ => Exc.InvalidAllocations (.mbNotInteger value)) = .ok n := rfl
    rw [hok, except_ok_bind, normalizeMbValue]
    by_cases hmin : n < minBandwidth
    · rw [if_pos hmin]
      simp [invalid, not_le.mpr hmin]
    · rw [if_neg hmin, if_pos hgran, except_ok_bind, except_pure]
      simp [not_lt.mp hmin, itemText, eq_comm]

/-- What a normalized line is made of. -/
theorem normalizeMbString_ok {mb norm : String} {sockets : ℕ} {minBandwidth? gran? : Option ℤ}
    (hgran : gran? = some gran) (hpos : 0 < gran)
    (h : normalizeMbString mb sockets minBandwidth? gran? = .ok norm) :
    ∃ rest row items, mb = "MB:" ++ rest ∧ parseSchemataFileRow mb = .ok row ∧
      List.Forall₂ (NormalizedItem gran) row.items items ∧
      norm = "MB:" ++ Str.join ';' (items.map itemText) := by
  subst hgran
  cases minBandwidth? with
  | none => cases h
  | some minBandwidth =>
    obtain ⟨hstarts, h⟩ := except_seq_ok_iff.mp h
    obtain ⟨row, hparse, h⟩ := except_bind_ok_iff.mp h
    obtain ⟨-, h⟩ := except_seq_ok_iff.mp h
    obtain ⟨texts, htexts, h⟩ := except_bind_ok_iff.mp h
    cases h
    obtain ⟨rest, hrest⟩ := Str.exists_of_startsWith
      (not_not.mp fun hnot => by rw [doIf_of hnot] at hstarts; cases hstarts)
    have hitems : ∀ {l : List (String × String)} {texts : List String},
        List.Forall₂ (fun p text => normalizeMbDomain minBandwidth gran p.1 p.2 = .ok text) l texts →
        ∃ items, List.Forall₂ (NormalizedItem gran) l items ∧ texts = items.map itemText := by
      intro l texts hall
      induction hall with
      | nil => exact ⟨[], .nil, rfl⟩
      | @cons p text l texts hp _ ih =>
        obtain ⟨items, hitems, rfl⟩ := ih
        obtain ⟨n, hn, -, rfl⟩ := (normalizeMbDomain_ok_iff hpos).mp hp
        exact ⟨(p.1, toString (⌈(n : ℚ) / gran⌉ * gran)) :: items,
          .cons ⟨rfl, n, _, hn, isLeast_ceil_mul hpos, rfl⟩ hitems, rfl⟩
    obtain ⟨items, hall, rfl⟩ := hitems (except_mapM_ok_iff.mp htexts)
    exact ⟨rest, row, items, hrest, liftM_ok_iff.mp hparse, hall, rfl⟩

/-- The normalized line gives each domain its least multiple. -/
theorem givesLeastMultiples_normalizeMbString {mb norm : String} {sockets : ℕ}
    {minBandwidth? gran? : Option ℤ} {row : Row} (hgran : gran? = some gran) (hpos : 0 < gran)
    (h : normalizeMbString mb sockets minBandwidth? gran? = .ok norm)
    (hrow : parseSchemataFileRow mb = .ok row) : GivesLeastMultiples gran row norm := by
  obtain ⟨rest, row', items, rfl, hparse, hall, rfl⟩ := normalizeMbString_ok hgran hpos h
  rw [hrow] at hparse
  cases hparse
  obtain ⟨-, hne, hitems⟩ := @item_of_parse "MB" rest row (by decide) hrow
  have hfst : items.map Prod.fst = row.items.map Prod.fst := by
    have hall' : List.Forall₂ (· = ·) (row.items.map Prod.fst) (items.map Prod.fst) :=
      List.forall₂_map_left_iff.mpr (List.forall₂_map_right_iff.mpr
        (hall.imp fun _ _ h => h.1.symm))
    rw [List.forall₂_eq_eq_eq] at hall'
    exact hall'.symm
  have hkeys : (items.map Prod.fst).Nodup := hfst ▸ row.nodup
  have hparts : ∀ item ∈ items, LegalItem item ∧ ';' ∉ item.1.toList ∧ ';' ∉ item.2.toList := by
    intro item hitem
    obtain ⟨item₀, hitem₀, hdomain, n, m, -, -, hvalue⟩ := forall₂_exists_left hall hitem
    obtain ⟨⟨hid, -, hsep⟩, hsemi, -⟩ := hitems item₀ hitem₀
    rw [LegalItem, hdomain, hvalue]
    refine ⟨⟨hid, Str.toString_int_ne_empty m, hsep⟩, hsemi, fun hc => ?_⟩
    rcases Str.mem_toString_int hc with h | h
    · exact absurd h (by decide)
    · exact absurd h (by decide)
  have hne' : items ≠ [] := by
    rintro rfl
    exact hne (List.map_eq_nil_iff.mp hfst.symm)
  exact ⟨⟨items, hkeys⟩, @parse_join "MB" items (by decide) hne' hkeys
    (fun item hitem => (hparts item hitem).1) (fun item hitem => (hparts item hitem).2), hall⟩

end Normalize

/-! ## The lines that are written -/

section Writes

variable {v : RDTAllocationValue} {r r' : Resctrl} {g : ResGroup} {m : String} {u : Unit}

@[simp] theorem schemataWrites_rmdirCtrlGroup (name : String) :
    (Resctrl.rmdirCtrlGroup name r).schemataWrites = r.schemataWrites := by
  unfold Resctrl.rmdirCtrlGroup
  split <;> rfl

@[simp] theorem schemataWrites_rmdirMonGroup (name m : String) :
    (Resctrl.rmdirMonGroup name m r).schemataWrites = r.schemataWrites := by
  unfold Resctrl.rmdirMonGroup
  split
  · rfl
  · split <;> rfl

theorem schemataWrites_addPids {pids : List Pid} (h : (g.addPids pids m).run r = .ok u r') :
    r'.schemataWrites = r.schemataWrites := by
  obtain ⟨-, r₁, r₂, hadds⟩ := ResGroup.exists_addsPids h
  have hcontrol : r₁.schemataWrites = r.schemataWrites := by
    rcases ResGroup.control_ok_iff.mp hadds.control with ⟨-, rfl⟩ | ⟨-, -, -, -, -, rfl⟩ <;> rfl
  have hmon : r₂.schemataWrites = (g.addPidsToTasksFile none pids r₁).schemataWrites := by
    obtain ⟨_, -, ⟨-, rfl⟩ | ⟨-, -, rfl⟩⟩ := ResGroup.createMongroupDirectory_ok_iff.mp hadds.mon <;> rfl
  rw [hadds.last, addPidsToTasksFile_moved.rest]
  change r₂.schemataWrites = _
  rw [hmon, addPidsToTasksFile_moved.rest]
  exact hcontrol

theorem schemataWrites_remove (h : (g.remove m).run r = .ok u r') :
    r'.schemataWrites = r.schemataWrites := by
  unfold ResGroup.remove at h
  split at h
  · rw [modify_run] at h
    cases h
    exact schemataWrites_rmdirMonGroup g.name m
  · rw [bind_of_ok (get_run r)] at h
    obtain ⟨monGroups, r₀, hmon, hrmdir⟩ := bind_ok_iff.mp h
    obtain ⟨-, rfl⟩ := run_liftM_ok_iff.mp hmon
    split at hrmdir
    · rw [modify_run] at hrmdir
      cases hrmdir
      exact schemataWrites_rmdirCtrlGroup g.name
    · rw [modify_run] at hrmdir
      cases hrmdir
      exact schemataWrites_rmdirMonGroup g.name m

theorem schemataWrites_moveIfAsked (h : v.moveIfAsked.run r = .ok u r') :
    r'.schemataWrites = r.schemataWrites := by
  unfold RDTAllocationValue.moveIfAsked at h
  split at h
  · rename_i source _
    unfold RDTAllocationValue.moveToGroup at h
    split at h
    · cases h
    · rw [bind_of_ok (get_run r)] at h
      obtain ⟨u₁, r₁, hadd, hrest⟩ := bind_ok_iff.mp h
      rw [bind_of_ok (get_run r₁)] at hrest
      obtain ⟨monGroups, r₂, hmon, hremove⟩ := bind_ok_iff.mp hrest
      obtain ⟨-, rfl⟩ := run_liftM_ok_iff.mp hmon
      rw [← schemataWrites_addPids hadd]
      rcases doIf_ok_iff.mp hremove with ⟨-, hremove⟩ | ⟨-, rfl⟩
      · exact schemataWrites_remove hremove
      · rfl
  · cases h
    rfl

/-- The lines of a write are remembered in their order. -/
theorem schemataWrites_writeSchemata {containerName : String} {lines : List String}
    (h : (g.writeSchemata containerName lines).run r = .ok u r') : r'.schemataWrites =
      r.schemataWrites ++ lines.map (SchemataWrite.mk containerName g.name) := by
  have hfold : ∀ (lines : List String) (r : Resctrl), (lines.foldl (fun r line =>
      { Resctrl.writeLine g.name line r with
        schemataWrites := r.schemataWrites ++ [⟨containerName, g.name, line⟩] }) r).schemataWrites =
      r.schemataWrites ++ lines.map (SchemataWrite.mk containerName g.name) := by
    intro lines
    induction lines with
    | nil => exact fun r => (List.append_nil _).symm
    | cons line lines ih =>
      intro r
      rw [List.foldl_cons, ih, List.append_assoc]
      rfl
  unfold ResGroup.writeSchemata at h
  rw [bind_of_ok (get_run r)] at h
  split at h
  · rw [set_run] at h
    cases h
    exact hfold lines r
  · cases h

theorem onResctrl_ok_iff {α : Type} {x : EStateM Exc Resctrl α} {w w' : World} {a : α} :
    (World.onResctrl x).run w = .ok a w' ↔ ∃ r, x.run w.host.resctrl = .ok a r ∧
      w' = { w with host := { w.host with resctrl := r } } := by
  unfold World.onResctrl World.onHost Host.onResctrl
  rw [zoom_ok_iff]
  constructor
  · rintro ⟨host, hx, rfl⟩
    obtain ⟨r, hr, rfl⟩ := zoom_ok_iff.mp hx
    exact ⟨r, hr, rfl⟩
  · rintro ⟨r, hr, rfl⟩
    exact ⟨_, zoom_ok_iff.mpr ⟨r, hr, rfl⟩, rfl⟩

/-- Performing a value hands on its schemata lines or none. -/
theorem performAllocations_writes {w w' : World} (h : v.performAllocations.run w = .ok u w') :
    ∃ lines, (lines = [] ∨ lines = v.schemataLines) ∧ ∃ group, w'.host.resctrl.schemataWrites =
      w.host.resctrl.schemataWrites ++ lines.map (SchemataWrite.mk v.containerName group) := by
  unfold RDTAllocationValue.performAllocations at h
  obtain ⟨u₁, w₁, hmove, hrest⟩ := bind_ok_iff.mp h
  obtain ⟨r₁, hr₁, rfl⟩ := onResctrl_ok_iff.mp hmove
  obtain ⟨write, w₂, hshould, hwrite⟩ := bind_ok_iff.mp hrest
  obtain ⟨heap, -, rfl⟩ := zoom_ok_iff.mp hshould
  rw [← schemataWrites_moveIfAsked hr₁]
  rcases doIf_ok_iff.mp hwrite with ⟨-, hlines⟩ | ⟨-, rfl⟩
  · obtain ⟨r₂, hr₂, rfl⟩ := onResctrl_ok_iff.mp hlines
    unfold RDTAllocationValue.writeLines at hr₂
    rcases doIf_ok_iff.mp hr₂ with ⟨-, hschemata⟩ | ⟨-, rfl⟩
    · split at hschemata
      · cases hschemata
      · case h_2 resgroup _ =>
        exact ⟨v.schemataLines, .inr rfl, resgroup.name, schemataWrites_writeSchemata hschemata⟩
    · exact ⟨[], .inl rfl, "", (List.append_nil _).symm⟩
  · exact ⟨[], .inl rfl, "", (List.append_nil _).symm⟩

end Writes

/-- The MB values and lines that come of a value: those of its targets, and those that are written
when it or a changeset of it is performed. -/
inductive HandsOn (v : RDTAllocationValue) : String → Prop
  | target {current target changeset line} (h : v.calculateChangeset current = .ok (target, changeset))
      (hline : target.rdtAllocation.mb = some line) : HandsOn v line
  | write {performed w w' new write} (hperformed : performed = v ∨
        ∃ current target, v.calculateChangeset current = .ok (target, some performed))
      (h : performed.performAllocations.run w = .ok () w')
      (hnew : w'.host.resctrl.schemataWrites = w.host.resctrl.schemataWrites ++ new)
      (hwrite : write ∈ new) (hline : Str.startsWith "MB:" write.line = true) : HandsOn v write.line

section Accepted

variable {v : RDTAllocationValue} {h h' : Heap} {mb : String} {gran : ℤ} {row : Row}

/-- An accepted request has a normalized line, and its l3 line has the prefix. -/
theorem normalizes_of_validate (hvalid : v.validate.run h = .ok () h')
    (hmb : v.rdtAllocation.mb = some mb) (hne : mb ≠ "") :
    (∃ norm, normalizeMbString mb v.platformSockets v.rdtInformation.mbMinBandwidth
      v.rdtInformation.mbBandwidthGran = .ok norm) ∧
    ∀ l3, v.rdtAllocation.l3 = some l3 → l3 ≠ "" → Str.startsWith "L3:" l3 = true := by
  obtain ⟨u, h₀, hlines, -⟩ := bind_ok_iff.mp hvalid
  obtain ⟨hok, -⟩ := run_liftM_ok_iff.mp hlines
  obtain ⟨hl3, hcheck⟩ := except_seq_ok_iff.mp hok
  have htruthy : ∀ {s : String}, s ≠ "" → truthy (some s) = true := fun hs => decide_eq_true hs
  constructor
  · rw [RDTAllocationValue.checkMb, hmb, except_doIf_ok_iff] at hcheck
    obtain ⟨-, hnormalize⟩ := except_seq_ok_iff.mp (hcheck (htruthy hne))
    obtain ⟨norm, hnorm, -⟩ := except_bind_ok_iff.mp hnormalize
    exact ⟨norm, hnorm⟩
  · intro l3 hsome hl3ne
    rw [RDTAllocationValue.checkL3, hsome, except_doIf_ok_iff] at hl3
    obtain ⟨-, hstring⟩ := except_seq_ok_iff.mp (hl3 (htruthy hl3ne))
    unfold validateL3String at hstring
    split at hstring
    · obtain ⟨hstarts, -⟩ := except_seq_ok_iff.mp hstring
      exact not_not.mp fun hnot => by cases except_doIf_ok_iff.mp hstarts hnot
    · cases hstring

/-- The MB value of a target is the one of the request, and the lines of a changeset are among its
lines. -/
theorem mb_of_calculateChangeset {current : Option RDTAllocationValue} {target : RDTAllocationValue}
    {changeset : Option RDTAllocationValue} (hmb : v.rdtAllocation.mb = some mb) (hne : mb ≠ "")
    (hcalc : v.calculateChangeset current = .ok (target, changeset)) :
    target.rdtAllocation.mb = some mb ∧ ∀ c, changeset = some c →
      (c.rdtAllocation.mb = v.rdtAllocation.mb ∨ c.rdtAllocation.mb = none) ∧
      (c.rdtAllocation.l3 = v.rdtAllocation.l3 ∨ c.rdtAllocation.l3 = none) := by
  have hmove : ∀ source, (target, changeset) = v.moveFrom source →
      target.rdtAllocation.mb = some mb ∧ ∀ c, changeset = some c →
        (c.rdtAllocation.mb = v.rdtAllocation.mb ∨ c.rdtAllocation.mb = none) ∧
        (c.rdtAllocation.l3 = v.rdtAllocation.l3 ∨ c.rdtAllocation.l3 = none) := by
    intro source hsource
    cases hsource
    refine ⟨hmb, fun c hc => ?_⟩
    cases hc
    exact ⟨.inl rfl, .inl rfl⟩
  unfold RDTAllocationValue.calculateChangeset at hcalc
  split at hcalc
  · exact hmove _ (Except.ok.inj hcalc).symm
  · split at hcalc
    · exact hmove _ (Except.ok.inj hcalc).symm
    · obtain ⟨l3Changed, -, hmerge⟩ := except_bind_ok_iff.mp hcalc
      obtain ⟨mbChanged, -, hpure⟩ := except_bind_ok_iff.mp hmerge
      cases hpure
      refine ⟨?_, fun c hc => ?_⟩
      · simp [RDTAllocationValue.copy, RDTAllocationValue.orElse, hmb, truthy, hne]
      · rw [Option.ite_none_right_eq_some] at hc
        obtain ⟨-, hc⟩ := hc
        cases hc
        cases l3Changed <;> cases mbChanged <;> simp [RDTAllocationValue.copy]

/-- The MB line among the lines of a value with parts of the request. -/
theorem eq_of_mem_schemataLines {c : RDTAllocationValue} {line : String}
    (hl3 : ∀ l3, v.rdtAllocation.l3 = some l3 → l3 ≠ "" → Str.startsWith "L3:" l3 = true)
    (hmb : v.rdtAllocation.mb = some mb)
    (hcmb : c.rdtAllocation.mb = v.rdtAllocation.mb ∨ c.rdtAllocation.mb = none)
    (hcl3 : c.rdtAllocation.l3 = v.rdtAllocation.l3 ∨ c.rdtAllocation.l3 = none)
    (hmem : line ∈ c.schemataLines) (hline : Str.startsWith "MB:" line = true) : line = mb := by
  rw [RDTAllocationValue.schemataLines, List.mem_append] at hmem
  rcases hmem with hmem | hmem
  · split at hmem
    · rename_i hc
      have hl3' : c.rdtAllocation.l3 = some line := by simpa using hmem
      rcases hcl3 with he | he
      · obtain ⟨rest, rfl⟩ := Str.exists_of_startsWith hline
        have htext : ("MB:" ++ rest).toList = 'M' :: 'B' :: ':' :: rest.toList := by
          rw [String.toList_append]
          rfl
        have hstarts := hl3 _ (he.symm.trans hl3') fun hempty => by
          rw [hempty] at htext
          cases htext
        rw [Str.startsWith, htext] at hstarts
        exact absurd hstarts (by simp [List.isPrefixOf])
      · rw [hl3'] at he
        cases he
    · cases hmem
  · split at hmem
    · have hmb' : c.rdtAllocation.mb = some line := by simpa using hmem
      rcases hcmb with he | he
      · rw [hmb', hmb] at he
        exact Option.some.inj he
      · rw [hmb'] at he
        cases he
    · cases hmem

/-- What is handed on is the MB line of the request. -/
theorem HandsOn.eq {line : String} (hvalid : v.validate.run h = .ok () h')
    (hmb : v.rdtAllocation.mb = some mb) (hne : mb ≠ "") (hline : HandsOn v line) : line = mb := by
  obtain ⟨-, hl3⟩ := normalizes_of_validate hvalid hmb hne
  cases hline with
  | target hcalc htarget =>
    exact Option.some.inj (htarget.symm.trans (mb_of_calculateChangeset hmb hne hcalc).1)
  | @write performed w w' new write hperformed hrun hnew hwrite hline =>
    obtain ⟨lines, hlines, group, hw⟩ := performAllocations_writes hrun
    rw [hnew, List.append_cancel_left_eq] at hw
    rw [hw] at hwrite
    obtain ⟨line, hmem, rfl⟩ := List.mem_map.mp hwrite
    have hmem' : line ∈ performed.schemataLines := by
      rcases hlines with rfl | rfl
      · exact absurd hmem List.not_mem_nil
      · exact hmem
    rcases hperformed with rfl | ⟨current, target, hcalc⟩
    · exact eq_of_mem_schemataLines hl3 hmb (.inl rfl) (.inl rfl) hmem' hline
    · obtain ⟨hcmb, hcl3⟩ := (mb_of_calculateChangeset hmb hne hcalc).2 performed rfl
      exact eq_of_mem_schemataLines hl3 hmb hcmb hcl3 hmem' hline

/-- Multiples of the granularity are not changed. -/
theorem eq_of_normalizedItems {items items' : List (String × String)}
    (hall : List.Forall₂ (NormalizedItem gran) items items')
    (hmultiples : ∀ item ∈ items, ∃ n : ℤ, gran ∣ n ∧ item.2 = toString n) : items' = items := by
  induction hall with
  | nil => rfl
  | @cons item item' items items' hitem _ ih =>
    obtain ⟨hfst, n, m, hn, hleast, hvalue⟩ := hitem
    obtain ⟨k, hdvd, hk⟩ := hmultiples item List.mem_cons_self
    rw [hk, Str.int_toString_int] at hn
    obtain rfl : k = n := Except.ok.inj hn
    have hm : m = k := hleast.unique ⟨⟨hdvd, le_refl k⟩, fun _ h => h.2⟩
    have hsnd : item'.2 = item.2 := by rw [hvalue, hm, hk]
    rw [ih fun i hi => hmultiples i (List.mem_cons_of_mem item hi), Prod.ext hfst hsnd]

/-- **Normalized bandwidth.** What an accepted request hands on is the normalized line exactly when
every value of the request is written as a multiple of the granularity. -/
theorem handsOn_normalized_iff (hvalid : v.validate.run h = .ok () h')
    (hmb : v.rdtAllocation.mb = some mb) (hne : mb ≠ "")
    (hgran : v.rdtInformation.mbBandwidthGran = some gran) (hpos : 0 < gran)
    (hrow : parseSchemataFileRow mb = .ok row) :
    (∀ line, HandsOn v line →
      normalizeMbString mb v.platformSockets v.rdtInformation.mbMinBandwidth
        v.rdtInformation.mbBandwidthGran = .ok line ∧ GivesLeastMultiples gran row line) ↔
      ∀ item ∈ row.items, ∃ n : ℤ, gran ∣ n ∧ item.2 = toString n := by
  obtain ⟨⟨norm, hnorm⟩, -⟩ := normalizes_of_validate hvalid hmb hne
  constructor
  · intro hall
    -- a target of the request itself
    obtain ⟨-, row', hrow', hitems⟩ := hall mb (@HandsOn.target v none _ _ mb rfl hmb)
    rw [hrow] at hrow'
    cases hrow'
    intro item hitem
    obtain ⟨-, n, m, -, hleast, hvalue⟩ := List.forall₂_same.mp hitems item hitem
    exact ⟨m, hleast.1.1, hvalue⟩
  · intro hmultiples line hline
    rw [hline.eq hvalid hmb hne]
    have hsame : norm = mb := by
      obtain ⟨rest, row', items, rfl, hparse, hall, rfl⟩ := normalizeMbString_ok hgran hpos hnorm
      rw [hrow] at hparse
      cases hparse
      obtain ⟨hrest, -, -⟩ := @item_of_parse "MB" rest row (by decide) hrow
      rw [eq_of_normalizedItems hall hmultiples, ← hrest]
    rw [hsame] at hnorm
    exact ⟨hnorm, givesLeastMultiples_normalizeMbString hgran hpos hnorm hrow⟩

end Accepted

/-- A request for a bandwidth, on a platform with steps of 10. -/
def bandwidthRequest (mb : String) : RDTAllocationValue where
  containerName := "task"
  rdtAllocation := { name := none, l3 := none, mb := some mb }
  resgroup := none
  getPids := {
    ident := 0
    name := "task"
    cgroup := {
      cgroupPath := "/task"
      allocationConfiguration := {}
      platform := {
        sockets := 2
        cpus := 2
        numaNodes := 1
        nodeCpus := ∅
        rdtInformation := none
        swapEnabled := false } }
    subcgroups := []
    resgroup := none }
  platformSockets := 2
  rdtInformation := {
    rdtCacheMonitoringEnabled := false
    rdtMbMonitoringEnabled := false
    rdtCacheControlEnabled := false
    rdtMbControlEnabled := true
    cbmMask := none
    minCbmBits := none
    numClosids := some 4
    mbBandwidthGran := some 10
    mbMinBandwidth := some 10 }
  rdtGroups := 0

/-- One registry, with room for a group. -/
def oneRegistry : Heap where
  next := 1
  cell := fun _ => { closidsLimit := 4 }

/-- A multiple of the step is handed on as it is normalized. -/
theorem handsOn_normalized_twenty :
    (∃ h', (bandwidthRequest "MB:0=20").validate.run oneRegistry = .ok () h') ∧
      ∀ line, HandsOn (bandwidthRequest "MB:0=20") line →
        normalizeMbString "MB:0=20" 2 (some 10) (some 10) = .ok line ∧
          GivesLeastMultiples 10 (Dict.ofItems [("0", "20")]) line := by
  have hvalid : (bandwidthRequest "MB:0=20").validate.run oneRegistry = .ok () _ := rfl
  refine ⟨⟨_, hvalid⟩, ?_⟩
  refine (handsOn_normalized_iff hvalid rfl (by decide) rfl (by decide) (by decide)).mpr ?_
  exact List.forall_mem_singleton.mpr ⟨20, ⟨2, rfl⟩, rfl⟩

/-- The bandwidth 15 is accepted, normalized to 20, and handed on as 15. -/
theorem handsOn_fifteen :
    (∃ h', (bandwidthRequest "MB:0=15").validate.run oneRegistry = .ok () h') ∧
      HandsOn (bandwidthRequest "MB:0=15") "MB:0=15" ∧
      normalizeMbString "MB:0=15" 2 (some 10) (some 10) = .ok "MB:0=20" := by
  exact ⟨⟨_, rfl⟩, @HandsOn.target _ none _ _ _ rfl rfl, by decide +kernel⟩

end Wca
