import Wca.Storage
import Wca.Packing

/-!
# Division of a text into messages

`divideMessage` cuts a long text greedily (`Packing`), but what it packs is one piece for each line:
the `#` lines from that line on with the sample after them. A sample with `#` lines before it is so
sent once more for each of these, and the last chunk is never added to the result.
`divideMessage_delivers_iff` says for which texts the chunks still are the samples of the text.
-/

namespace Wca

open Py Packing

/-! ## A text of whole lines -/

/-- A text is empty or ends with a line feed. -/
def EndsLine (s : String) : Prop := s = "" ∨ ∃ t, s = t ++ "\n"

/-- A text of whole lines splits into its lines and an empty one. -/
theorem EndsLine.split {text : String} (h : EndsLine text) :
    ∃ lines, Str.split '\n' text = lines ++ [""] := by
  rcases h with rfl | ⟨t, rfl⟩
  · exact ⟨[], rfl⟩
  · refine ⟨Str.split '\n' t, ?_⟩
    have hsplit := Str.split_append_cons '\n' t ""
    rw [String.append_empty] at hsplit
    exact hsplit

theorem endsLine_join {l : List String} (h : ∀ s ∈ l, EndsLine s) : EndsLine (String.join l) := by
  induction l with
  | nil => exact .inl rfl
  | cons s l ih =>
    rw [String.join_cons]
    rcases ih fun s hs => h s (List.mem_cons_of_mem _ hs) with hl | ⟨t, hl⟩
    · rw [hl, String.append_empty]
      exact h s List.mem_cons_self
    · exact .inr ⟨s ++ t, by rw [hl, String.append_assoc]⟩

section

variable {F : Type} {repr : F → String}

theorem endsLine_sampleLine {timestamp : Option String} {filterLabels : Option (List String)}
    {metric : Metric F} {s : String}
    (h : sampleLine repr timestamp filterLabels metric = .ok s) : EndsLine s := by
  obtain ⟨label, -, h⟩ := except_bind_ok_iff.mp h
  obtain ⟨value, -, h⟩ := except_bind_ok_iff.mp h
  cases h
  cases timestamp with
  | none => exact .inr ⟨_, rfl⟩
  | some timestamp => exact .inr ⟨_, rfl⟩

theorem endsLine_metaLines (n : ℕ) (metric : Metric F) {groupSeparator : String}
    (h : EndsLine groupSeparator) :
    (∀ s ∈ (metaLines n metric groupSeparator).1, EndsLine s) ∧
      EndsLine (metaLines n metric groupSeparator).2 := by
  have hif : ∀ (b : Bool) (line : String), EndsLine line →
      ∀ s ∈ (if b = true then [line] else []), EndsLine s := by
    intro b line hline s hs
    cases b with
    | false => exact absurd hs List.not_mem_nil
    | true => exact List.mem_singleton.mp hs ▸ hline
  unfold metaLines
  dsimp only
  split
  · case isTrue hnone =>
    rw [if_neg hnone.1]
    exact ⟨fun s hs => List.mem_singleton.mp hs ▸ h, h⟩
  · refine ⟨fun s hs => ?_, .inl rfl⟩
    rcases List.mem_append.mp hs with hs | hs
    · exact hif _ _ (.inr ⟨_, rfl⟩) s hs
    · exact hif _ _ (.inr ⟨_, rfl⟩) s hs

theorem endsLine_convertGroups {timestamp : Option String} {filterLabels : Option (List String)}
    {n : ℕ} {groupSeparator : String} {groups : List (String × List (Metric F))}
    {output : List String} (hsep : EndsLine groupSeparator)
    (h : convertGroups repr timestamp filterLabels n groupSeparator groups = .ok output) :
    ∀ s ∈ output, EndsLine s := by
  induction groups generalizing n groupSeparator output with
  | nil =>
    cases h
    exact fun s hs => absurd hs List.not_mem_nil
  | cons group groups ih =>
    obtain ⟨⟨lines, groupSeparator'⟩, hgroup, h⟩ := except_bind_ok_iff.mp h
    obtain ⟨rest, hrest, h⟩ := except_bind_ok_iff.mp h
    cases h
    obtain ⟨name, metrics⟩ := group
    cases metrics with
    | nil => cases hgroup
    | cons firstMetric metrics =>
      obtain ⟨-, samples, hsamples, hgroup⟩ := convertGroup_ok_iff.mp hgroup
      cases hgroup
      obtain ⟨hmeta, hsep'⟩ := endsLine_metaLines n firstMetric hsep
      intro s hs
      rcases List.mem_append.mp hs with hs | hs
      · rcases List.mem_append.mp hs with hs | hs
        · exact hmeta s hs
        · obtain ⟨metric, -, hsample⟩ := forall₂_exists_left (except_mapM_ok_iff.mp hsamples) hs
          exact endsLine_sampleLine hsample
      · exact ih hsep' hrest s hs

theorem endsLine_convert {metrics : List (Metric F)} {timestamp : Option String}
    {filterLabels : Option (List String)} {text : String}
    (h : convertToPrometheusExpositionFormat repr metrics timestamp filterLabels = .ok text) :
    EndsLine text := by
  obtain ⟨groups, -, h⟩ := except_bind_ok_iff.mp h
  obtain ⟨output, houtput, h⟩ := except_bind_ok_iff.mp h
  cases h
  exact endsLine_join (endsLine_convertGroups (.inl rfl) houtput)

end

namespace KafkaStorage

/-! ## Samples and pieces -/

def IsComment (line : String) : Prop := Str.startsWith "#" line = true

instance (line : String) : Decidable (IsComment line) := inferInstanceAs (Decidable (_ = true))

/-- The samples of some lines, each with the `#` lines directly before it; `comments` are the ones
before the first line. Empty lines do not count. -/
def entries (comments : List String) : List String → List (List String × String)
  | [] => []
  | line :: lines =>
    if IsComment line then entries (comments ++ [line]) lines
    else if line = "" then entries [] lines
    else (comments, line) :: entries [] lines

def entriesOf (text : String) : List (List String × String) := entries [] (Str.split '\n' text)

/-- The chunks are the text for their reader: every sample once and in order, with its `#` lines,
and no chunk too big if it could be smaller. -/
structure Delivers (overhead : ℕ) (text : String) (chunks : List String) : Prop where
  entries_eq : chunks.flatMap entriesOf = entriesOf text
  size_le : ∀ chunk ∈ chunks,
    getsizeof overhead chunk ≤ MAX_SIZE ∨ (entriesOf chunk).length = 1

/-- The `#` lines from a line on with the line after them. -/
def piece : List String → List String
  | [] => []
  | line :: lines => if IsComment line then line :: piece lines else [line]

/-- One piece for each line. -/
def pieces : List String → List (List String)
  | [] => []
  | line :: lines => piece (line :: lines) :: pieces lines

/-- Lines as text. -/
def render (lines : List String) : String := String.join (lines.map (· ++ "\n"))

theorem render_append (lines lines' : List String) :
    render (lines ++ lines') = render lines ++ render lines' := by
  rw [render, List.map_append, String.join_append]
  rfl

theorem render_cons (line : String) (lines : List String) :
    render (line :: lines) = line ++ "\n" ++ render lines := String.join_cons

theorem render_eq_empty_iff {lines : List String} : render lines = "" ↔ lines = [] := by
  cases lines with
  | nil => exact iff_of_true rfl rfl
  | cons line lines =>
    refine iff_of_false (fun h => ?_) (List.cons_ne_nil _ _)
    have hlen := congrArg String.length h
    rw [render_cons, String.length_append, String.length_append] at hlen
    have hone : "\n".length = 1 := rfl
    have hzero : "".length = 0 := rfl
    omega

theorem split_render {lines : List String} (h : ∀ line ∈ lines, '\n' ∉ line.toList) :
    Str.split '\n' (render lines) = lines ++ [""] := by
  induction lines with
  | nil => rfl
  | cons line lines ih =>
    rw [render_cons]
    refine (Str.split_append_cons '\n' line (render lines)).trans ?_
    rw [ih fun line hline => h line (List.mem_cons_of_mem _ hline),
      Str.split_of_not_mem (h line List.mem_cons_self)]
    rfl

/-! ## Samples of pieces -/

/-- The lines end with one that is no comment. -/
def Closed (lines : List String) : Prop := ∃ last ∈ lines.getLast?, ¬IsComment last

theorem not_closed_nil : ¬Closed [] := fun ⟨_, h, _⟩ => absurd h (Option.not_mem_none _)

theorem closed_singleton {line : String} : Closed [line] ↔ ¬IsComment line := by
  simp [Closed]

theorem closed_cons_cons {line line' : String} {lines : List String} :
    Closed (line :: line' :: lines) ↔ Closed (line' :: lines) := by
  rw [Closed, Closed, List.getLast?_cons_cons]

theorem Closed.tail {line : String} {lines : List String} (h : Closed (line :: lines))
    (hc : IsComment line) : Closed lines := by
  cases lines with
  | nil => exact absurd hc (closed_singleton.mp h)
  | cons line' lines => exact closed_cons_cons.mp h

theorem closed_concat {lines : List String} {last : String} (h : ¬IsComment last) :
    Closed (lines ++ [last]) := ⟨last, List.getLast?_concat, h⟩

theorem closed_piece {lines : List String} (h : Closed lines) : Closed (piece lines) := by
  induction lines with
  | nil => exact absurd h not_closed_nil
  | cons line lines ih =>
    rw [piece]
    split
    · case isTrue hc =>
      have htail := ih (h.tail hc)
      cases hp : piece lines with
      | nil => exact absurd (hp ▸ htail) not_closed_nil
      | cons line' lines' => exact closed_cons_cons.mpr (hp ▸ htail)
    · case isFalse hc => exact closed_singleton.mpr hc

theorem mem_of_mem_piece {line : String} {lines : List String} (h : line ∈ piece lines) :
    line ∈ lines := by
  induction lines with
  | nil => exact h
  | cons first lines ih =>
    rw [piece] at h
    split at h
    · rcases List.mem_cons.mp h with rfl | h
      · exact List.mem_cons_self
      · exact List.mem_cons_of_mem _ (ih h)
    · exact List.mem_singleton.mp h ▸ List.mem_cons_self

/-- A piece comes from a line of closed lines. -/
theorem mem_pieces {lines : List String} (h : Closed lines) {p : List String} (hp : p ∈ pieces lines) :
    ∃ lines', Closed lines' ∧ p = piece lines' ∧ ∀ line ∈ lines', line ∈ lines := by
  induction lines with
  | nil => exact absurd h not_closed_nil
  | cons line lines ih =>
    rw [pieces] at hp
    rcases List.mem_cons.mp hp with rfl | hp
    · exact ⟨line :: lines, h, rfl, fun _ hline => hline⟩
    · cases lines with
      | nil => cases hp
      | cons line' lines =>
        obtain ⟨lines', hclosed, rfl, hmem⟩ := ih (closed_cons_cons.mp h) hp
        exact ⟨lines', hclosed, rfl, fun line hline => List.mem_cons_of_mem _ (hmem line hline)⟩

/-- A piece is one sample, or none where its last line is empty. -/
theorem length_entries_piece {lines : List String} (h : Closed lines) (comments : List String) :
    (entries comments (piece lines)).length = 1 ↔ (piece lines).getLast? ≠ some "" := by
  induction lines generalizing comments with
  | nil => exact absurd h not_closed_nil
  | cons line lines ih =>
    rw [piece]
    split
    · case isTrue hc =>
      have hclosed := closed_piece (h.tail hc)
      have hlast : (line :: piece lines).getLast? = (piece lines).getLast? := by
        cases hp : piece lines with
        | nil => exact absurd (hp ▸ hclosed) not_closed_nil
        | cons line' lines' => exact List.getLast?_cons_cons
      rw [entries, if_pos hc, hlast]
      exact ih (h.tail hc) _
    · case isFalse hc =>
      rw [entries, if_neg hc, List.getLast?_singleton]
      by_cases he : line = ""
      · rw [if_pos he, entries]
        exact iff_of_false Nat.zero_ne_one fun hn => hn (congrArg some he)
      · rw [if_neg he, entries]
        exact iff_of_true rfl fun hn => he (Option.some.inj hn)

/-- The samples after closed lines do not depend on them. -/
theorem entries_append {lines : List String} (h : Closed lines) (comments rest : List String) :
    entries comments (lines ++ rest) = entries comments lines ++ entries [] rest := by
  induction lines generalizing comments with
  | nil => exact absurd h not_closed_nil
  | cons line lines ih =>
    rw [List.cons_append, entries, entries]
    split
    · case isTrue hc => exact ih (h.tail hc) _
    · have hrest : entries [] (lines ++ rest) = entries [] lines ++ entries [] rest := by
        cases lines with
        | nil => rfl
        | cons line' lines => exact ih (closed_cons_cons.mp h) []
      rw [hrest]
      split <;> rfl

/-! ## The loop is the packing of the pieces -/

/-- The pieces of a chunk as text. -/
def chunkText (chunk : List (List String)) : String := render chunk.flatten

theorem chunkText_concat (chunk : List (List String)) (p : List String) :
    chunkText (chunk ++ [p]) = chunkText chunk ++ render p := by
  rw [chunkText, List.flatten_concat, render_append]
  rfl

/-- The pieces fit in one message. -/
def Fits (overhead : ℕ) (chunk : List (List String)) : Prop :=
  getsizeof overhead (chunkText chunk) ≤ MAX_SIZE

instance (overhead : ℕ) : DecidablePred (Fits overhead) := fun _ =>
  inferInstanceAs (Decidable (_ ≤ _))

theorem fits_of_append {overhead : ℕ} (chunk chunk' : List (List String))
    (h : Fits overhead (chunk ++ chunk')) : Fits overhead chunk := by
  have hlen : (chunkText (chunk ++ chunk')).length =
      (chunkText chunk).length + (chunkText chunk').length := by
    rw [chunkText, List.flatten_append, render_append, String.length_append]
    rfl
  unfold Fits getsizeof at h ⊢
  omega

theorem newMetric_eq {lines : List String} (h : Closed lines) :
    newMetric lines = .ok (render (piece lines)) := by
  induction lines with
  | nil => exact absurd h not_closed_nil
  | cons line lines ih =>
    rw [newMetric, piece]
    split
    · case isTrue hc =>
      have hc : IsComment line := hc
      rw [if_pos hc, ih (h.tail hc), render_cons]
      rfl
    · case isFalse hc =>
      have hc : ¬IsComment line := hc
      rw [if_neg hc, render_cons]
      exact congrArg Except.ok String.append_empty.symm

theorem chunkText_eq_empty_iff {chunk : List (List String)} (h : ∀ p ∈ chunk, Closed p) :
    chunkText chunk = "" ↔ chunk = [] := by
  rw [chunkText, render_eq_empty_iff]
  cases chunk with
  | nil => exact iff_of_true rfl rfl
  | cons p chunk =>
    refine iff_of_false (fun hflat => ?_) (List.cons_ne_nil _ _)
    rw [List.flatten_cons, List.append_eq_nil_iff] at hflat
    exact not_closed_nil (hflat.1 ▸ h p List.mem_cons_self)

/-- The loop adds the chunks of the packing but the last, which it keeps. -/
theorem divideLines_eq {overhead : ℕ} {lines : List String} (hclosed : lines = [] ∨ Closed lines)
    (devidedMessage : List String) {current : List (List String)}
    (hcurrent : ∀ p ∈ current, Closed p) {sent : List (List (List String))}
    {kept : List (List String)}
    (hpack : pack (Fits overhead) current (pieces lines) = sent ++ [kept]) :
    divideLines overhead lines devidedMessage (chunkText current) =
      .ok (devidedMessage ++ sent.map chunkText, chunkText kept) := by
  induction lines generalizing devidedMessage current sent with
  | nil =>
    rw [pieces, pack, ← List.nil_append [current]] at hpack
    obtain ⟨hsent, hkept⟩ := List.append_inj' hpack rfl
    cases hsent
    cases hkept
    rw [divideLines, List.map_nil, List.append_nil]
    rfl
  | cons line lines ih =>
    have hclosed : Closed (line :: lines) := hclosed.resolve_left (List.cons_ne_nil _ _)
    have htail : lines = [] ∨ Closed lines := by
      cases lines with
      | nil => exact .inl rfl
      | cons line' lines => exact .inr (closed_cons_cons.mp hclosed)
    have hpiece := closed_piece hclosed
    have hfull : (¬Fits overhead (current ++ [piece (line :: lines)]) ∧ current ≠ []) ↔
        getsizeof overhead (chunkText current ++ render (piece (line :: lines))) > MAX_SIZE ∧
          chunkText current ≠ "" := by
      rw [Fits, chunkText_concat, Nat.not_le, ne_eq, ne_eq, chunkText_eq_empty_iff hcurrent]
    have hsingle : render (piece (line :: lines)) = chunkText [piece (line :: lines)] := by
      rw [chunkText, List.flatten_singleton]
    rw [divideLines, newMetric_eq hclosed, except_ok_bind]
    rw [pieces, pack] at hpack
    split
    · case isTrue h =>
      rw [if_pos (hfull.mpr h)] at hpack
      obtain ⟨rest, cut, hcut⟩ : ∃ rest cut, pack (Fits overhead) [piece (line :: lines)] (pieces lines) =
        ([piece (line :: lines)] ++ rest) :: cut := pack_head _ _
      cases sent with
      | nil =>
        rw [hcut] at hpack
        cases hpack
      | cons chunk sent =>
        rw [List.cons_append, List.cons.injEq] at hpack
        rw [hsingle, ih htail _ (List.forall_mem_singleton.mpr hpiece) hpack.2, List.map_cons, ← hpack.1,
          List.append_assoc, List.singleton_append]
    · case isFalse h =>
      rw [if_neg fun hf => h (hfull.mp hf)] at hpack
      rw [← chunkText_concat]
      exact ih htail _ (List.forall_mem_append.mpr
        ⟨hcurrent, List.forall_mem_singleton.mpr hpiece⟩) hpack

/-! ## What the chunks are for their reader -/

/-- When the chunks are the samples of the text: it is sent whole, or what the packing sends before
its last chunk happens to be the samples of the text, none of them in vain too big. -/
def Divides (overhead : ℕ) (text : String) : Prop :=
  getsizeof overhead text < MAX_SIZE ∨
    ∃ sent kept, Packed (Fits overhead) (pieces (Str.split '\n' text)) (sent ++ [kept]) ∧
      sent.flatten.flatMap (entries []) = entriesOf text ∧
      ∀ p, [p] ∈ sent → Fits overhead [p] ∨ p.getLast? ≠ some ""

theorem entriesOf_chunkText {chunk : List (List String)}
    (h : ∀ p ∈ chunk, Closed p ∧ ∀ line ∈ p, '\n' ∉ line.toList) :
    entriesOf (chunkText chunk) = chunk.flatMap (entries []) := by
  have hlines : ∀ line ∈ chunk.flatten, '\n' ∉ line.toList := by
    intro line hline
    obtain ⟨p, hp, hline⟩ := List.mem_flatten.mp hline
    exact (h p hp).2 line hline
  rw [entriesOf, chunkText, split_render hlines]
  clear hlines
  induction chunk with
  | nil => rfl
  | cons p chunk ih =>
    rw [List.flatten_cons, List.append_assoc, entries_append (h p List.mem_cons_self).1,
      ih fun p hp => h p (List.mem_cons_of_mem _ hp), List.flatMap_cons]

/-- A text of whole lines that is not sent whole: what the loop returns is the packing without its
last chunk. -/
theorem divideMessage_eq {overhead : ℕ} {text : String} (htext : EndsLine text)
    (hbig : ¬getsizeof overhead text < MAX_SIZE) :
    ∃ sent kept, Packed (Fits overhead) (pieces (Str.split '\n' text)) (sent ++ [kept]) ∧
      divideMessage overhead text = .ok (sent.map chunkText) := by
  obtain ⟨lines, hsplit⟩ := htext.split
  have hclosed : Closed (lines ++ [""]) := closed_concat (by decide)
  obtain ⟨a, l, hpieces⟩ : ∃ a l, pieces (lines ++ [""]) = a :: l := by
    cases lines with
    | nil => exact ⟨_, _, rfl⟩
    | cons line lines => exact ⟨_, _, rfl⟩
  obtain ⟨sent, kept, hpack⟩ : ∃ sent kept, pack (Fits overhead) [] (a :: l) = sent ++ [kept] := by
    obtain ⟨rest, cut, hcut⟩ : ∃ rest cut, pack (Fits overhead) [] (a :: l) = ([] ++ rest) :: cut :=
      pack_head _ _
    have hne : pack (Fits overhead) [] (a :: l) ≠ [] := hcut ▸ List.cons_ne_nil _ _
    exact ⟨_, _, (List.dropLast_concat_getLast hne).symm⟩
  have hpacked := (pack_eq_iff fits_of_append).mp hpack
  rw [← hpieces] at hpack hpacked
  have hloop := divideLines_eq (.inr hclosed) [] (fun p hp => absurd hp List.not_mem_nil) hpack
  refine ⟨sent, kept, hsplit.symm ▸ hpacked, ?_⟩
  rw [divideMessage, if_neg hbig, hsplit]
  exact congrArg (Except.map Prod.fst) hloop

/-- The chunks of a text that is not sent whole, read by their reader. -/
theorem delivers_iff {overhead : ℕ} {text : String} (htext : EndsLine text)
    {sent : List (List (List String))} {kept : List (List String)}
    (hpacked : Packed (Fits overhead) (pieces (Str.split '\n' text)) (sent ++ [kept])) :
    Delivers overhead text (sent.map chunkText) ↔
      sent.flatten.flatMap (entries []) = entriesOf text ∧
        ∀ p, [p] ∈ sent → Fits overhead [p] ∨ p.getLast? ≠ some "" := by
  obtain ⟨lines, hsplit⟩ := htext.split
  have hclosed : Closed (lines ++ [""]) := closed_concat (by decide)
  have hnewline : ∀ line ∈ lines ++ [""], '\n' ∉ line.toList := fun line hline =>
    Str.not_mem_of_mem_split (hsplit ▸ hline)
  have hpiece : ∀ chunk ∈ sent, ∀ p ∈ chunk, ∃ lines', Closed lines' ∧ p = piece lines' ∧
      ∀ line ∈ lines', line ∈ lines ++ [""] := by
    intro chunk hchunk p hp
    apply mem_pieces hclosed
    rw [← hsplit, ← hpacked.flatten_eq]
    exact List.mem_flatten.mpr ⟨chunk, List.mem_append_left _ hchunk, hp⟩
  have hentries : ∀ chunk ∈ sent, entriesOf (chunkText chunk) = chunk.flatMap (entries []) := by
    intro chunk hchunk
    apply entriesOf_chunkText
    intro p hp
    obtain ⟨lines', hlines', rfl, hmem⟩ := hpiece chunk hchunk p hp
    exact ⟨closed_piece hlines', fun line hline => hnewline line (hmem line (mem_of_mem_piece hline))⟩
  have hall : (sent.map chunkText).flatMap entriesOf = sent.flatten.flatMap (entries []) := by
    clear hpacked hpiece
    induction sent with
    | nil => rfl
    | cons chunk sent ih =>
      rw [List.map_cons, List.flatMap_cons, hentries chunk List.mem_cons_self,
        ih fun chunk hchunk => hentries chunk (List.mem_cons_of_mem _ hchunk), List.flatten_cons,
        List.flatMap_append]
  have hsingle : ∀ p, [p] ∈ sent →
      ((entriesOf (chunkText [p])).length = 1 ↔ p.getLast? ≠ some "") := by
    intro p hp
    obtain ⟨lines', hlines', rfl, -⟩ := hpiece _ hp p List.mem_cons_self
    rw [hentries _ hp, List.flatMap_singleton]
    exact length_entries_piece hlines' []
  constructor
  · intro h
    refine ⟨hall ▸ h.entries_eq, fun p hp => ?_⟩
    rw [← hsingle p hp]
    exact h.size_le _ (List.mem_map_of_mem hp)
  · intro ⟨heq, hfits⟩
    refine ⟨hall.trans heq, fun text htext => ?_⟩
    obtain ⟨chunk, hchunk, rfl⟩ := List.mem_map.mp htext
    rcases hpacked.fits_or_single chunk (List.mem_append_left _ hchunk) with hf | hone
    · exact .inl hf
    · obtain ⟨p, rfl⟩ := List.length_eq_one_iff.mp hone
      exact (hfits p hchunk).imp_right (hsingle p hchunk).mpr

theorem divideMessage_delivers_iff {overhead : ℕ} {text : String} (htext : EndsLine text) :
    (∃ chunks, divideMessage overhead text = .ok chunks ∧ Delivers overhead text chunks) ↔
      Divides overhead text := by
  by_cases hsmall : getsizeof overhead text < MAX_SIZE
  · refine iff_of_true ⟨[text], if_pos hsmall, List.flatMap_singleton _ _, ?_⟩ (.inl hsmall)
    exact List.forall_mem_singleton.mpr (.inl (Nat.le_of_lt hsmall))
  · obtain ⟨sent, kept, hpacked, hdivide⟩ := divideMessage_eq htext hsmall
    rw [hdivide]
    constructor
    · rintro ⟨chunks, hchunks, h⟩
      cases hchunks
      exact .inr ⟨sent, kept, hpacked, (delivers_iff htext hpacked).mp h⟩
    · rintro (hsmall' | ⟨sent', kept', hpacked', h⟩)
      · exact absurd hsmall' hsmall
      · -- there is only one packing
        have hcut : sent ++ [kept] = sent' ++ [kept'] := by
          have hunique := hpacked.unique fits_of_append hpacked'
          exact hunique
        obtain ⟨rfl, -⟩ := List.append_inj' hcut rfl
        exact ⟨_, rfl, (delivers_iff htext hpacked).mpr h⟩

/-- Two metrics, of which the first has a help. -/
def twoMetrics (help : String) : List (Metric ℕ) :=
  [{ name := "a", value := .int 1, help := some help }, { name := "b", value := .int 1 }]

theorem groupMetricsByName_twoMetrics (help : String) : groupMetricsByName (twoMetrics help) =
    .ok [("a", [{ name := "a", value := .int 1, help := some help }]),
      ("b", [{ name := "b", value := .int 1 }])] := by
  have hsorted : sortedBy Metric.name (twoMetrics help) = twoMetrics help := by
    apply sortedBy_eq_self
    simp only [twoMetrics, List.pairwise_pair]
    decide
  rw [groupMetricsByName, hsorted]
  rfl

theorem convert_twoMetrics {help : String} (hne : help ≠ "") (hb : '\\' ∉ help.toList)
    (hn : '\n' ∉ help.toList) :
    convertToPrometheusExpositionFormat toString (twoMetrics help) none none =
      .ok (render ["# HELP a " ++ help, "a 1", "b 1"]) := by
  have htruthy : truthy (some help) = true := decide_eq_true hne
  have hescape : escapeHelp help = help := by
    rw [escapeHelp, Str.replace_eq_self hb, Str.replace_eq_self hn]
  have hmeta : metaLines 0 ({ name := "a", value := .int 1, help := some help } : Metric ℕ) "" =
      (["# HELP a " ++ help ++ "\n"], "") := by
    simp only [metaLines, htruthy, Option.getD_some, hescape]
    rfl
  have hfirst : convertGroup toString none none 0
      ("a", [({ name := "a", value := .int 1, help := some help } : Metric ℕ)]) "" =
        .ok (["# HELP a " ++ help ++ "\n", "a 1\n"], "") := by
    refine convertGroup_ok_iff.mpr ⟨List.forall_mem_singleton.mpr ⟨rfl, rfl⟩, ["a 1\n"], rfl, ?_⟩
    rw [hmeta]
    rfl
  have hsecond : convertGroup toString none none 1
      ("b", [({ name := "b", value := .int 1 } : Metric ℕ)]) "" = .ok (["", "b 1\n"], "") := rfl
  rw [convertToPrometheusExpositionFormat, groupMetricsByName_twoMetrics, except_ok_bind, convertGroups, hfirst,
    except_ok_bind]
  simp only [convertGroups, hsecond, except_ok_bind, except_pure]
  simp [render]
end KafkaStorage

end Wca
