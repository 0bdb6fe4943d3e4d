import Wca.Schemata

/-!
# Rows as text

A line of a schemata file is read when it is a `;`-separated list of `domain=value` items, each
domain once (`parseSchemataFileRow_ok_iff`), and then the row holds the items in their order.
-/

namespace Py.Str

variable {c : Char} {s before after : String}

theorem takeWhile_before (h : c ∉ before.toList) :
    (before ++ String.ofList [c] ++ after).toList.takeWhile (· ≠ c) = before.toList := by
  have hall : ∀ d ∈ before.toList, decide (d ≠ c) = true := fun d hd =>
    decide_eq_true fun he => h (he ▸ hd)
  rw [String.toList_append, String.toList_append, String.toList_ofList, List.append_assoc,
    List.takeWhile_append_of_pos hall]
  simp

theorem beforeFirst_of_not_mem (h : c ∉ before.toList) :
    beforeFirst c (before ++ String.ofList [c] ++ after) = before := by
  rw [beforeFirst, takeWhile_before h, String.ofList_toList]

theorem afterFirst_of_not_mem (h : c ∉ before.toList) :
    afterFirst c (before ++ String.ofList [c] ++ after) = after := by
  have hall : ∀ d ∈ before.toList, decide (d ≠ c) = true := fun d hd =>
    decide_eq_true fun he => h (he ▸ hd)
  have hlist : (before ++ String.ofList [c] ++ after).toList = before.toList ++ c :: after.toList := by
    simp
  have hmem : c ∈ before.toList ++ c :: after.toList :=
    List.mem_append_right _ List.mem_cons_self
  rw [afterFirst, hlist, if_pos hmem, List.dropWhile_append_of_pos hall,
    List.dropWhile_cons_of_neg (by simp), List.tail_cons, String.ofList_toList]

/-- A text with `c` in it is what stands before the first `c`, that `c`, and what stands after. -/
theorem beforeFirst_append_afterFirst (h : c ∈ s.toList) :
    beforeFirst c s ++ String.ofList [c] ++ afterFirst c s = s := by
  apply String.toList_injective
  have hdrop : s.toList.dropWhile (· ≠ c) = c :: (s.toList.dropWhile (· ≠ c)).tail := by
    have hne : s.toList.dropWhile (· ≠ c) ≠ [] := fun hnil =>
      absurd (List.dropWhile_eq_nil_iff.mp hnil c h) (by simp)
    obtain ⟨d, l, hl⟩ := List.exists_cons_of_ne_nil hne
    have hd := List.head_dropWhile_not (· ≠ c) hne
    simp only [hl, List.head_cons, decide_eq_false_iff_not, not_not] at hd
    rw [hl, hd, List.tail_cons]
  rw [afterFirst, if_pos h, beforeFirst, String.toList_append, String.toList_append,
    String.toList_ofList, String.toList_ofList, String.toList_ofList, List.append_assoc,
    List.singleton_append, ← hdrop, List.takeWhile_append_dropWhile]

theorem not_mem_beforeFirst (c : Char) (s : String) : c ∉ (beforeFirst c s).toList := by
  rw [beforeFirst, String.toList_ofList]
  intro h
  exact absurd (List.mem_takeWhile_imp h) (by simp)

end Py.Str

namespace Wca

open Py

/-- A `domain=value` item. -/
def itemText (item : String × String) : String := item.1 ++ "=" ++ item.2

/-- An item that can be told from others: the domain has no `=` in it, and neither part is empty. -/
def LegalItem (item : String × String) : Prop :=
  item.1 ≠ "" ∧ item.2 ≠ "" ∧ '=' ∉ item.1.toList

theorem parseDomain_ok_iff {domains row : Row} {text : String} :
    parseDomain domains text = .ok row ↔ ∃ item, text = itemText item ∧ LegalItem item ∧
      item.1 ∉ domains ∧ row = domains.set item.1 item.2 := by
  unfold parseDomain
  constructor
  · intro h
    split at h
    · cases h
    · split at h
      · cases h
      · case isFalse hsep =>
        dsimp only at h
        split at h
        · cases h
        · split at h
          · cases h
          · split at h
            · cases h
            · case isFalse hid hvalue hnew =>
              cases h
              refine ⟨(Str.beforeFirst '=' text, Str.afterFirst '=' text), ?_,
                ⟨hid, hvalue, Str.not_mem_beforeFirst '=' text⟩, hnew, rfl⟩
              exact (Str.beforeFirst_append_afterFirst (not_not.mp hsep)).symm
  · rintro ⟨item, rfl, ⟨hid, hvalue, hsep⟩, hnew, rfl⟩
    have hbefore : Str.beforeFirst '=' (itemText item) = item.1 := Str.beforeFirst_of_not_mem hsep
    have hafter : Str.afterFirst '=' (itemText item) = item.2 := Str.afterFirst_of_not_mem hsep
    have hmem : '=' ∈ (itemText item).toList := by simp [itemText]
    have hne : itemText item ≠ "" := by
      intro he
      rw [he] at hmem
      exact absurd hmem List.not_mem_nil
    simp only [hbefore, hafter]
    rw [if_neg hne, if_neg (not_not.mpr hmem), if_neg hid, if_neg hvalue, if_neg hnew]

/-- The loop over the items of a line. -/
theorem foldlM_parseDomain_ok_iff {texts : List String} {domains row : Row} :
    texts.foldlM parseDomain domains = .ok row ↔ ∃ items, texts = items.map itemText ∧
      (∀ item ∈ items, LegalItem item) ∧ row.items = domains.items ++ items := by
  induction texts generalizing domains with
  | nil =>
    constructor
    · intro h
      cases h
      exact ⟨[], rfl, fun item hitem => absurd hitem List.not_mem_nil, (List.append_nil _).symm⟩
    · rintro ⟨items, hitems, -, hrow⟩
      rw [List.map_eq_nil_iff.mp hitems.symm, List.append_nil] at hrow
      rw [List.foldlM_nil, Dict.ext hrow, except_pure]
  | cons text texts ih =>
    rw [List.foldlM_cons, except_bind_ok_iff]
    constructor
    · rintro ⟨domains', hdomain, hrest⟩
      obtain ⟨item, rfl, hlegal, hnew, rfl⟩ := parseDomain_ok_iff.mp hdomain
      obtain ⟨items, rfl, hall, hrow⟩ := ih.mp hrest
      refine ⟨item :: items, rfl, List.forall_mem_cons.mpr ⟨hlegal, hall⟩, ?_⟩
      rw [hrow, Dict.items_set_of_not_mem hnew, List.append_assoc]
      rfl
    · rintro ⟨items, htexts, hall, hrow⟩
      cases items with
      | nil => cases htexts
      | cons item items =>
        obtain ⟨rfl, rfl⟩ := List.cons.inj htexts
        have hnew : item.1 ∉ domains.keys := by
          have hkeys := row.nodup
          rw [hrow, List.map_append, List.map_cons] at hkeys
          exact fun hin => (List.nodup_append.mp hkeys).2.2 _ hin _ List.mem_cons_self rfl
        refine ⟨domains.set item.1 item.2,
          parseDomain_ok_iff.mpr ⟨item, rfl, hall item List.mem_cons_self, hnew, rfl⟩,
          ih.mpr ⟨items, rfl, fun i hi => hall i (List.mem_cons_of_mem item hi), ?_⟩⟩
        rw [hrow, Dict.items_set_of_not_mem hnew, List.append_assoc]
        rfl

theorem parseSchemataFileRow_ok_iff {line : String} (h : line ≠ "") {row : Row} :
    parseSchemataFileRow line = .ok row ↔
      Str.split ';' (Str.afterFirst ':' line) = row.items.map itemText ∧
        ∀ item ∈ row.items, LegalItem item := by
  rw [parseSchemataFileRow, if_neg h, foldlM_parseDomain_ok_iff]
  constructor
  · rintro ⟨items, htexts, hall, hrow⟩
    have hitems : row.items = items := hrow
    rw [hitems]
    exact ⟨htexts, hall⟩
  · rintro ⟨htexts, hall⟩
    exact ⟨row.items, htexts, hall, rfl⟩

/-- A line with a resource in front. -/
theorem parse_line_iff {resource rest : String} (h : ':' ∉ resource.toList) {row : Row} :
    parseSchemataFileRow (resource ++ ":" ++ rest) = .ok row ↔
      Str.split ';' rest = row.items.map itemText ∧ ∀ item ∈ row.items, LegalItem item := by
  have hafter : Str.afterFirst ':' (resource ++ ":" ++ rest) = rest := Str.afterFirst_of_not_mem h
  have hne : resource ++ ":" ++ rest ≠ "" := by
    intro he
    have hlist := congrArg String.toList he
    rw [String.toList_append, String.toList_append] at hlist
    exact absurd hlist (by simp)
  rw [parseSchemataFileRow_ok_iff hne, hafter]

/-- A line printed from items is read as them. -/
theorem parse_join {resource : String} {items : List (String × String)}
    (h : ':' ∉ resource.toList) (hne : items ≠ []) (hkeys : (items.map Prod.fst).Nodup)
    (hlegal : ∀ item ∈ items, LegalItem item)
    (hsep : ∀ item ∈ items, ';' ∉ item.1.toList ∧ ';' ∉ item.2.toList) :
    parseSchemataFileRow (resource ++ ":" ++ Str.join ';' (items.map itemText)) =
      .ok ⟨items, hkeys⟩ := by
  refine (parse_line_iff h).mpr ⟨Str.split_join (by simpa using hne) fun text htext => ?_, hlegal⟩
  obtain ⟨item, hitem, rfl⟩ := List.mem_map.mp htext
  obtain ⟨hdomain, hvalue⟩ := hsep item hitem
  rw [itemText, String.toList_append, String.toList_append, List.mem_append, List.mem_append]
  rintro ((hc | hc) | hc)
  · exact hdomain hc
  · exact absurd hc (by decide)
  · exact hvalue hc

/-- What is known of the items of a line that can be read. -/
theorem item_of_parse {resource rest : String} {row : Row} (h : ':' ∉ resource.toList)
    (hparse : parseSchemataFileRow (resource ++ ":" ++ rest) = .ok row) :
    rest = Str.join ';' (row.items.map itemText) ∧ row.items ≠ [] ∧
      ∀ item ∈ row.items, LegalItem item ∧ ';' ∉ item.1.toList ∧ ';' ∉ item.2.toList := by
  obtain ⟨hsplit, hlegal⟩ := (parse_line_iff h).mp hparse
  refine ⟨by rw [← hsplit, Str.join_split], fun hnil => ?_, fun item hitem => ?_⟩
  · rw [hnil] at hsplit
    exact absurd hsplit (by simp [Str.split])
  · have hmem : itemText item ∈ Str.split ';' rest := hsplit ▸ List.mem_map_of_mem hitem
    have hsep := Str.not_mem_of_mem_split hmem
    rw [itemText, String.toList_append, String.toList_append] at hsep
    exact ⟨hlegal item hitem, fun hc => hsep (List.mem_append_left _ (List.mem_append_left _ hc)),
      fun hc => hsep (List.mem_append_right _ hc)⟩

end Wca
