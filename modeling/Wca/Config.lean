import Wca.Py.Exec
import Wca.Py.Str

/-!
# The types of a configuration

A path of a configuration is refused when it leads to a parent directory. The check takes the path
apart from its end with `os.path.split` and stops at the first part that is empty, so it sees nothing
of a path that ends with a slash, nor of `..` alone (`assure_blocks_parent_iff`).
-/

namespace Wca.Config

open Py

structure ValidationError where
  message : String
  deriving DecidableEq

def assureMaxStrLength (value : String) (maxSize : ℕ) : Except ValidationError Unit :=
  if value.length > maxSize then
    .error ⟨"Given str is too long. Max allowed length is " ++ toString maxSize ++ ". Got " ++
      toString value.length⟩
  else .ok ()

def assureAbsolutePath (value : String) : Except ValidationError Unit :=
  if Str.startsWith "/" value then .ok ()
  else .error ⟨"`absolute` option is set to True meaning absolute path is obligatory. Use absolute " ++
    "path or turn off `absolute` option by setting it to False."⟩

/-- `os.access` is a parameter. -/
def assurePermissionPath (access : String → ℕ → Bool) (value : String) (permission : ℕ) :
    Except ValidationError Unit :=
  if access value permission then .ok ()
  else .error ⟨"file does not exist or cannot access to `" ++ value ++ "` with permission `" ++
    toString permission ++ "`"⟩

/-- `os.path.split`: what is after the last slash, and what is before it without the slashes at its
end, unless it has nothing else. -/
def splitPath (p : List Char) : List Char × List Char :=
  let head := p.rdropWhile (· ≠ '/')
  let tail := p.rtakeWhile (· ≠ '/')
  if head.all (· = '/') then (head, tail) else (head.rdropWhile (· = '/'), tail)

theorem length_splitPath {p : List Char} (h : (splitPath p).2 ≠ []) :
    (splitPath p).1.length < p.length := by
  have hp := congrArg List.length (List.rdropWhile_append_rtakeWhile (p := fun c => c ≠ '/') (l := p))
  rw [List.length_append] at hp
  rw [splitPath] at h ⊢
  split at h
  · have htail := List.length_pos_iff.mpr h
    rw [if_pos ‹_›]
    dsimp only at htail ⊢
    omega
  · have htail := List.length_pos_iff.mpr h
    have hhead := ( List.rdropWhile_prefix (fun c => c = '/')
      (p.rdropWhile fun c => c ≠ '/')).length_le
    rw [if_neg ‹_›]
    dsimp only at htail ⊢
    omega

def parentExpression : List Char := ['.', '.']

def parentError : ValidationError :=
  ⟨"You are trying to access parent directory by using '..' expression which is not allowed. Try " ++
    "using absolute path instead."⟩

/-- The loop of `assure_no_parent_directory_access`. -/
def walk (p : List Char) : Except ValidationError Unit :=
  if h : (splitPath p).1 ≠ [] ∧ (splitPath p).2 ≠ [] then
    if parentExpression = (splitPath p).1 ∨ parentExpression = (splitPath p).2 then
      .error parentError
    else walk (splitPath p).1
  else .ok ()
termination_by p.length
decreasing_by exact length_splitPath h.2

def assureNoParentDirectoryAccess (value : String) : Except ValidationError Unit := walk value.toList

/-- What `Path(absolute, max_size, mode)` makes. -/
structure PathType where
  absolute : Bool
  maxSize : ℕ
  mode : Option ℕ

/-- `_PathType.assure`, of a text. -/
def PathType.assure (access : String → ℕ → Bool) (cls : PathType) (value : String) :
    Except ValidationError Unit := do
  assureMaxStrLength value cls.maxSize
  assureNoParentDirectoryAccess value
  doIf (cls.absolute = true) (assureAbsolutePath value)
  match cls.mode with
  | some (mode + 1) => assurePermissionPath access value (mode + 1)
  | _ => pure ()

/-- Some component of a path is `..`. -/
def HasParent (path : String) : Prop := ".." ∈ Str.split '/' path

instance : DecidablePred HasParent := fun _ => inferInstanceAs (Decidable (_ ∈ _))

section Paths

variable {p : List Char}

/-! ### The parts of a path -/

theorem mem_splitOn_self (h : '/' ∉ p) : parentExpression ∈ p.splitOn '/' ↔ parentExpression = p := by
  rw [List.splitOn_eq_singleton h, List.mem_singleton]

theorem mem_splitOn_slashes (n : ℕ) (p : List Char) :
    parentExpression ∈ (List.replicate n '/' ++ p).splitOn '/' ↔
      parentExpression ∈ p.splitOn '/' := by
  induction n with
  | zero => rfl
  | succ n ih =>
    have hsplit := List.splitOn_append_cons_self (a := '/') [] (List.replicate n '/' ++ p)
    rw [List.replicate_succ, List.cons_append, ← List.nil_append ('/' :: _), hsplit,
      List.mem_append, ih, mem_splitOn_self List.not_mem_nil]
    exact or_iff_right (List.cons_ne_nil _ _)

theorem mem_splitOn_append (head : List Char) (n : ℕ) (tail : List Char) :
    parentExpression ∈ (head ++ List.replicate (n + 1) '/' ++ tail).splitOn '/' ↔
      parentExpression ∈ head.splitOn '/' ∨ parentExpression ∈ tail.splitOn '/' := by
  rw [List.append_assoc, List.replicate_succ, List.cons_append, List.splitOn_append_cons_self,
    List.mem_append, mem_splitOn_slashes]

/-- A path is one component, or slashes part the last one from what is before it. -/
theorem splitPath_cases (p : List Char) : '/' ∉ p ∧ splitPath p = ([], p) ∨
    ∃ head n tail, '/' ∉ tail ∧ p = head ++ List.replicate (n + 1) '/' ++ tail ∧
      head.getLast? ≠ some '/' ∧
      splitPath p = (if head = [] then List.replicate (n + 1) '/' else head, tail) := by
  obtain ⟨front, hfront⟩ : ∃ front, front = p.rdropWhile (· ≠ '/') := ⟨_, rfl⟩
  obtain ⟨tail, htail⟩ : ∃ tail, tail = p.rtakeWhile (· ≠ '/') := ⟨_, rfl⟩
  have hp : front ++ tail = p := by rw [hfront, htail, List.rdropWhile_append_rtakeWhile]
  have hnot : '/' ∉ tail := by
    intro hmem
    rw [htail] at hmem
    simpa using List.mem_rtakeWhile_imp hmem
  rw [splitPath, ← hfront, ← htail]
  by_cases hnil : front = []
  · left
    rw [hnil, List.nil_append] at hp
    subst hp
    exact ⟨hnot, by rw [hnil]; rfl⟩
  · right
    have hslashes : front.rtakeWhile (· = '/') =
        List.replicate (front.rtakeWhile (· = '/')).length '/' :=
      List.eq_replicate_iff.mpr ⟨rfl, fun c hc => by simpa using List.mem_rtakeWhile_imp hc⟩
    have hlast : front.getLast hnil = '/' := by
      subst hfront
      simpa using List.rdropWhile_last_not _ p hnil
    have hne : (front.rtakeWhile (· = '/')).length ≠ 0 := by
      rw [Ne, List.length_eq_zero_iff, List.rtakeWhile_eq_nil_iff]
      simp [hnil, hlast]
    obtain ⟨n, hn⟩ := Nat.exists_eq_succ_of_ne_zero hne
    rw [hn] at hslashes
    have hdivided : front.rdropWhile (· = '/') ++ List.replicate (n + 1) '/' = front := by
      rw [← hslashes, List.rdropWhile_append_rtakeWhile]
    refine ⟨front.rdropWhile (· = '/'), n, tail, hnot, by rw [hdivided, hp], ?_, ?_⟩
    · intro hhead
      have hne : front.rdropWhile (· = '/') ≠ [] := by
        intro hnil
        rw [hnil] at hhead
        cases hhead
      have hkept := List.rdropWhile_last_not (fun c => decide (c = '/')) front hne
      exact hkept (decide_eq_true ((List.getLast_eq_iff_getLast?_eq_some hne).mpr hhead))
    · by_cases hall : front.all (· = '/') = true
      · have hhead : front.rdropWhile (· = '/') = [] :=
          List.rdropWhile_eq_nil_iff.mpr (List.all_eq_true.mp hall)
        rw [hhead, List.nil_append] at hdivided
        rw [if_pos hall, if_pos hhead, hdivided]
      · have hhead : front.rdropWhile (· = '/') ≠ [] := fun hhead =>
          hall (List.all_eq_true.mpr (List.rdropWhile_eq_nil_iff.mp hhead))
        rw [if_neg hall, if_neg hhead]

/-- A slash parts the last component from what is before it, and `..` is in the one or the other. -/
theorem splitPath_of_mem (h : '/' ∈ p) : ∃ rest tail, splitPath p = (rest, tail) ∧ rest ≠ [] ∧
    (tail = [] ↔ p.getLast? = some '/') ∧
    (rest.getLast? = some '/' → parentExpression ∉ rest.splitOn '/') ∧
    (parentExpression ∈ p.splitOn '/' ↔
      parentExpression ∈ rest.splitOn '/' ∨ parentExpression = tail) := by
  obtain ⟨hslash, -⟩ | ⟨head, n, tail, htail, hp, hhead, hsplit⟩ := splitPath_cases p
  · exact absurd h hslash
  · have hlast : tail = [] ↔ p.getLast? = some '/' := by
      constructor
      · rintro rfl
        rw [hp, List.append_nil, List.replicate_succ', ← List.append_assoc, List.getLast?_concat]
      · intro hlast
        by_contra hne
        rw [hp, List.getLast?_append_of_ne_nil _ hne] at hlast
        exact htail (List.mem_of_getLast? hlast)
    have hparent : parentExpression ∈ p.splitOn '/' ↔
        parentExpression ∈ head.splitOn '/' ∨ parentExpression = tail := by
      rw [hp, mem_splitOn_append, mem_splitOn_self htail]
    refine ⟨_, tail, hsplit, ?_⟩
    split
    · next hnil =>
      have hslashes : parentExpression ∉ (List.replicate (n + 1) '/').splitOn '/' := by
        have hiff := mem_splitOn_slashes (n + 1) []
        rw [List.append_nil] at hiff
        exact fun hmem => absurd (hiff.mp hmem) (by decide)
      have hnot : parentExpression ∉ head.splitOn '/' := by
        rw [hnil]
        decide
      refine ⟨List.cons_ne_nil _ _, hlast, fun _ => hslashes, ?_⟩
      rw [hparent, or_iff_right hnot, or_iff_right hslashes]
    · next hne => exact ⟨hne, hlast, fun hslash => absurd hslash hhead, hparent⟩

/-! ### The loop -/

theorem walk_of_stop (h : (splitPath p).1 = [] ∨ (splitPath p).2 = []) : walk p = .ok () := by
  rw [walk]
  refine dif_neg fun hgo => ?_
  obtain h | h := h
  · exact hgo.1 h
  · exact hgo.2 h

/-- The loop sees every component, unless it does not begin: at a path without a slash, or with one at
its end. -/
theorem walk_error_iff (p : List Char) : (∃ e, walk p = .error e) ↔
    ('/' ∈ p ∧ p.getLast? ≠ some '/') ∧ parentExpression ∈ p.splitOn '/' := by
  have hok : ¬ ∃ e, (.ok () : Except ValidationError Unit) = .error e := by
    rintro ⟨e, he⟩
    cases he
  obtain ⟨k, hk⟩ : ∃ k, k = p.length := ⟨_, rfl⟩
  induction k using Nat.strong_induction_on generalizing p with
  | _ k ih =>
    by_cases hmem : '/' ∈ p
    · obtain ⟨rest, tail, hsplit, hrest, htail, hslash, hparent⟩ := splitPath_of_mem hmem
      by_cases hlast : p.getLast? = some '/'
      · rw [walk_of_stop (.inr (by rw [hsplit]; exact htail.mpr hlast))]
        exact iff_of_false hok fun h => h.1.2 hlast
      · have hgo : (splitPath p).1 ≠ [] ∧ (splitPath p).2 ≠ [] := by
          rw [hsplit]
          exact ⟨hrest, mt htail.mp hlast⟩
        have hlength : (splitPath p).1.length < p.length := length_splitPath hgo.2
        rw [walk, dif_pos hgo, hparent, and_iff_right ⟨hmem, hlast⟩]
        rw [hsplit] at hlength ⊢
        dsimp only at hlength ⊢
        split
        · next h =>
          refine iff_of_true ⟨_, rfl⟩ (h.imp_left fun he => ?_)
          rw [← he]
          decide
        · next h =>
          rw [not_or] at h
          refine (ih _ (hk ▸ hlength) rest rfl).trans ⟨fun h' => .inl h'.2, fun h' => ?_⟩
          have hin := h'.resolve_right h.2
          refine ⟨⟨not_not.mp fun hnot => h.1 ?_, fun hend => hslash hend hin⟩, hin⟩
          exact (mem_splitOn_self hnot).mp hin
    · have hnot : splitPath p = ([], p) := by
        obtain ⟨-, hsplit⟩ | ⟨head, n, tail, -, rfl, -, -⟩ := splitPath_cases p
        · exact hsplit
        · exact absurd (by simp) hmem
      rw [walk_of_stop (.inl (by rw [hnot]))]
      exact iff_of_false hok fun h => hmem h.1.1

end Paths

theorem hasParent_iff (path : String) :
    HasParent path ↔ parentExpression ∈ path.toList.splitOn '/' := by
  rw [HasParent, Str.split, List.mem_map]
  constructor
  · rintro ⟨cs, hcs, he⟩
    rw [← String.toList_ofList (l := cs), he] at hcs
    exact hcs
  · exact fun hmem => ⟨parentExpression, hmem, rfl⟩

theorem assure_of_length (access : String → ℕ → Bool) {maxSize : ℕ} {path : String}
    (h : path.length ≤ maxSize) :
    PathType.assure access ⟨false, maxSize, none⟩ path = walk path.toList := by
  rw [PathType.assure, assureMaxStrLength, if_neg (Nat.not_lt.mpr h), except_ok_bind,
    assureNoParentDirectoryAccess]
  cases walk path.toList <;> rfl

/-- A path is refused exactly when it has `..` in it, unless it is `..` itself, or has `..` in it and a
slash at its end. -/
theorem assure_blocks_parent_iff (access : String → ℕ → Bool) (maxSize : ℕ) (path : String)
    (h : path.length ≤ maxSize) :
    ((∃ e, PathType.assure access ⟨false, maxSize, none⟩ path = .error e) ↔ HasParent path) ↔
      path ≠ ".." ∧ (Str.endsWith "/" path = true → ¬ HasParent path) := by
  have hends : Str.endsWith "/" path = true ↔ path.toList.getLast? = some '/' := by
    rw [Str.endsWith, List.isSuffixOf_iff_suffix, List.getLast?_eq_some_iff]
    exact ⟨fun ⟨l, hl⟩ => ⟨l, hl.symm⟩, fun ⟨l, hl⟩ => ⟨l, hl.symm⟩⟩
  have hself : path ≠ ".." ↔ parentExpression ≠ path.toList :=
    (String.toList_inj.symm.trans eq_comm).not
  rw [assure_of_length access h, walk_error_iff, hasParent_iff, hends]
  by_cases hmem : '/' ∈ path.toList
  · have hne : path ≠ ".." := by
      rintro rfl
      exact absurd hmem (by decide)
    constructor
    · exact fun hiff => ⟨hne, fun hlast hparent => (hiff.mpr hparent).1.2 hlast⟩
    · exact fun hcond => ⟨fun hraises => hraises.2, fun hparent =>
        ⟨⟨hmem, fun hlast => hcond.2 hlast hparent⟩, hparent⟩⟩
  · have hlast : path.toList.getLast? ≠ some '/' := fun hlast => hmem (List.mem_of_getLast? hlast)
    rw [mem_splitOn_self hmem, hself]
    constructor
    · exact fun hiff => ⟨fun he => hmem (hiff.mpr he).1.1, fun hend => absurd hend hlast⟩
    · exact fun hcond => iff_of_false (fun hraises => hmem hraises.1.1) hcond.1

theorem assure_blocks_parent_iff_absolute :
    ((∃ e, PathType.assure (fun _ _ => true) ⟨false, 400, none⟩ "/etc/../root" = .error e) ↔
        HasParent "/etc/../root") ↔
      "/etc/../root" ≠ ".." ∧ (Str.endsWith "/" "/etc/../root" = true → ¬ HasParent "/etc/../root") :=
  assure_blocks_parent_iff _ 400 "/etc/../root" (by decide)

/-- The same directory with a slash at its end. -/
theorem parent_with_slash_is_accepted :
    ¬ ((∃ e, PathType.assure (fun _ _ => true) ⟨false, 400, none⟩ "/etc/../root/" = .error e) ↔
      HasParent "/etc/../root/") := by
  intro hiff
  obtain ⟨e, he⟩ := hiff.mpr (by decide)
  rw [assure_of_length _ (by decide), walk_of_stop (.inr (by decide))] at he
  cases he

end Wca.Config
