import Wca.Config
import Wca.Py.Dict
import Wca.Py.Num

/-!
# The types of arguments

`assure_type` checks a value that was read from a configuration against the annotation of an argument, and
`_constructor` makes an object of the arguments that pass. A value passes just when it fits the annotation
(`Fits`), as long as no check on the way raises something that is no `ValidationError`, as that of `ip:port`
does without a colon (`Trips`). What is loaded is then well typed at every depth (`WellTyped`).
-/

namespace Wca.Config

open Py

/-! ## Values and annotations -/

inductive Value where
  | none
  | number (n : Number)
  | str (s : String)
  | list (items : List Value)
  | dict (items : List (Value × Value))
  /-- an instance of a registered class, with the arguments it was made with -/
  | object (cls : String) (arguments : List (String × Value))

/-- The classes that annotations name. -/
inductive Cls where
  | NoneType
  | bool
  | int
  | float
  | str
  | list
  | dict
  | object
  | registered (name : String)

/-- What `Url(max_size, supported_schemes, is_path_obligatory)` makes. -/
structure UrlType where
  maxSize : ℕ
  supportedSchemes : List String
  isPathObligatory : Bool

inductive SemanticType where
  | Str (maxSize : ℕ)
  | Numeric (minValue maxValue : Number)
  | Url (cls : UrlType)
  | Path (cls : PathType)
  | IpPort (maxSize : ℕ)

inductive Annotation where
  /-- no annotation -/
  | empty
  | List (item : Annotation)
  | Dict (key value : Annotation)
  /-- `List` or `Dict` without parameters -/
  | bareList
  | bareDict
  /-- any other generic type -/
  | generic (name : String)
  | Union (args : List Annotation)
  /-- an enumeration, with the values of its members -/
  | Enum (values : List String)
  | semantic (type : SemanticType)
  | cls (cls : Cls)
  /-- what is no class, such as `Any` or the name of one -/
  | other

structure ParsedUrl where
  scheme : String
  netloc : String
  path : String

/-- What the checks ask of the rest of Python, and how they print what they refuse. -/
structure Env where
  /-- the classes that a registered class is derived from, itself included -/
  mro : String → List String
  access : String → ℕ → Bool
  urlparse : String → Except Exn ParsedUrl
  /-- `ipaddress.ip_address` returns -/
  ipAddress : String → Bool
  repr : Value → String
  reprType : Value → String
  reprAnnotation : Annotation → String
  reprList : List String → String
  reprErrors : List ValidationError → String
  /-- the registered tags, with commas between them -/
  registeredTags : String

inductive AssureExc where
  | WeakValidationError (e : ValidationError)
  | ValidationError (e : ValidationError)
  | builtin (e : Exn)
  deriving DecidableEq

/-! ## `assure_type` -/

variable (env : Env)

/-- `isinstance`. A truth value is an integer. -/
def isinstance : Value → Cls → Bool
  | _, .object => true
  | .none, .NoneType => true
  | .number (.bool _), .bool => true
  | .number (.bool _), .int => true
  | .number (.int _), .int => true
  | .number (.float _), .float => true
  | .str _, .str => true
  | .list _, .list => true
  | .dict _, .dict => true
  | .object name _, .registered cls => cls ∈ env.mro name
  | _, _ => false

def invalidType (value : Value) (baseTypes : String) : ValidationError :=
  ⟨"Invalid type: " ++ env.reprType value ++ ". Type must be one of the following: " ++ baseTypes⟩

def assureMinNumericValue (value minValue : Number) : Except ValidationError Unit :=
  if value.val.lt minValue.val then
    .error ⟨"Minimum value is " ++ env.repr (.number minValue) ++ ". Got " ++ env.repr (.number value) ++ "."⟩
  else .ok ()

def assureMaxNumericValue (value maxValue : Number) : Except ValidationError Unit :=
  if maxValue.val.lt value.val then
    .error ⟨"Maximum value is " ++ env.repr (.number maxValue) ++ ". Got " ++ env.repr (.number value) ++ "."⟩
  else .ok ()

def UrlType.assureUrl (cls : UrlType) (url : ParsedUrl) : Except ValidationError Unit :=
  if url.scheme ∉ cls.supportedSchemes then
    .error ⟨"Invalid url. Got: " ++ url.scheme ++ ". Use one of supported schemes: " ++
      env.reprList cls.supportedSchemes⟩
  else if url.netloc = "" then .error ⟨"Invalid url. Netloc can't be empty."⟩
  else if cls.isPathObligatory = true ∧ url.path = "" then
    .error ⟨"Invalid url. Path can't be empty when `is_path_obligatory` is set to True."⟩
  else .ok ()

def assureIpFormat (ip : String) : Except ValidationError Unit :=
  if env.ipAddress ip then .ok () else .error ⟨"Given str: '" ++ ip ++ "' is not valid ip address"⟩

def assurePortFormat (port : String) : Except ValidationError Unit :=
  match Str.int 10 port with
  | .ok _ => .ok ()
  | .error _ => .error ⟨"Given str: '" ++ port ++ "' is not valid port value"⟩

/-- What the checks of a text raise. -/
def raising (x : Except ValidationError Unit) : Except AssureExc Unit := x.mapError .ValidationError

/-- `assure` of a text. -/
def SemanticType.assureStr (s : String) : SemanticType → Except AssureExc Unit
  | .Str maxSize => raising (assureMaxStrLength s maxSize)
  | .Url cls => do
    raising (assureMaxStrLength s cls.maxSize)
    let url ← (env.urlparse s).mapError .builtin
    raising (cls.assureUrl env url)
  | .Path cls => raising (cls.assure env.access s)
  | .IpPort maxSize => do
    raising (assureMaxStrLength s maxSize)
    match Str.split ':' s with
    | ip :: port :: _ => do
      raising (assureIpFormat env ip)
      raising (assurePortFormat port)
    | _ => .error (.builtin (.IndexError "list index out of range"))
  | .Numeric _ _ => raising (.error (invalidType env (.str s) "[<class 'int'>, <class 'float'>]"))

def SemanticType.assure (value : Value) (type : SemanticType) : Except AssureExc Unit :=
  match type, value with
  | .Numeric minValue maxValue, .number n => do
    raising (assureMinNumericValue env n minValue)
    raising (assureMaxNumericValue env n maxValue)
  | .Numeric _ _, value => raising (.error (invalidType env value "[<class 'int'>, <class 'float'>]"))
  | type, .str s => type.assureStr env s
  | _, value => raising (.error (invalidType env value "[<class 'str'>]"))

/-- The error of a part, as that of the whole. A weak one is not weak any more. -/
def within (context : String) (x : Except AssureExc Unit) : Except AssureExc Unit :=
  x.mapError fun
    | .WeakValidationError e => .ValidationError ⟨context ++ e.message⟩
    | .ValidationError e => .ValidationError ⟨context ++ e.message⟩
    | .builtin e => .builtin e

mutual

def assureType : Annotation → Value → Except AssureExc Unit
  | .empty, _ => .error (.WeakValidationError ⟨"missing type declaration!"⟩)
  | .List item, value =>
    match value with
    | .list items => forM items.zipIdx fun p =>
      within ("invalid item in list at index " ++ toString p.2 ++ ": ") (assureType item p.1)
    | value => raising (.error ⟨"('expected list-like type %r, but got %r', " ++
      env.reprAnnotation (.List item) ++ ", " ++ env.reprType value ++ ")"⟩)
  | .Dict key type, value =>
    match value with
    | .dict items => forM items fun p => do
      within ("Invalid key=" ++ env.repr p.1 ++ " in dict: ") (assureType key p.1)
      within ("invalid value " ++ env.repr p.2 ++ " in in dict at key " ++ env.repr p.1 ++ ": ")
        (assureType type p.2)
    | value => raising (.error ⟨"expected dict-like type " ++ env.reprAnnotation (.Dict key type) ++
      ", but got " ++ env.reprType value⟩)
  | .bareList, value =>
    match value with
    | .list _ => .error (.builtin (.TypeError "'NoneType' object is not subscriptable"))
    | value => raising (.error ⟨"('expected list-like type %r, but got %r', " ++
      env.reprAnnotation .bareList ++ ", " ++ env.reprType value ++ ")"⟩)
  | .bareDict, value =>
    match value with
    | .dict _ => .error (.builtin (.TypeError "'NoneType' object is not iterable"))
    | value => raising (.error ⟨"expected dict-like type " ++ env.reprAnnotation .bareDict ++
      ", but got " ++ env.reprType value⟩)
  | .generic name, _ => .error (.WeakValidationError ⟨"generic type found " ++
      env.reprAnnotation (.generic name)⟩)
  | .Union args, value => assureUnion args value (env.reprAnnotation (.Union args)) []
  | .Enum values, value =>
    match value with
    | .str s => if s ∈ values then .ok () else
      raising (.error ⟨"improper value from enum kind (got=" ++ env.repr (.str s) ++ " allowed=" ++
        env.reprList values ++ ")!"⟩)
    | value => raising (.error ⟨"improper value from enum kind (got=" ++ env.repr value ++ " allowed=" ++
        env.reprList values ++ ")!"⟩)
  | .semantic type, value => type.assure env value
  | .cls cls, value => if isinstance env value cls then .ok () else
      raising (.error ⟨"improper type (got=" ++ env.reprType value ++ " expected=" ++
        env.reprAnnotation (.cls cls) ++ ")!"⟩)
  | .other, _ => .error (.builtin (.TypeError "issubclass() arg 1 must be a class"))

/-- The loop over the types of a union, with the exceptions raised so far. -/
def assureUnion : List Annotation → Value → String → List ValidationError → Except AssureExc Unit
  | [], value, expected, suberrors => raising (.error ⟨"improper type from union (got=" ++
      env.reprType value ++ " expected=" ++ expected ++ ")! (suberrors=" ++ env.reprErrors suberrors ++ ")"⟩)
  | arg :: args, value, expected, suberrors =>
    match assureType arg value with
    | .error (.WeakValidationError e) => assureUnion args value expected (suberrors ++ [e])
    | .error (.ValidationError e) => assureUnion args value expected (suberrors ++ [e])
    | .error (.builtin e) => .error (.builtin e)
    | .ok () => .ok ()

end

/-! ## Which values fit -/

/-- The text is of the type. -/
def SemanticType.Holds (s : String) : SemanticType → Prop
  | .Str maxSize => s.length ≤ maxSize
  | .Numeric _ _ => False
  | .Url cls => s.length ≤ cls.maxSize ∧ ∃ url, env.urlparse s = .ok url ∧
      url.scheme ∈ cls.supportedSchemes ∧ url.netloc ≠ "" ∧ (cls.isPathObligatory = true → url.path ≠ "")
  | .Path cls => cls.assure env.access s = .ok ()
  | .IpPort maxSize => s.length ≤ maxSize ∧ ∃ ip port rest, Str.split ':' s = ip :: port :: rest ∧
      env.ipAddress ip = true ∧ ∃ n, Str.int 10 port = .ok n

/-- The value is of the annotated type. -/
inductive Fits : Value → Annotation → Prop
  | list {items : List Value} {item : Annotation} (h : ∀ value ∈ items, Fits value item) :
      Fits (.list items) (.List item)
  | dict {items : List (Value × Value)} {key type : Annotation} (hkeys : ∀ p ∈ items, Fits p.1 key)
      (hvalues : ∀ p ∈ items, Fits p.2 type) : Fits (.dict items) (.Dict key type)
  | union {value : Value} {arg : Annotation} {args : List Annotation} (hin : arg ∈ args)
      (h : Fits value arg) : Fits value (.Union args)
  | enum {s : String} {values : List String} (h : s ∈ values) : Fits (.str s) (.Enum values)
  | text {s : String} {type : SemanticType} (h : type.Holds env s) : Fits (.str s) (.semantic type)
  | numeric {n minValue maxValue : Number} (hmin : n.val.lt minValue.val = false)
      (hmax : maxValue.val.lt n.val = false) : Fits (.number n) (.semantic (.Numeric minValue maxValue))
  | cls {value : Value} {cls : Cls} (h : isinstance env value cls = true) : Fits value (.cls cls)

/-- Somewhere in the value there is something whose check raises another exception: a text without a colon
for `ip:port`, a text that `urlparse` raises on, or what is annotated with no type at all. -/
inductive Trips : Value → Annotation → Prop
  | item {items : List Value} {value : Value} {item : Annotation} (hin : value ∈ items)
      (h : Trips value item) : Trips (.list items) (.List item)
  | key {items : List (Value × Value)} {p : Value × Value} {key type : Annotation} (hin : p ∈ items)
      (h : Trips p.1 key) : Trips (.dict items) (.Dict key type)
  | value {items : List (Value × Value)} {p : Value × Value} {key type : Annotation} (hin : p ∈ items)
      (h : Trips p.2 type) : Trips (.dict items) (.Dict key type)
  | union {value : Value} {arg : Annotation} {args : List Annotation} (hin : arg ∈ args)
      (h : Trips value arg) : Trips value (.Union args)
  | port {s : String} {maxSize : ℕ} (hlength : s.length ≤ maxSize) (h : ':' ∉ s.toList) :
      Trips (.str s) (.semantic (.IpPort maxSize))
  | url {s : String} {cls : UrlType} {e : Exn} (hlength : s.length ≤ cls.maxSize)
      (h : env.urlparse s = .error e) : Trips (.str s) (.semantic (.Url cls))
  | bareList {items : List Value} : Trips (.list items) .bareList
  | bareDict {items : List (Value × Value)} : Trips (.dict items) .bareDict
  | other {value : Value} : Trips value .other

/-- What is annotated with nothing that can be checked. -/
inductive Undeclared : Annotation → Prop
  | empty : Undeclared .empty
  | generic {name : String} : Undeclared (.generic name)

/-- A check passes what fits, refuses what does not, and breaks where it may. -/
def Judges (fits weak trips : Prop) : Except AssureExc Unit → Prop
  | .ok () => fits
  | .error (.WeakValidationError _) => ¬ fits ∧ weak
  | .error (.ValidationError _) => ¬ fits
  | .error (.builtin _) => trips

section Judging

variable {env : Env} {fits fits' weak weak' trips trips' : Prop} {x : Except AssureExc Unit}

theorem Judges.congr (h : Judges fits weak trips x) (hfits : fits ↔ fits') (hweak : weak → weak')
    (htrips : trips → trips') : Judges fits' weak' trips' x := by
  match x, h with
  | .ok (), h => exact hfits.mp h
  | .error (.WeakValidationError _), h => exact ⟨fun hf => h.1 (hfits.mpr hf), hweak h.2⟩
  | .error (.ValidationError _), h => exact fun hf => h (hfits.mpr hf)
  | .error (.builtin _), h => exact htrips h

theorem judges_raising {x : Except ValidationError Unit} : Judges (x = .ok ()) weak trips (raising x) := by
  match x with
  | .ok () => exact rfl
  | .error e => exact fun h => (nomatch h)

theorem Judges.within (context : String) (h : Judges fits weak trips x) :
    Judges fits False trips (within context x) := by
  match x, h with
  | .ok (), h => exact h
  | .error (.WeakValidationError _), h => exact h.1
  | .error (.ValidationError _), h => exact h
  | .error (.builtin _), h => exact h

/-- Two checks one after the other. -/
theorem Judges.and {y : Except AssureExc Unit} (hx : Judges fits weak trips x)
    (hy : Judges fits' weak trips' y) :
    Judges (fits ∧ fits') weak (trips ∨ trips') (x >>= fun _ => y) := by
  match x, hx with
  | .ok (), hx => exact hy.congr (iff_and_self.mpr fun _ => hx) id .inr
  | .error (.WeakValidationError _), hx => exact ⟨fun h => hx.1 h.1, hx.2⟩
  | .error (.ValidationError _), hx => exact fun h => hx h.1
  | .error (.builtin _), hx => exact .inl hx

theorem judges_forM {α : Type} {l : List α} {f : α → Except AssureExc Unit} {P T : α → Prop}
    (h : ∀ a ∈ l, Judges (P a) weak (T a) (f a)) :
    Judges (∀ a ∈ l, P a) weak (∃ a ∈ l, T a) (forM l f) := by
  induction l with
  | nil => exact fun a hin => absurd hin List.not_mem_nil
  | cons a l ih =>
    rw [List.forM_cons]
    refine ((h a List.mem_cons_self).and (ih fun b hin => h b (List.mem_cons_of_mem a hin))).congr ?_ id ?_
    · rw [List.forall_mem_cons]
    · rw [List.exists_mem_cons_iff]
      exact id

theorem assureMaxStrLength_ok_iff {s : String} {maxSize : ℕ} :
    assureMaxStrLength s maxSize = .ok () ↔ s.length ≤ maxSize := by
  rw [assureMaxStrLength]
  split
  · exact iff_of_false (by simp) (by omega)
  · exact iff_of_true rfl (by omega)

theorem assureUrl_ok_iff {cls : UrlType} {url : ParsedUrl} : cls.assureUrl env url = .ok () ↔
    url.scheme ∈ cls.supportedSchemes ∧ url.netloc ≠ "" ∧ (cls.isPathObligatory = true → url.path ≠ "") := by
  rw [UrlType.assureUrl]
  by_cases hscheme : url.scheme ∈ cls.supportedSchemes
  · rw [if_neg (not_not.mpr hscheme)]
    by_cases hnetloc : url.netloc = ""
    · rw [if_pos hnetloc]
      exact iff_of_false (fun h => (nomatch h)) fun h => h.2.1 hnetloc
    · rw [if_neg hnetloc]
      by_cases hpath : cls.isPathObligatory = true ∧ url.path = ""
      · rw [if_pos hpath]
        exact iff_of_false (fun h => (nomatch h)) fun h => h.2.2 hpath.1 hpath.2
      · rw [if_neg hpath]
        exact iff_of_true rfl ⟨hscheme, hnetloc, fun hon he => hpath ⟨hon, he⟩⟩
  · rw [if_pos hscheme]
    exact iff_of_false (fun h => (nomatch h)) fun h => hscheme h.1

theorem assureIpFormat_ok_iff {ip : String} : assureIpFormat env ip = .ok () ↔ env.ipAddress ip = true := by
  rw [assureIpFormat]
  split <;> simp [*]

theorem assurePortFormat_ok_iff {port : String} :
    assurePortFormat port = .ok () ↔ ∃ n, Str.int 10 port = .ok n := by
  rw [assurePortFormat]
  split
  · rename_i n hn
    exact iff_of_true rfl ⟨n, hn⟩
  · rename_i e he
    refine iff_of_false (fun h => (nomatch h)) ?_
    rintro ⟨n, hn⟩
    rw [he] at hn
    cases hn

theorem assureMinNumericValue_ok_iff {n minValue : Number} :
    assureMinNumericValue env n minValue = .ok () ↔ n.val.lt minValue.val = false := by
  rw [assureMinNumericValue]
  split <;> simp [*]

theorem assureMaxNumericValue_ok_iff {n maxValue : Number} :
    assureMaxNumericValue env n maxValue = .ok () ↔ maxValue.val.lt n.val = false := by
  rw [assureMaxNumericValue]
  split <;> simp [*]

/-- A part of a check that can only be made if what is before it passed. -/
theorem Judges.and_of {y : Except AssureExc Unit} (hx : Judges fits False False x)
    (hy : fits → Judges fits' False trips y) :
    Judges (fits ∧ fits') False (fits ∧ trips) (x >>= fun _ => y) := by
  match x, hx with
  | .ok (), hx => exact (hy hx).congr (iff_and_self.mpr fun _ => hx) id fun h => ⟨hx, h⟩
  | .error (.ValidationError _), hx => exact fun h => hx h.1

theorem judges_assureStr (type : SemanticType) (s : String) :
    Judges (type.Holds env s) False (Trips env (.str s) (.semantic type)) (type.assureStr env s) := by
  have hraising : ∀ {x : Except ValidationError Unit} {fits trips : Prop}, (x = .ok () ↔ fits) →
      Judges fits False trips (raising x) := fun h => judges_raising.congr h id id
  have hpart : ∀ {x : Except ValidationError Unit} {fits : Prop}, (x = .ok () ↔ fits) →
      Judges fits False False (raising x) := hraising
  have hlength : ∀ maxSize, Judges (s.length ≤ maxSize) False False
      (raising (assureMaxStrLength s maxSize)) :=
    fun _ => hpart assureMaxStrLength_ok_iff
  have hbreaks : ∀ e, Judges False False True (.error (.builtin e)) := fun _ => trivial
  cases type with
  | Str maxSize => exact hraising assureMaxStrLength_ok_iff
  | Numeric minValue maxValue => exact hraising (iff_of_false (fun h => (nomatch h)) id)
  | Path cls => exact hraising Iff.rfl
  | Url cls =>
    rw [SemanticType.assureStr]
    cases hurl : env.urlparse s with
    | error e =>
      refine ((hlength cls.maxSize).and_of fun _ => hbreaks e).congr (iff_of_false (fun h => h.2) ?_) id
        fun h => .url h.1 hurl
      rintro ⟨-, url, h, -⟩
      rw [hurl] at h
      cases h
    | ok url =>
      have hurlOk : Judges _ False False (raising (cls.assureUrl env url)) := hpart assureUrl_ok_iff
      refine ((hlength cls.maxSize).and_of fun _ => hurlOk).congr ?_ id fun h => h.2.elim
      rw [SemanticType.Holds, hurl]
      simp only [Except.ok.injEq, exists_eq_left']
  | IpPort maxSize =>
    rw [SemanticType.assureStr]
    split
    · rename_i ip port rest hsplit
      have hparts : Judges (env.ipAddress ip = true ∧ ∃ n, Str.int 10 port = .ok n) False False
          (do raising (assureIpFormat env ip); raising (assurePortFormat port)) :=
        ((hpart assureIpFormat_ok_iff).and_of fun _ => hpart assurePortFormat_ok_iff).congr
          Iff.rfl id fun h => h.2.elim
      refine ((hlength maxSize).and_of fun _ => hparts).congr ?_ id fun h => h.2.elim
      rw [SemanticType.Holds, hsplit]
      refine and_congr_right fun _ => ⟨fun h => ⟨ip, port, rest, rfl, h⟩, ?_⟩
      rintro ⟨ip', port', rest', he, h⟩
      cases he
      exact h
    · rename_i hsplit
      have hcolon : ':' ∉ s.toList := by
        intro hin
        obtain ⟨front, back, hs⟩ := List.append_of_mem hin
        have hs' : s = String.ofList front ++ String.ofList [':'] ++ String.ofList back :=
          String.toList_injective (by simp [hs])
        have hcut : Str.split ':' s = _ := hs' ▸ Str.split_append_cons ':' (.ofList front) (.ofList back)
        have hne : ∀ t : String, Str.split ':' t ≠ [] := fun t =>
          mt List.map_eq_nil_iff.mp (List.splitOn_ne_nil ':' t.toList)
        obtain ⟨ip, ips, hip⟩ := List.exists_cons_of_ne_nil (hne (.ofList front))
        obtain ⟨port, ports, hport⟩ := List.exists_cons_of_ne_nil (hne (.ofList back))
        rw [hip, hport] at hcut
        cases ips with
        | nil => exact hsplit _ _ _ hcut
        | cons port' rest => exact hsplit _ _ _ hcut
      refine ((hlength maxSize).and_of fun _ => hbreaks _).congr (iff_of_false (fun h => h.2) ?_) id
        fun h => .port h.1 hcolon
      rintro ⟨-, ip, port, rest, he, -⟩
      exact hsplit ip port rest he

theorem judges_assure (type : SemanticType) (value : Value) :
    Judges (Fits env value (.semantic type)) False (Trips env value (.semantic type))
      (type.assure env value) := by
  have hrefuses : ∀ {fits trips : Prop} (e : ValidationError), ¬ fits →
      Judges fits False trips (raising (.error e)) :=
    fun _ h => h
  have hbase : (∀ s, value ≠ .str s) → (∀ n, value ≠ .number n) → ¬ Fits env value (.semantic type) := by
    intro hstr hnumber h
    cases h with
    | text _ => exact hstr _ rfl
    | numeric _ _ => exact hnumber _ rfl
  cases value with
  | str s =>
    have hfits : Fits env (.str s) (.semantic type) ↔ type.Holds env s :=
      ⟨fun h => by cases h; assumption, .text⟩
    cases type with
    | Numeric minValue maxValue => exact hrefuses _ fun h => hfits.mp h
    | _ => exact (judges_assureStr _ s).congr hfits.symm id id
  | number n =>
    cases type with
    | Numeric minValue maxValue =>
      have hmin : Judges (n.val.lt minValue.val = false) False False
        (raising (assureMinNumericValue env n minValue)) :=
        judges_raising.congr assureMinNumericValue_ok_iff id id
      have hmax : Judges (maxValue.val.lt n.val = false) False False
        (raising (assureMaxNumericValue env n maxValue)) :=
        judges_raising.congr assureMaxNumericValue_ok_iff id id
      refine (hmin.and_of fun _ => hmax).congr ⟨fun h => .numeric h.1 h.2, fun h => ?_⟩ id fun h => h.2.elim
      cases h with
      | numeric hmin hmax => exact ⟨hmin, hmax⟩
    | _ => exact hrefuses _ fun h => nomatch h
  | _ =>
    cases type <;> exact hrefuses _ (hbase (fun _ h => nomatch h) fun _ h => nomatch h)

/-- A union passes what one of its types passes, and breaks where one of them breaks before. -/
theorem judges_assureUnion {args : List Annotation} {value : Value}
    (h : ∀ type ∈ args, Judges (Fits env value type) (Undeclared type) (Trips env value type)
      (assureType env type value)) (expected : String) (suberrors : List ValidationError) :
    Judges (∃ type ∈ args, Fits env value type) False (∃ type ∈ args, Trips env value type)
      (assureUnion env args value expected suberrors) := by
  induction args generalizing suberrors with
  | nil =>
    rw [assureUnion]
    exact fun ⟨_, hin, _⟩ => List.not_mem_nil hin
  | cons arg args ih =>
    have harg := h arg List.mem_cons_self
    have hskip : ¬ Fits env value arg → ∀ suberrors, Judges (∃ type ∈ arg :: args, Fits env value type) False
        (∃ type ∈ arg :: args, Trips env value type) (assureUnion env args value expected suberrors) := by
      intro hnot suberrors
      refine (ih (fun type hin => h type (List.mem_cons_of_mem _ hin)) suberrors).congr ?_ id ?_
      · rw [List.exists_mem_cons_iff, or_iff_right hnot]
      · rw [List.exists_mem_cons_iff]
        exact .inr
    rw [assureUnion]
    generalize assureType env arg value = x at harg
    match x, harg with
    | .ok (), harg => exact ⟨arg, List.mem_cons_self, harg⟩
    | .error (.WeakValidationError _), harg => exact hskip harg.1 _
    | .error (.ValidationError _), harg => exact hskip harg _
    | .error (.builtin _), harg => exact ⟨arg, List.mem_cons_self, harg⟩

mutual

/-- By induction on the annotation. -/
theorem judges_assureType (env : Env) : ∀ (type : Annotation) (value : Value),
    Judges (Fits env value type) (Undeclared type) (Trips env value type) (assureType env type value)
  | .empty, value => by
    rw [assureType]
    exact ⟨fun h => (nomatch h), .empty⟩
  | .List item, value => by
    have hitem := judges_assureType env item
    cases value with
    | list items =>
      rw [assureType]
      refine (judges_forM (l := items.zipIdx) fun p _ => (hitem p.1).within _).congr ?_ False.elim ?_
      · constructor
        · intro h
          refine .list fun value hin => ?_
          obtain ⟨i, hi⟩ := List.mem_iff_getElem?.mp hin
          exact h (value, i) (List.mem_zipIdx_iff_getElem?.mpr hi)
        · intro h p hin
          cases h with
          | list h => exact h p.1 (List.mem_of_getElem? (List.mem_zipIdx_iff_getElem?.mp hin))
      · rintro ⟨p, hin, htrips⟩
        exact .item (List.mem_of_getElem? (List.mem_zipIdx_iff_getElem?.mp hin)) htrips
    | _ =>
      rw [assureType]
      · exact fun h => (nomatch h)
      · exact fun _ h => (nomatch h)
  | .Dict key type, value => by
    have hkey := judges_assureType env key
    have htype := judges_assureType env type
    cases value with
    | dict items =>
      rw [assureType]
      refine (judges_forM (l := items) fun p _ => ((hkey p.1).within _).and ((htype p.2).within _)).congr ?_
        False.elim ?_
      · constructor
        · exact fun h => .dict (fun p hin => (h p hin).1) fun p hin => (h p hin).2
        · intro h p hin
          cases h with
          | dict hkeys hvalues => exact ⟨hkeys p hin, hvalues p hin⟩
      · rintro ⟨p, hin, htrips | htrips⟩
        · exact .key hin htrips
        · exact .value hin htrips
    | _ =>
      rw [assureType]
      · exact fun h => (nomatch h)
      · exact fun _ h => (nomatch h)
  | .bareList, value => by
    cases value with
    | list items =>
      rw [assureType]
      exact .bareList
    | _ =>
      rw [assureType]
      · exact fun h => (nomatch h)
      · exact fun _ h => (nomatch h)
  | .bareDict, value => by
    cases value with
    | dict items =>
      rw [assureType]
      exact .bareDict
    | _ =>
      rw [assureType]
      · exact fun h => (nomatch h)
      · exact fun _ h => (nomatch h)
  | .generic name, value => by
    rw [assureType]
    exact ⟨fun h => (nomatch h), .generic⟩
  | .Union args, value => by
    have hargs := judges_args env args value
    rw [assureType]
    refine (judges_assureUnion hargs _ []).congr ⟨fun ⟨type, hin, h⟩ => .union hin h, fun h => ?_⟩ False.elim
      fun ⟨type, hin, h⟩ => .union hin h
    cases h with
    | union hin h => exact ⟨_, hin, h⟩
  | .Enum values, value => by
    cases value with
    | str s =>
      rw [assureType]
      split
      · rename_i hin
        exact .enum hin
      · rename_i hnot
        intro h
        cases h with
        | enum hin => exact hnot hin
    | _ =>
      rw [assureType]
      · exact fun h => (nomatch h)
      · exact fun _ h => (nomatch h)
  | .semantic type, value => by
    rw [assureType]
    exact (judges_assure type value).congr Iff.rfl False.elim id
  | .cls cls, value => by
    rw [assureType]
    split
    · rename_i h
      exact .cls h
    · rename_i hnot
      intro h
      cases h with
      | cls h => exact hnot h
  | .other, value => by
    rw [assureType]
    exact .other

theorem judges_args (env : Env) : ∀ (args : List Annotation) (value : Value), ∀ type ∈ args,
    Judges (Fits env value type) (Undeclared type) (Trips env value type) (assureType env type value)
  | [], _ => fun _ hin => absurd hin List.not_mem_nil
  | arg :: args, value =>
    List.forall_mem_cons.mpr ⟨judges_assureType env arg value, judges_args env args value⟩

end

end Judging

/-- The second type of the union is never tried. -/
example (env : Env) : assureType env (.Union [.semantic (.IpPort 400), .cls .str]) (.str "localhost") =
    .error (.builtin (.IndexError "list index out of range")) := rfl

/-! ## Objects -/

structure Parameter where
  name : String
  annotation : Annotation

inductive InitExc where
  | TypeError
  | other (message : String)

/-- A registered class. What its `__init__` does with the arguments is a parameter. -/
structure ClassSpec where
  name : String
  strictMode : Bool
  parameters : List Parameter
  signature : String
  init : Dict String Value → Except InitExc Unit

inductive LoadExc where
  | ConfigLoadError (message : String)
  | builtin (e : Exn)
  deriving DecidableEq

/-- What YAML has read of a configuration. -/
inductive YamlNode where
  | null
  | number (n : Number)
  | str (s : String)
  | seq (items : List YamlNode)
  | mapping (items : List (YamlNode × YamlNode))
  /-- a node with the tag of a class, with the mark of where it is -/
  | tagged (tag mark : String) (arguments : List (String × YamlNode))

/-- An argument is checked if it is there. A weak error is only logged unless the mode is strict. -/
def ClassSpec.checkArgument (cls : ClassSpec) (mark : String) (arguments : Dict String Value)
    (parameter : Parameter) : Except LoadExc Unit :=
  match arguments.get? parameter.name with
  | none => .ok ()
  | some value =>
    let invalid := fun (e : ValidationError) => LoadExc.ConfigLoadError ("Invalid value " ++ env.repr value ++
      mark ++ " for field " ++ env.repr (.str parameter.name) ++ " in class " ++ env.repr (.str cls.name) ++
      ": " ++ e.message)
    match assureType env parameter.annotation value with
    | .ok () => .ok ()
    | .error (.WeakValidationError e) => if cls.strictMode then .error (invalid e) else .ok ()
    | .error (.ValidationError e) => .error (invalid e)
    | .error (.builtin e) => .error (.builtin e)

/-- `_constructor`, with the arguments that are below the node. -/
def ClassSpec.constructor (cls : ClassSpec) (mark : String) (arguments : Dict String Value) :
    Except LoadExc Value := do
  forM cls.parameters (cls.checkArgument env mark arguments)
  let cannot := "Cannot instantiate " ++ env.repr (.str cls.name) ++ mark ++ " with arguments=" ++
    env.repr (.dict (arguments.items.map fun p => (.str p.1, p.2)))
  match cls.init arguments with
  | .ok () => .ok (.object cls.name arguments.items)
  | .error .TypeError => .error (.ConfigLoadError (cannot ++
      " (constructor signature is: " ++ cls.signature ++ ")"))
  | .error (.other e) => .error (.ConfigLoadError (cannot ++ "(unexpected error=" ++ e ++
      "! run --log=debug for details)"))

variable (registry : String → Option ClassSpec)

mutual

/-- The value of a node. The objects below a tagged node are made first, as `construct_mapping` does with
`deep`; a tag that is not registered is reported by `_parse`. -/
def construct : YamlNode → Except LoadExc Value
  | .null => .ok .none
  | .number n => .ok (.number n)
  | .str s => .ok (.str s)
  | .seq items => .list <$> constructItems items
  | .mapping items => .dict <$> constructMapping items
  | .tagged tag mark arguments => do
    match registry tag with
    | none => .error (.ConfigLoadError ("could not determine a constructor for the tag " ++
        env.repr (.str tag) ++ " " ++ mark ++ ". Available tags are: " ++ env.registeredTags))
    | some cls =>
      let arguments ← constructArguments arguments
      cls.constructor env mark (Dict.ofItems arguments)

def constructItems : List YamlNode → Except LoadExc (List Value)
  | [] => .ok []
  | node :: nodes => do
    let value ← construct node
    let values ← constructItems nodes
    pure (value :: values)

def constructMapping : List (YamlNode × YamlNode) → Except LoadExc (List (Value × Value))
  | [] => .ok []
  | (key, node) :: items => do
    let key ← construct key
    let value ← construct node
    let values ← constructMapping items
    pure ((key, value) :: values)

def constructArguments : List (String × YamlNode) → Except LoadExc (List (String × Value))
  | [] => .ok []
  | (name, node) :: arguments => do
    let value ← construct node
    let values ← constructArguments arguments
    pure ((name, value) :: values)

end

/-- Every object in the value has arguments of the annotated types, and is initialised with them. -/
inductive WellTyped : Value → Prop
  | none : WellTyped .none
  | number {n : Number} : WellTyped (.number n)
  | str {s : String} : WellTyped (.str s)
  | list {items : List Value} (h : ∀ value ∈ items, WellTyped value) : WellTyped (.list items)
  | dict {items : List (Value × Value)} (hkeys : ∀ p ∈ items, WellTyped p.1)
      (hvalues : ∀ p ∈ items, WellTyped p.2) : WellTyped (.dict items)
  | object {tag : String} {cls : ClassSpec} {arguments : Dict String Value} (hcls : registry tag = some cls)
      (hfits : ∀ parameter ∈ cls.parameters, ∀ value, arguments.get? parameter.name = some value →
        Fits env value parameter.annotation ∨ cls.strictMode = false ∧ Undeclared parameter.annotation)
      (hinit : cls.init arguments = .ok ()) (h : ∀ p ∈ arguments.items, WellTyped p.2) :
      WellTyped (.object cls.name arguments.items)

/-- Some class has an argument whose check raises another exception on some value. -/
def Stumbles : Prop :=
  ∃ tag cls parameter value, registry tag = some cls ∧ parameter ∈ cls.parameters ∧
    Trips env value parameter.annotation

section Loading

variable {env : Env} {registry : String → Option ClassSpec} {α β : Type} {P : α → Prop} {Q : β → Prop}

variable (env registry) in
/-- What is loaded is good, and what is not loaded is reported as an error of the configuration, unless
the check of an argument raises another exception. -/
def Loads (P : α → Prop) : Except LoadExc α → Prop
  | .ok a => P a
  | .error (.ConfigLoadError _) => True
  | .error (.builtin _) => Stumbles env registry

theorem Loads.bind {x : Except LoadExc α} {f : α → Except LoadExc β} (hx : Loads env registry P x)
    (hf : ∀ a, P a → Loads env registry Q (f a)) : Loads env registry Q (x >>= f) := by
  match x, hx with
  | .ok a, hx => exact hf a hx
  | .error (.ConfigLoadError _), _ => exact trivial
  | .error (.builtin _), hx => exact hx

theorem Loads.map {x : Except LoadExc α} {f : α → β} (hx : Loads env registry P x) (hf : ∀ a, P a → Q (f a)) :
    Loads env registry Q (f <$> x) := by
  match x, hx with
  | .ok a, hx => exact hf a hx
  | .error (.ConfigLoadError _), _ => exact trivial
  | .error (.builtin _), hx => exact hx

theorem Loads.mono {P' : α → Prop} {x : Except LoadExc α} (hx : Loads env registry P x)
    (h : ∀ a, P a → P' a) :
    Loads env registry P' x := by
  match x, hx with
  | .ok a, hx => exact h a hx
  | .error (.ConfigLoadError _), _ => exact trivial
  | .error (.builtin _), hx => exact hx

theorem loads_forM {l : List α} {f : α → Except LoadExc Unit}
    (h : ∀ a ∈ l, Loads env registry (fun _ => P a) (f a)) :
    Loads env registry (fun _ => ∀ a ∈ l, P a) (forM l f) := by
  induction l with
  | nil => exact fun a hin => absurd hin List.not_mem_nil
  | cons a l ih =>
    rw [List.forM_cons]
    refine (h a List.mem_cons_self).bind fun _ ha => ?_
    exact (ih fun b hin => h b (List.mem_cons_of_mem a hin)).mono fun _ hl =>
      List.forall_mem_cons.mpr ⟨ha, hl⟩

variable {tag : String} {cls : ClassSpec} {arguments : Dict String Value}

theorem loads_checkArgument (hcls : registry tag = some cls) {parameter : Parameter}
    (hin : parameter ∈ cls.parameters) (mark : String) :
    Loads env registry (fun _ => ∀ value, arguments.get? parameter.name = some value →
      Fits env value parameter.annotation ∨ cls.strictMode = false ∧ Undeclared parameter.annotation)
      (cls.checkArgument env mark arguments parameter) := by
  rw [ClassSpec.checkArgument]
  split
  · rename_i hnone
    intro value hvalue
    rw [hnone] at hvalue
    cases hvalue
  · rename_i value hvalue
    have h := judges_assureType env parameter.annotation value
    have hall : ∀ {Q : Value → Prop}, Q value →
      ∀ value', arguments.get? parameter.name = some value' → Q value' := by
      intro Q hq value' hvalue'
      rw [hvalue] at hvalue'
      cases hvalue'
      exact hq
    dsimp only
    generalize assureType env parameter.annotation value = x at h
    cases x with
    | ok u => exact hall (.inl h)
    | error e =>
      cases e with
      | WeakValidationError e =>
        dsimp only
        split
        · exact trivial
        · rename_i hmode
          exact hall (.inr ⟨Bool.eq_false_iff.mpr hmode, h.2⟩)
      | ValidationError e => exact trivial
      | builtin e => exact ⟨tag, cls, parameter, value, hcls, hin, h⟩

/-- An object that is made is well typed if its arguments are. -/
theorem loads_constructor (hcls : registry tag = some cls)
    (harguments : ∀ p ∈ arguments.items, WellTyped env registry p.2)
    (mark : String) : Loads env registry (WellTyped env registry) (cls.constructor env mark arguments) := by
  rw [ClassSpec.constructor]
  refine (loads_forM fun parameter hin => loads_checkArgument hcls hin mark).bind fun _ hfits => ?_
  dsimp only
  split
  · rename_i hinit
    exact .object hcls hfits hinit harguments
  · exact trivial
  · exact trivial

mutual

theorem loads_construct (env : Env) (registry : String → Option ClassSpec) : ∀ node : YamlNode,
    Loads env registry (WellTyped env registry) (construct env registry node)
  | .null => by
    rw [construct]
    exact .none
  | .number n => by
    rw [construct]
    exact .number
  | .str s => by
    rw [construct]
    exact .str
  | .seq items => by
    rw [construct]
    exact (loads_items env registry items).map fun _ h => .list h
  | .mapping items => by
    rw [construct]
    exact (loads_mapping env registry items).map fun _ h =>
      .dict (fun p hin => (h p hin).1) fun p hin => (h p hin).2
  | .tagged tag mark arguments => by
    rw [construct]
    cases hcls : registry tag with
    | none => exact trivial
    | some cls =>
      refine (loads_arguments env registry arguments).bind fun values hvalues => ?_
      exact loads_constructor hcls (fun p hin => hvalues p
        (Dict.mem_of_get?_ofItems (Dict.get?_eq_some_iff.mpr hin))) mark

theorem loads_items (env : Env) (registry : String → Option ClassSpec) : ∀ items : List YamlNode,
    Loads env registry (fun values => ∀ value ∈ values, WellTyped env registry value)
      (constructItems env registry items)
  | [] => by
    rw [constructItems]
    exact fun _ hin => absurd hin List.not_mem_nil
  | node :: nodes => by
    rw [constructItems]
    refine (loads_construct env registry node).bind fun value hvalue => ?_
    exact (loads_items env registry nodes).bind fun values hvalues =>
      List.forall_mem_cons.mpr ⟨hvalue, hvalues⟩

theorem loads_mapping (env : Env) (registry : String → Option ClassSpec) :
    ∀ items : List (YamlNode × YamlNode),
    Loads env registry (fun values => ∀ p ∈ values, WellTyped env registry p.1 ∧ WellTyped env registry p.2)
      (constructMapping env registry items)
  | [] => by
    rw [constructMapping]
    exact fun _ hin => absurd hin List.not_mem_nil
  | (key, node) :: items => by
    rw [constructMapping]
    refine (loads_construct env registry key).bind fun key hkey => ?_
    refine (loads_construct env registry node).bind fun value hvalue => ?_
    exact (loads_mapping env registry items).bind fun values hvalues =>
      List.forall_mem_cons.mpr ⟨⟨hkey, hvalue⟩, hvalues⟩

theorem loads_arguments (env : Env) (registry : String → Option ClassSpec) :
    ∀ arguments : List (String × YamlNode),
    Loads env registry (fun values => ∀ p ∈ values, WellTyped env registry p.2)
      (constructArguments env registry arguments)
  | [] => by
    rw [constructArguments]
    exact fun _ hin => absurd hin List.not_mem_nil
  | (name, node) :: arguments => by
    rw [constructArguments]
    refine (loads_construct env registry node).bind fun value hvalue => ?_
    exact (loads_arguments env registry arguments).bind fun values hvalues =>
      List.forall_mem_cons.mpr ⟨hvalue, hvalues⟩

end

end Loading

end Wca.Config
