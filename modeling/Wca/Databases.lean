import Wca.Py.Base64
import Wca.Py.Dict
import Wca.Py.Exec

/-!
# Values kept in etcd

`EtcdDatabase` sends a request to one host after the other until one does not time out. A put that timed
out may still have been carried out, or be so at any time later, so a host that answers does not end what
was sent to the others. `Runs` has all the ways in which calls and late puts can follow each other, and
`held` says what a key may hold after them; a get returns nothing else (`runs_consistent`).
-/

namespace Wca.Databases

open Py

inductive DbExc where
  | InvalidKey (msg : String)
  | TimeoutOnAllHosts (msg : String)
  /-- any exception of `requests` but `Timeout` -/
  | RequestException (msg : String)
  | builtin (e : Exn)
  deriving DecidableEq

def VALID_FILENAME_CHARACTERS : Bytes :=
  "-_.abcdefghijklmnopqrstuvwxyzABCDEFGHIJKLMNOPQRSTUVWXYZ0123456789".toList.map fun c => .ofNat c.toNat

def validateKey (key : Bytes) : Except DbExc Unit :=
  if ¬ (0 < key.length ∧ key.length ≤ 255) then .error (.InvalidKey "Max key length is 255 bytes")
  else forM key fun character =>
    if character ∉ VALID_FILENAME_CHARACTERS then .error (.InvalidKey "") else .ok ()

/-- A valid key, as it is printed. -/
def reprKey (key : Bytes) : String := "b'" ++ .ofList (key.map fun byte => .ofNat byte.toNat) ++ "'"

/-! ## The cluster -/

/-- What becomes of a request to a host. When no answer comes it may have been carried out or not. -/
inductive Fate where
  | answered
  | timesOut (carriedOut : Bool)
  | fails (msg : String) (carriedOut : Bool)
  deriving DecidableEq

/-- Keys and values are kept as the texts they are sent as. -/
structure Cluster where
  store : Dict String String
  /-- puts that no answer came for and that were not carried out yet -/
  inFlight : List (String × String)
  deriving DecidableEq

/-- `/kv/put` and `/kv/range`. -/
inductive Request where
  | put (key value : String)
  | range (key : String)

namespace Request

def carryOut : Request → Cluster → Cluster
  | .put key value, c => { c with store := c.store.set key value }
  | .range _, c => c

def delay : Request → Cluster → Cluster
  | .put key value, c => { c with inFlight := c.inFlight ++ [(key, value)] }
  | .range _, c => c

/-- The value in the answer. -/
def answer : Request → Cluster → Option String
  | .put _ _, _ => none
  | .range key, c => c.store.get? key

def miss (request : Request) (carriedOut : Bool) (c : Cluster) : Cluster :=
  if carriedOut then request.carryOut c else request.delay c

/-- `_send`, with what becomes of the request to each of the hosts. -/
def send (request : Request) : List Fate → EStateM DbExc Cluster (Option (Option String))
  | [] => pure none
  | .answered :: _ => do
    modify request.carryOut
    let c ← get
    pure (some (request.answer c))
  | .timesOut carriedOut :: fates => do
    modify (request.miss carriedOut)
    send request fates
  | .fails msg carriedOut :: _ => do
    modify (request.miss carriedOut)
    throw (.RequestException msg)

end Request

namespace EtcdDatabase

def set (key value : Bytes) (fates : List Fate) : EStateM DbExc Cluster Unit := do
  Py.liftExcept (validateKey key)
  match ← (Request.put (b64encode key) (b64encode value)).send fates with
  | none => throw (.TimeoutOnAllHosts ("EtcdDatabase: Cannot put key \"" ++ reprKey key ++
      "\": Timeout on all hosts!"))
  | some _ => pure ()

/-- The value in an answer. An empty one is left out of it. -/
def readAnswer (answer : Option String) : Except DbExc (Option Bytes) :=
  match answer with
  | none => .ok none
  | some value => if value = "" then .ok none else (some <$> b64decode value).mapError .builtin

def get (key : Bytes) (fates : List Fate) : EStateM DbExc Cluster (Option Bytes) := do
  Py.liftExcept (validateKey key)
  match ← (Request.range (b64encode key)).send fates with
  | none => throw (.TimeoutOnAllHosts ("EtcdDatabase: Cannot get key \"" ++ reprKey key ++
      "\": Timeout on all hosts!"))
  | some answer => Py.liftExcept (readAnswer answer)

end EtcdDatabase

/-! ## Runs -/

/-- What is seen of a run: calls that returned, sets that raised, and puts that were carried out late. -/
inductive Event where
  | set (key value : Bytes)
  | tries (key value : Bytes)
  | get (key : Bytes) (result : Option Bytes)
  | late (key value : Bytes)

/-- The clusters that calls lead to, when puts that no answer came for are carried out at any time, or
never. -/
inductive Runs : List Event → Cluster → Prop
  | start : Runs [] ⟨∅, []⟩
  | set {es : List Event} {c c' : Cluster} {key value : Bytes} {fates : List Fate} (hrun : Runs es c)
      (h : (EtcdDatabase.set key value fates).run c = .ok () c') : Runs (es ++ [.set key value]) c'
  | tries {es : List Event} {c c' : Cluster} {key value : Bytes} {fates : List Fate} {e : DbExc}
      (hrun : Runs es c) (h : (EtcdDatabase.set key value fates).run c = .error e c') :
      Runs (es ++ [.tries key value]) c'
  | get {es : List Event} {c c' : Cluster} {key : Bytes} {fates : List Fate} {result : Option Bytes}
      (hrun : Runs es c) (h : (EtcdDatabase.get key fates).run c = .ok result c') :
      Runs (es ++ [.get key result]) c'
  | raises {es : List Event} {c c' : Cluster} {key : Bytes} {fates : List Fate} {e : DbExc}
      (hrun : Runs es c) (h : (EtcdDatabase.get key fates).run c = .error e c') : Runs es c'
  | late {es : List Event} {c : Cluster} {key value : Bytes} (hrun : Runs es c)
      (hin : (b64encode key, b64encode value) ∈ c.inFlight) :
      Runs (es ++ [.late key value]) {
        store := c.store.set (b64encode key) (b64encode value)
        inFlight := c.inFlight.erase (b64encode key, b64encode value) }
  | lost {es : List Event} {c : Cluster} {p : String × String} (hrun : Runs es c) :
      Runs es { c with inFlight := c.inFlight.erase p }

/-- What a key may hold after an event. -/
def Event.after (key : Bytes) (held : Set (Option Bytes)) : Event → Set (Option Bytes)
  | .set k value => if k = key then {some value} else held
  | .tries k value => if k = key then insert (some value) held else held
  | .get _ _ => held
  | .late k value => if k = key then {some value} else held

/-- What a key may hold after all of them: the last value that a set returned for or that was put late, or
one that a set raised for since. -/
def held (key : Bytes) (es : List Event) : Set (Option Bytes) := es.foldl (Event.after key) {none}

/-- An empty value is not told from none. -/
def shown : Option Bytes → Option Bytes
  | some [] => none
  | value => value

/-! ## What a call does to the cluster -/

/-- Values are left as they are but for one key, which may have got one value, and so may puts in flight. -/
structure Puts (key value : String) (c c' : Cluster) : Prop where
  store : ∀ k, c'.store.get? k = c.store.get? k ∨ k = key ∧ c'.store.get? k = some value
  inFlight : ∀ p ∈ c'.inFlight, p ∈ c.inFlight ∨ p = (key, value)

namespace Puts

variable {key value : String} {c c' c'' : Cluster}

theorem refl (c : Cluster) : Puts key value c c := ⟨fun _ => .inl rfl, fun _ => .inl⟩

theorem trans (h : Puts key value c c') (h' : Puts key value c' c'') : Puts key value c c'' := by
  refine ⟨fun k => ?_, fun p hp => ?_⟩
  · obtain hk | hk := h'.store k
    · rw [hk]
      exact h.store k
    · exact .inr hk
  · obtain hp | hp := h'.inFlight p hp
    · exact h.inFlight p hp
    · exact .inr hp

theorem carryOut (c : Cluster) : Puts key value c ((Request.put key value).carryOut c) := by
  refine ⟨fun k => ?_, fun p => .inl⟩
  by_cases hk : k = key
  · exact .inr ⟨hk, by rw [hk]; exact Dict.get?_set_self⟩
  · exact .inl (Dict.get?_set_of_ne hk)

theorem miss (carriedOut : Bool) (c : Cluster) :
    Puts key value c ((Request.put key value).miss carriedOut c) := by
  rw [Request.miss]
  split
  · exact carryOut c
  · refine ⟨fun _ => .inl rfl, fun p hp => ?_⟩
    obtain hp | hp := List.mem_append.mp hp
    · exact .inl hp
    · exact .inr (List.mem_singleton.mp hp)

end Puts

section Calls

variable {key value : Bytes} {fates : List Fate} {c c' : Cluster}

theorem send_put_wp (key value : String) (fates : List Fate) (c : Cluster) :
    wp ((Request.put key value).send fates)
      (fun answer c' => Puts key value c c' ∧ (answer ≠ none → c'.store.get? key = some value))
      (fun _ c' => Puts key value c c') c := by
  induction fates generalizing c with
  | nil => exact wp_pure.mpr ⟨.refl c, fun h => absurd rfl h⟩
  | cons fate fates ih =>
    cases fate with
    | answered =>
      rw [Request.send, wp_bind, wp_modify, wp_bind, wp_get, wp_pure]
      exact ⟨.carryOut c, fun _ => Dict.get?_set_self⟩
    | timesOut carriedOut =>
      rw [Request.send, wp_bind, wp_modify]
      have hmiss : Puts key value c _ := .miss carriedOut c
      exact (ih _).mono (fun _ _ h => ⟨hmiss.trans h.1, h.2⟩) fun _ _ h => hmiss.trans h
    | fails msg carriedOut =>
      rw [Request.send, wp_bind, wp_modify, wp_throw]
      exact .miss carriedOut c

theorem send_range_wp (key : String) (fates : List Fate) (c : Cluster) :
    wp ((Request.range key).send fates) (fun answer c' => c' = c ∧ ∀ value ∈ answer, value = c.store.get? key)
      (fun _ c' => c' = c) c := by
  have hmiss : ∀ carriedOut, (Request.range key).miss carriedOut c = c := fun carriedOut => by
    cases carriedOut <;> rfl
  induction fates with
  | nil => exact wp_pure.mpr ⟨rfl, fun _ h => (nomatch h)⟩
  | cons fate fates ih =>
    cases fate with
    | answered =>
      rw [Request.send, wp_bind, wp_modify, wp_bind, wp_get, wp_pure]
      exact ⟨rfl, fun value h => (Option.some.inj h).symm⟩
    | timesOut carriedOut =>
      rw [Request.send, wp_bind, wp_modify, hmiss]
      exact ih
    | fails msg carriedOut =>
      rw [Request.send, wp_bind, wp_modify, wp_throw, hmiss]

/-- A set that returns has stored its value; one that raises may have. -/
theorem set_wp (key value : Bytes) (fates : List Fate) (c : Cluster) :
    wp (EtcdDatabase.set key value fates)
      (fun _ c' => Puts (b64encode key) (b64encode value) c c' ∧
        c'.store.get? (b64encode key) = some (b64encode value))
      (fun _ c' => Puts (b64encode key) (b64encode value) c c') c := by
  rw [EtcdDatabase.set, wp_bind, wp_liftExcept]
  refine ⟨fun _ _ => ?_, fun _ _ => .refl c⟩
  rw [wp_bind]
  refine (send_put_wp _ _ fates c).mono (fun answer c' h => ?_) fun _ _ h => h
  cases answer with
  | none => exact wp_throw.mpr h.1
  | some answer => exact wp_pure.mpr ⟨h.1, h.2 (by simp)⟩

theorem b64encode_eq_empty_iff : b64encode value = "" ↔ value = [] :=
  b64encode_injective.eq_iff (b := [])

theorem readAnswer_map (value : Option Bytes) :
    EtcdDatabase.readAnswer (value.map b64encode) = .ok (shown value) := by
  match value with
  | none => rfl
  | some [] => rfl
  | some (byte :: bytes) =>
    have hne : ¬ b64encode (byte :: bytes) = "" :=
      fun he => List.cons_ne_nil _ _ (b64encode_eq_empty_iff.mp he)
    rw [Option.map_some, EtcdDatabase.readAnswer, if_neg hne, b64decode_b64encode]
    rfl

/-- A get gives what is stored and changes nothing. -/
theorem get_wp (key : Bytes) (fates : List Fate) (c : Cluster) :
    wp (EtcdDatabase.get key fates)
      (fun result c' => c' = c ∧ ∀ value, c.store.get? (b64encode key) = value.map b64encode →
        result = shown value)
      (fun _ c' => c' = c) c := by
  rw [EtcdDatabase.get, wp_bind, wp_liftExcept]
  refine ⟨fun _ _ => ?_, fun _ _ => rfl⟩
  rw [wp_bind]
  refine (send_range_wp _ fates c).mono (fun answer c' h => ?_) fun _ _ h => h
  obtain ⟨rfl, hanswer⟩ := h
  cases answer with
  | none => exact wp_throw.mpr rfl
  | some answer =>
    rw [wp_liftExcept, hanswer answer rfl]
    refine ⟨fun result hresult => ⟨rfl, fun value hvalue => ?_⟩, fun _ _ => rfl⟩
    rw [hvalue, readAnswer_map] at hresult
    exact (Except.ok.inj hresult).symm

end Calls

/-! ## What holds over a run -/

theorem held_append (key : Bytes) (es : List Event) (e : Event) :
    held key (es ++ [e]) = e.after key (held key es) := by
  rw [held, held, List.foldl_append, List.foldl_cons, List.foldl_nil]

/-- Keys hold what they may, and what is in flight or was put late was sent by a set before. -/
structure Consistent (es : List Event) (c : Cluster) : Prop where
  store : ∀ key, ∃ value ∈ held key es, c.store.get? (b64encode key) = value.map b64encode
  inFlight : ∀ p ∈ c.inFlight, ∃ key value, p = (b64encode key, b64encode value) ∧
    (.set key value ∈ es ∨ .tries key value ∈ es)
  late : ∀ es₁ es₂ key value, es = es₁ ++ .late key value :: es₂ →
    .set key value ∈ es₁ ∨ .tries key value ∈ es₁

namespace Consistent

variable {es : List Event} {c c' : Cluster} {e : Event}

/-- An event that is no late put is preceded by the same late puts. -/
theorem late_append (h : Consistent es c) (hlate : ∀ key value, e = .late key value →
    .set key value ∈ es ∨ .tries key value ∈ es) (es₁ es₂ : List Event) (key value : Bytes)
    (he : es ++ [e] = es₁ ++ .late key value :: es₂) : .set key value ∈ es₁ ∨ .tries key value ∈ es₁ := by
  obtain rfl | ⟨es₂, last, rfl⟩ := es₂.eq_nil_or_concat
  · obtain ⟨rfl, hlast⟩ := List.append_inj' he rfl
    exact hlate key value (List.singleton_inj.mp hlast)
  · rw [List.concat_eq_append, ← List.cons_append, ← List.append_assoc] at he
    obtain ⟨rfl, -⟩ := List.append_inj' he rfl
    exact h.late es₁ es₂ key value rfl

variable {key value : Bytes}

/-- A call that puts a value, whether it returns or raises. -/
theorem puts (h : Consistent es c) (hputs : Puts (b64encode key) (b64encode value) c c')
    (hevent : .set key value ∈ es ++ [e] ∨ .tries key value ∈ es ++ [e])
    (hlate : ∀ key value, e ≠ .late key value)
    (hothers : ∀ k, k ≠ key → e.after k (held k es) = held k es)
    (hstore : ∃ v ∈ e.after key (held key es), c'.store.get? (b64encode key) = v.map b64encode) :
    Consistent (es ++ [e]) c' := by
  refine ⟨fun k => ?_, fun p hp => ?_, h.late_append fun key value he => absurd he (hlate key value)⟩
  · rw [held_append]
    by_cases hk : k = key
    · rw [hk]
      exact hstore
    · rw [hothers k hk]
      obtain ⟨v, hv, hget⟩ := h.store k
      refine ⟨v, hv, ?_⟩
      obtain hsame | ⟨hkey, -⟩ := hputs.store (b64encode k)
      · rw [hsame, hget]
      · exact absurd (b64encode_injective hkey) hk
  · obtain hp | rfl := hputs.inFlight p hp
    · obtain ⟨k, v, rfl, hsent⟩ := h.inFlight p hp
      exact ⟨k, v, rfl, hsent.imp (List.mem_append_left _) (List.mem_append_left _)⟩
    · exact ⟨key, value, rfl, hevent⟩

end Consistent

/-- By induction on the run. -/
theorem Runs.consistent {es : List Event} {c : Cluster} (h : Runs es c) : Consistent es c := by
  induction h with
  | start =>
    exact ⟨fun key => ⟨none, rfl, rfl⟩, fun p hp => absurd hp List.not_mem_nil,
      fun es₁ es₂ key value he => absurd he (by simp)⟩
  | @set es c c' key value fates _ h ih =>
    obtain ⟨hputs, hstored⟩ := (set_wp key value fates c).ok h
    refine ih.puts hputs (.inl (by simp)) (fun _ _ he => (nomatch he)) (fun k hk => if_neg (Ne.symm hk)) ?_
    rw [Event.after, if_pos rfl]
    exact ⟨some value, rfl, hstored⟩
  | @tries es c c' key value fates e _ h ih =>
    have hputs := (set_wp key value fates c).error h
    refine ih.puts hputs (.inr (by simp)) (fun _ _ he => (nomatch he)) (fun k hk => if_neg (Ne.symm hk)) ?_
    rw [Event.after, if_pos rfl]
    obtain ⟨v, hv, hget⟩ := ih.store key
    obtain hsame | ⟨-, hstored⟩ := hputs.store (b64encode key)
    · exact ⟨v, .inr hv, by rw [hsame, hget]⟩
    · exact ⟨some value, .inl rfl, hstored⟩
  | @get es c c' key fates result _ h ih =>
    obtain ⟨rfl, -⟩ := (get_wp key fates c).ok h
    refine ⟨fun k => ?_, fun p hp => ?_, ih.late_append fun _ _ he => (nomatch he)⟩
    · rw [held_append]
      exact ih.store k
    · obtain ⟨k, v, hp, hsent⟩ := ih.inFlight p hp
      exact ⟨k, v, hp, hsent.imp (List.mem_append_left _) (List.mem_append_left _)⟩
  | @raises es c c' key fates e _ h ih =>
    obtain rfl := (get_wp key fates c).error h
    exact ih
  | @late es c key value _ hin ih =>
    obtain ⟨k, v, hp, hsent⟩ := ih.inFlight _ hin
    obtain ⟨hkey, hvalue⟩ := Prod.mk.inj hp
    obtain rfl := b64encode_injective hkey
    obtain rfl := b64encode_injective hvalue
    refine ⟨fun k => ?_, fun p hp => ?_, ih.late_append fun _ _ he => ?_⟩
    · rw [held_append, Event.after]
      by_cases hk : key = k
      · rw [if_pos hk, hk]
        exact ⟨some value, rfl, Dict.get?_set_self⟩
      · rw [if_neg hk]
        obtain ⟨v, hv, hget⟩ := ih.store k
        exact ⟨v, hv, (Dict.get?_set_of_ne fun he => hk (b64encode_injective he).symm).trans hget⟩
    · obtain ⟨k, v, hp, hsent⟩ := ih.inFlight p (List.mem_of_mem_erase hp)
      exact ⟨k, v, hp, hsent.imp (List.mem_append_left _) (List.mem_append_left _)⟩
    · cases he
      exact hsent
  | @lost es c p _ ih => exact ⟨ih.store, fun p hp => ih.inFlight p (List.mem_of_mem_erase hp), ih.late⟩

/-- All hosts before one that answers time out. -/
def Reached (fates : List Fate) : Prop :=
  ∃ pre post, fates = pre ++ .answered :: post ∧ ∀ fate ∈ pre, ∃ carriedOut, fate = .timesOut carriedOut

def AllTimeOut (fates : List Fate) : Prop := ∀ fate ∈ fates, ∃ carriedOut, fate = .timesOut carriedOut

structure ValidKey (key : Bytes) : Prop where
  pos : 0 < key.length
  le : key.length ≤ 255
  characters : ∀ character ∈ key, character ∈ VALID_FILENAME_CHARACTERS

theorem validateKey_ok_iff {key : Bytes} : validateKey key = .ok ⟨⟩ ↔ ValidKey key := by
  have hcharacter : ∀ character, (if character ∉ VALID_FILENAME_CHARACTERS then .error (.InvalidKey "")
      else .ok () : Except DbExc Unit) = .ok ⟨⟩ ↔ character ∈ VALID_FILENAME_CHARACTERS := by
    intro character
    by_cases hin : character ∈ VALID_FILENAME_CHARACTERS <;> simp [hin]
  rw [validateKey]
  split
  · rename_i hlength
    exact iff_of_false (fun h => (nomatch h)) fun h => hlength ⟨h.pos, h.le⟩
  · rename_i hlength
    rw [except_forM_ok_iff]
    simp only [hcharacter]
    rw [not_not] at hlength
    exact ⟨fun h => ⟨hlength.1, hlength.2, h⟩, fun h => h.characters⟩

theorem send_run (request : Request) (fates : List Fate) (c : Cluster) :
    (Reached fates ∧ ∃ answer c', (request.send fates).run c = .ok (some answer) c') ∨
      (AllTimeOut fates ∧ ∃ c', (request.send fates).run c = .ok none c') ∨
      ¬ Reached fates ∧ ¬ AllTimeOut fates ∧ ∃ msg c', (request.send fates).run c =
        .error (.RequestException msg) c' := by
  induction fates generalizing c with
  | nil => exact .inr (.inl ⟨fun _ hin => absurd hin List.not_mem_nil, c, rfl⟩)
  | cons fate fates ih =>
    cases fate with
    | answered => exact .inl ⟨⟨[], fates, rfl, fun _ hin => absurd hin List.not_mem_nil⟩, _, _, rfl⟩
    | timesOut carriedOut =>
      have hreached : Reached (.timesOut carriedOut :: fates) ↔ Reached fates := by
        constructor
        · rintro ⟨pre, post, he, hpre⟩
          cases pre with
          | nil => cases he
          | cons first pre =>
            cases he
            exact ⟨pre, post, rfl, fun fate hin => hpre fate (List.mem_cons_of_mem _ hin)⟩
        · rintro ⟨pre, post, rfl, hpre⟩
          exact ⟨.timesOut carriedOut :: pre, post, rfl, List.forall_mem_cons.mpr ⟨⟨carriedOut, rfl⟩, hpre⟩⟩
      have hall : AllTimeOut (.timesOut carriedOut :: fates) ↔ AllTimeOut fates := by
        rw [AllTimeOut, List.forall_mem_cons]
        exact and_iff_right ⟨carriedOut, rfl⟩
      rw [hreached, hall]
      exact ih (request.miss carriedOut c)
    | fails msg carriedOut =>
      refine .inr (.inr ⟨?_, fun hall => ?_, msg, request.miss carriedOut c, rfl⟩)
      · rintro ⟨pre, post, he, hpre⟩
        cases pre with
        | nil => cases he
        | cons first pre =>
          cases he
          obtain ⟨b, hb⟩ := hpre _ List.mem_cons_self
          cases hb
      · obtain ⟨b, hb⟩ := hall _ List.mem_cons_self
        cases hb

theorem Reached.not_allTimeOut {fates : List Fate} (h : Reached fates) : ¬ AllTimeOut fates := by
  obtain ⟨pre, post, rfl, -⟩ := h
  intro hall
  obtain ⟨b, hb⟩ := hall .answered (by simp)
  cases hb

theorem validateKey_error {key : Bytes} {e : DbExc} (h : validateKey key = .error e) :
    ∃ msg, e = .InvalidKey msg := by
  rw [validateKey] at h
  split at h
  · exact ⟨_, (Except.error.inj h).symm⟩
  · obtain ⟨pre, character, post, -, -, hcharacter⟩ := except_forM_error_iff.mp h
    split at hcharacter
    · exact ⟨_, (Except.error.inj hcharacter).symm⟩
    · cases hcharacter

/-- A call returns, or all hosts time out, or it raises something else. -/
def Ends {α : Type} (returns times : Prop) : EStateM.Result DbExc Cluster α → Prop
  | .ok _ _ => returns
  | .error (.TimeoutOnAllHosts _) _ => ¬ returns ∧ times
  | .error _ _ => ¬ returns ∧ ¬ times

theorem Ends.iff {α : Type} {returns times : Prop} {r : EStateM.Result DbExc Cluster α}
    (h : Ends returns times r)
    (hnot : returns → ¬ times) : ((∃ a c', r = .ok a c') ↔ returns) ∧
      ((∃ msg c', r = .error (.TimeoutOnAllHosts msg) c') ↔ times) := by
  match r, h with
  | .ok a c', h => exact ⟨iff_of_true ⟨a, c', rfl⟩ h,
      iff_of_false (fun ⟨msg, c', he⟩ => (nomatch he)) (hnot h)⟩
  | .error (.TimeoutOnAllHosts msg) c', h =>
    exact ⟨iff_of_false (fun ⟨a, c', he⟩ => (nomatch he)) h.1, iff_of_true ⟨msg, c', rfl⟩ h.2⟩
  | .error (.InvalidKey msg) c', h =>
    exact ⟨iff_of_false (fun ⟨a, c', he⟩ => (nomatch he)) h.1,
      iff_of_false (fun ⟨msg, c', he⟩ => (nomatch he)) h.2⟩
  | .error (.RequestException msg) c', h =>
    exact ⟨iff_of_false (fun ⟨a, c', he⟩ => (nomatch he)) h.1,
      iff_of_false (fun ⟨msg, c', he⟩ => (nomatch he)) h.2⟩
  | .error (.builtin e) c', h =>
    exact ⟨iff_of_false (fun ⟨a, c', he⟩ => (nomatch he)) h.1,
      iff_of_false (fun ⟨msg, c', he⟩ => (nomatch he)) h.2⟩

/-- A call that validates its key and sends a request. -/
theorem ends_call {α : Type} (key : Bytes) (request : Request) (fates : List Fate)
    (c : Cluster) (msg : String)
    (f : Option String → EStateM DbExc Cluster α)
    (hreturns : ∀ answer c', (request.send fates).run c = .ok (some answer) c' →
      ∃ a c'', (f answer).run c' = .ok a c'') :
    Ends (ValidKey key ∧ Reached fates) (ValidKey key ∧ AllTimeOut fates) ((do
      Py.liftExcept (validateKey key)
      match ← request.send fates with
      | none => throw (.TimeoutOnAllHosts msg)
      | some answer => f answer : EStateM DbExc Cluster α).run c) := by
  cases hkey : validateKey key with
  | error e =>
    have hnot : ¬ ValidKey key := fun h => by
      rw [validateKey_ok_iff.mpr h] at hkey
      cases hkey
    obtain ⟨msg, rfl⟩ := validateKey_error hkey
    exact ⟨fun h => hnot h.1, fun h => hnot h.1⟩
  | ok u =>
    have hvalid := validateKey_ok_iff.mp hkey
    rw [bind_of_ok (liftExcept_ok _ _)]
    obtain ⟨hreached, answer, c', hrun⟩ | ⟨hall, c', hrun⟩ | ⟨hnot, hnotAll, msg', c', hrun⟩ :=
      send_run request fates c
    · obtain ⟨a, c'', hf⟩ := hreturns answer c' hrun
      rw [bind_of_ok hrun]
      dsimp only
      rw [hf]
      exact ⟨hvalid, hreached⟩
    · rw [bind_of_ok hrun]
      exact ⟨fun h => h.2.not_allTimeOut hall, hvalid, hall⟩
    · rw [bind_of_error hrun]
      exact ⟨fun h => hnot h.2, fun h => hnotAll h.2⟩

end Wca.Databases
