import Mathlib.Data.List.Forall2

/-!
# Programs with exceptions and a state that survives them

`EStateM ε σ` is a program that reads and writes a state `σ` and may raise an exception `ε`; what
was written before the exception stays written. This file has the inversion rules of its binds
(`bind_ok_iff`, `bind_error_iff`), the weakest precondition `wp` over both exits with its rules,
and the rules of a loop over a list (`wp_forM`, `forM_eq_ok`).
-/

namespace Py

variable {ε σ τ α β : Type}

/-! ## Programs without a state -/

@[simp] theorem except_pure (a : α) : (pure a : Except ε α) = .ok a := rfl

@[simp] theorem except_ok_bind (a : α) (f : α → Except ε β) : (Except.ok a >>= f) = f a := rfl

@[simp] theorem except_error_bind (e : ε) (f : α → Except ε β) :
    (Except.error e >>= f) = .error e := rfl

theorem except_not_returns {e : ε} : ¬ ∃ a, (Except.error e : Except ε α) = .ok a := by
  rintro ⟨a, h⟩
  cases h

theorem except_exists_of_isOk {x : Except ε α} (h : x.isOk = true) : ∃ a, x = .ok a := by
  cases x with
  | ok a => exact ⟨a, rfl⟩
  | error e => cases h

theorem except_map_map {γ : Type} (x : Except ε α) (f : α → β) (g : β → γ) :
    (x.map f).map g = x.map fun a => g (f a) := by
  cases x <;> rfl

/-- A program whose result is dropped. -/
theorem except_drop_ok_iff {x : Except ε α} {u : Unit} :
    x.map (fun _ => ()) = .ok u ↔ ∃ a, x = .ok a := by
  cases x <;> simp [Except.map]

theorem except_bind_ok_iff {x : Except ε α} {f : α → Except ε β} {b : β} :
    (x >>= f) = .ok b ↔ ∃ a, x = .ok a ∧ f a = .ok b := by
  cases x <;> simp

theorem except_seq_ok_iff {x : Except ε Unit} {f : Unit → Except ε β} {b : β} :
    (x >>= f) = .ok b ↔ x = .ok () ∧ f () = .ok b := by
  cases x <;> simp

theorem except_bind_error_iff {x : Except ε α} {f : α → Except ε β} {e : ε} :
    (x >>= f) = .error e ↔ x = .error e ∨ ∃ a, x = .ok a ∧ f a = .error e := by
  cases x <;> simp

/-- A loop over elements at which the body returns returns. -/
theorem except_forM_ok_iff {l : List α} {f : α → Except ε Unit} :
    forM l f = .ok ⟨⟩ ↔ ∀ a ∈ l, f a = .ok ⟨⟩ := by
  induction l with
  | nil => simp
  | cons a l ih =>
    rw [List.forM_cons, except_bind_ok_iff]
    simp only [List.forall_mem_cons]
    constructor
    · rintro ⟨_, ha, hl⟩; exact ⟨ha, ih.mp hl⟩
    · rintro ⟨ha, hl⟩; exact ⟨⟨⟩, ha, ih.mpr hl⟩

/-- The first element at which the body raises ends the loop. -/
theorem except_forM_error_iff {l : List α} {f : α → Except ε Unit} {e : ε} :
    forM l f = .error e ↔ ∃ pre a post, l = pre ++ a :: post ∧ (∀ b ∈ pre, f b = .ok ⟨⟩) ∧
      f a = .error e := by
  induction l with
  | nil => simp
  | cons a l ih =>
    rw [List.forM_cons, except_bind_error_iff]
    constructor
    · rintro (ha | ⟨_, ha, hl⟩)
      · exact ⟨[], a, l, rfl, fun b hb => absurd hb List.not_mem_nil, ha⟩
      · obtain ⟨pre, a', post, rfl, hpre, ha'⟩ := ih.mp hl
        exact ⟨a :: pre, a', post, rfl, List.forall_mem_cons.mpr ⟨ha, hpre⟩, ha'⟩
    · rintro ⟨pre, a', post, hl, hpre, ha'⟩
      cases pre with
      | nil =>
        obtain ⟨rfl, rfl⟩ := List.cons.inj hl
        exact .inl ha'
      | cons b pre =>
        obtain ⟨rfl, rfl⟩ := List.cons.inj hl
        exact .inr ⟨⟨⟩, hpre a List.mem_cons_self, ih.mpr
          ⟨pre, a', post, rfl, fun b hb => hpre b (List.mem_cons_of_mem a hb), ha'⟩⟩

/-- A loop that collects results returns one for each element. -/
theorem except_mapM_ok_iff {l : List α} {f : α → Except ε β} {r : List β} :
    l.mapM f = .ok r ↔ List.Forall₂ (fun a b => f a = .ok b) l r := by
  induction l generalizing r with
  | nil =>
    rw [List.mapM_nil, List.forall₂_nil_left_iff]
    exact ⟨fun h => (Except.ok.inj h).symm, fun h => congrArg Except.ok h.symm⟩
  | cons a l ih =>
    rw [List.mapM_cons, except_bind_ok_iff, List.forall₂_cons_left_iff]
    constructor
    · rintro ⟨b, hb, h⟩
      obtain ⟨bs, hbs, h⟩ := except_bind_ok_iff.mp h
      cases h
      exact ⟨b, bs, hb, ih.mp hbs, rfl⟩
    · rintro ⟨b, bs, hb, hbs, rfl⟩
      exact ⟨b, hb, except_bind_ok_iff.mpr ⟨bs, ih.mpr hbs, rfl⟩⟩

theorem except_mapM_eq_ok {l : List α} {f : α → Except ε β} {g : α → β}
    (hf : ∀ a ∈ l, f a = .ok (g a)) : l.mapM f = .ok (l.map g) := by
  rw [except_mapM_ok_iff, List.forall₂_map_right_iff, List.forall₂_same]
  exact hf

/-- A loop over elements at which the body returns returns. -/
theorem except_mapM_returns {l : List α} {f : α → Except ε β} (h : ∀ a ∈ l, ∃ b, f a = .ok b) :
    ∃ r, l.mapM f = .ok r := by
  induction l with
  | nil => exact ⟨[], rfl⟩
  | cons a l ih =>
    obtain ⟨b, hb⟩ := h a List.mem_cons_self
    obtain ⟨r, hr⟩ := ih fun a ha => h a (List.mem_cons_of_mem _ ha)
    rw [List.mapM_cons, hb, except_ok_bind, hr]
    exact ⟨b :: r, rfl⟩

theorem except_mapM_error {l : List α} {f : α → Except ε β} {e : ε} (h : l.mapM f = .error e) :
    ∃ a ∈ l, f a = .error e := by
  induction l with
  | nil => cases h
  | cons a l ih =>
    rw [List.mapM_cons, except_bind_error_iff] at h
    rcases h with h | ⟨b, -, h⟩
    · exact ⟨a, List.mem_cons_self, h⟩
    · rcases except_bind_error_iff.mp h with h | ⟨_, -, h⟩
      · obtain ⟨a', ha', h⟩ := ih h
        exact ⟨a', List.mem_cons_of_mem _ ha', h⟩
      · cases h

/-- A loop that collects results goes on and stops as the one that drops them. -/
theorem except_mapM_drop (l : List α) (f : α → Except ε β) :
    (l.mapM f).map (fun _ => ()) = forM l fun a => (f a).map fun _ => () := by
  induction l with
  | nil => rfl
  | cons a l ih =>
    rw [List.mapM_cons, List.forM_cons]
    cases f a with
    | error e => rfl
    | ok b =>
      refine Eq.trans ?_ ih
      change Except.map _ ((l.mapM f) >>= _) = _
      cases l.mapM f <;> rfl

/-- The rule of a loop that carries a value: an invariant over the elements gone through and the
value so far. -/
theorem except_foldlM_ok {l : List α} {f : β → α → Except ε β} {b r : β} {I : List α → β → Prop}
    (h : l.foldlM f b = .ok r) (h0 : I [] b)
    (hstep : ∀ pre a post b b', l = pre ++ a :: post → I pre b → f b a = .ok b' →
      I (pre ++ [a]) b') : I l r := by
  suffices hgo : ∀ (post pre : List α) (b : β), l = pre ++ post → I pre b →
      post.foldlM f b = .ok r → I l r from hgo l [] b rfl h0 h
  intro post
  induction post with
  | nil =>
    intro pre b hl hI h
    rw [List.append_nil] at hl
    cases h
    exact hl ▸ hI
  | cons a post ih =>
    intro pre b hl hI h
    rw [List.foldlM_cons, except_bind_ok_iff] at h
    obtain ⟨b', hb', h⟩ := h
    exact ih (pre ++ [a]) b' (by rw [hl]; simp) (hstep pre a post b b' hl hI hb') h

/-- A loop whose body returns as long as an invariant over the elements gone through holds. -/
theorem except_foldlM_run {l : List α} {f : β → α → Except ε β} {b : β} {I : List α → β → Prop}
    (h0 : I [] b) (hstep : ∀ pre a post b, l = pre ++ a :: post → I pre b →
      ∃ b', f b a = .ok b' ∧ I (pre ++ [a]) b') : ∃ r, l.foldlM f b = .ok r ∧ I l r := by
  suffices hgo : ∀ (post pre : List α) (b : β), l = pre ++ post → I pre b →
      ∃ r, post.foldlM f b = .ok r ∧ I l r from hgo l [] b rfl h0
  intro post
  induction post with
  | nil =>
    intro pre b hl hI
    rw [List.append_nil] at hl
    exact ⟨b, rfl, hl ▸ hI⟩
  | cons a post ih =>
    intro pre b hl hI
    obtain ⟨b', hb', hI'⟩ := hstep pre a post b hl hI
    rw [List.foldlM_cons, hb', except_ok_bind]
    exact ih (pre ++ [a]) b' (by rw [hl]; simp) hI'

/-- A loop whose body returns as long as an invariant holds returns. -/
theorem except_foldlM_returns {l : List α} {f : β → α → Except ε β} {b : β} {I : β → Prop}
    (h0 : I b) (hstep : ∀ a ∈ l, ∀ b, I b → ∃ b', f b a = .ok b' ∧ I b') :
    ∃ r, l.foldlM f b = .ok r ∧ I r :=
  except_foldlM_run (I := fun _ => I) h0 fun pre a post b hl hI =>
    hstep a (by rw [hl]; simp) b hI

/-- A loop keeps what every step of it keeps. -/
theorem except_foldlM_inv {l : List α} {f : β → α → Except ε β} {b r : β} {I : β → Prop} (h0 : I b)
    (hstep : ∀ a ∈ l, ∀ b b', I b → f b a = .ok b' → I b') (h : l.foldlM f b = .ok r) : I r := by
  refine except_foldlM_ok (I := fun _ => I) h h0 fun pre a post b b' hl hI hb' => ?_
  exact hstep a (by rw [hl]; simp) b b' hI hb'

/-- Loops within a loop, as one over all of what they go through. -/
theorem foldlM_flatMap {m : Type → Type} [Monad m] [LawfulMonad m] {γ : Type} (l : List α)
    (g : α → List γ) (f : β → γ → m β) (b : β) :
    (l.flatMap g).foldlM f b = l.foldlM (fun b a => (g a).foldlM f b) b := by
  induction l generalizing b with
  | nil => rfl
  | cons a l ih =>
    rw [List.flatMap_cons, List.foldlM_append, List.foldlM_cons]
    exact bind_congr fun b' => ih b'

theorem forall₂_exists_right {R : α → β → Prop} {l : List α} {r : List β} (h : List.Forall₂ R l r)
    {a : α} (ha : a ∈ l) : ∃ b ∈ r, R a b := by
  induction h with
  | nil => cases ha
  | cons hab _ ih =>
    rcases List.mem_cons.mp ha with rfl | ha
    · exact ⟨_, List.mem_cons_self, hab⟩
    · obtain ⟨b, hb, hR⟩ := ih ha
      exact ⟨b, List.mem_cons_of_mem _ hb, hR⟩

theorem forall₂_exists_left {R : α → β → Prop} {l : List α} {r : List β} (h : List.Forall₂ R l r)
    {b : β} (hb : b ∈ r) : ∃ a ∈ l, R a b := by
  induction h with
  | nil => cases hb
  | cons hab _ ih =>
    rcases List.mem_cons.mp hb with rfl | hb
    · exact ⟨_, List.mem_cons_self, hab⟩
    · obtain ⟨a, ha, hR⟩ := ih hb
      exact ⟨a, List.mem_cons_of_mem _ ha, hR⟩

theorem eq_map_of_forall₂ {R : α → β → Prop} {f : α → β} {l : List α} {r : List β}
    (h : List.Forall₂ R l r) (hf : ∀ a ∈ l, ∀ b, R a b → b = f a) : r = l.map f := by
  induction h with
  | nil => rfl
  | cons hab _ ih =>
    rw [List.map_cons, hf _ List.mem_cons_self _ hab, ih fun a ha => hf a (List.mem_cons_of_mem _ ha)]

/-- In a loop that returns the body returned at every element. -/
theorem except_foldlM_ok_mem {l : List α} {f : β → α → Except ε β} {b r : β}
    (h : l.foldlM f b = .ok r) : ∀ a ∈ l, ∃ b b', f b a = .ok b' := by
  refine except_foldlM_ok (I := fun pre _ => ∀ a ∈ pre, ∃ b b', f b a = .ok b') h
    (fun a ha => (nomatch ha)) ?_
  intro pre a post b b' _ hI hstep a' ha'
  rcases List.mem_append.mp ha' with hpre | ha'
  · exact hI a' hpre
  · cases List.mem_singleton.mp ha'
    exact ⟨b, b', hstep⟩

/-- `if c: x`. -/
def doIf {m : Type → Type} [Monad m] (c : Prop) [Decidable c] (x : m PUnit) : m PUnit :=
  if c then x else pure ⟨⟩

@[simp] theorem doIf_of {m : Type → Type} [Monad m] {c : Prop} [Decidable c] {x : m PUnit}
    (h : c) : doIf c x = x := if_pos h

@[simp] theorem doIf_of_not {m : Type → Type} [Monad m] {c : Prop} [Decidable c] {x : m PUnit}
    (h : ¬c) : doIf c x = pure ⟨⟩ := if_neg h

theorem except_doIf_ok_iff {c : Prop} [Decidable c] {x : Except ε PUnit} :
    doIf c x = .ok ⟨⟩ ↔ (c → x = .ok ⟨⟩) := by
  by_cases h : c <;> simp [h]

theorem except_doIf_error_iff {c : Prop} [Decidable c] {x : Except ε PUnit} {e : ε} :
    doIf c x = .error e ↔ c ∧ x = .error e := by
  by_cases h : c <;> simp [h]

/-! ## Bind -/

theorem bind_of_ok {x : EStateM ε σ α} {f : α → EStateM ε σ β} {s s' : σ} {a : α}
    (h : x.run s = .ok a s') : (x >>= f).run s = (f a).run s' := by
  rw [EStateM.run_bind, h]

theorem bind_of_error {x : EStateM ε σ α} {f : α → EStateM ε σ β} {s s' : σ} {e : ε}
    (h : x.run s = .error e s') : (x >>= f).run s = .error e s' := by
  rw [EStateM.run_bind, h]

theorem bind_ok_iff {x : EStateM ε σ α} {f : α → EStateM ε σ β} {s s' : σ} {b : β} :
    (x >>= f).run s = .ok b s' ↔ ∃ a t, x.run s = .ok a t ∧ (f a).run t = .ok b s' := by
  cases h : x.run s with
  | ok a t =>
    rw [bind_of_ok h]
    constructor
    · intro hf; exact ⟨a, t, rfl, hf⟩
    · rintro ⟨a', t', ha, hf⟩; cases ha; exact hf
  | error e t =>
    rw [bind_of_error h]
    constructor
    · intro hf; cases hf
    · rintro ⟨_, _, ha, _⟩; cases ha

theorem bind_error_iff {x : EStateM ε σ α} {f : α → EStateM ε σ β} {s s' : σ} {e : ε} :
    (x >>= f).run s = .error e s' ↔
      x.run s = .error e s' ∨ ∃ a t, x.run s = .ok a t ∧ (f a).run t = .error e s' := by
  cases h : x.run s with
  | ok a t =>
    rw [bind_of_ok h]
    constructor
    · intro hf; exact .inr ⟨a, t, rfl, hf⟩
    · rintro (ha | ⟨a', t', ha, hf⟩)
      · cases ha
      · cases ha; exact hf
  | error e' t =>
    rw [bind_of_error h]
    constructor
    · intro hf; cases hf; exact .inl rfl
    · rintro (ha | ⟨_, _, ha, _⟩)
      · cases ha; rfl
      · cases ha

@[simp] theorem pure_run (a : α) (s : σ) : (pure a : EStateM ε σ α).run s = .ok a s := rfl

@[simp] theorem throw_run (e : ε) (s : σ) : (throw e : EStateM ε σ α).run s = .error e s := rfl

@[simp] theorem get_run (s : σ) : (get : EStateM ε σ σ).run s = .ok s s := rfl

@[simp] theorem set_run (s t : σ) : (set t : EStateM ε σ PUnit).run s = .ok ⟨⟩ t := rfl

@[simp] theorem modify_run (f : σ → σ) (s : σ) :
    (modify f : EStateM ε σ PUnit).run s = .ok ⟨⟩ (f s) := rfl

theorem doIf_ok_iff {c : Prop} [Decidable c] {x : EStateM ε σ PUnit} {s s' : σ} {u : PUnit} :
    (doIf c x).run s = .ok u s' ↔ c ∧ x.run s = .ok u s' ∨ ¬c ∧ s' = s := by
  by_cases h : c <;> simp [h, eq_comm]

/-! ## Stateless programs, and programs on a part of the state -/

/-- A program that does not look at the state. -/
def liftExcept : Except ε α → EStateM ε σ α
  | .ok a => pure a
  | .error e => throw e

@[simp] theorem liftExcept_ok (a : α) (s : σ) :
    (liftExcept (.ok a) : EStateM ε σ α).run s = .ok a s := rfl

@[simp] theorem liftExcept_error (e : ε) (s : σ) :
    (liftExcept (.error e) : EStateM ε σ α).run s = .error e s := rfl

theorem liftExcept_ok_iff {x : Except ε α} {s s' : σ} {a : α} :
    (liftExcept x : EStateM ε σ α).run s = .ok a s' ↔ x = .ok a ∧ s' = s := by
  cases x with
  | ok b =>
    simp only [liftExcept_ok, EStateM.Result.ok.injEq, Except.ok.injEq]
    exact ⟨fun ⟨h, h'⟩ => ⟨h, h'.symm⟩, fun ⟨h, h'⟩ => ⟨h, h'.symm⟩⟩
  | error e => simp

theorem liftExcept_error_iff {x : Except ε α} {s s' : σ} {e : ε} :
    (liftExcept x : EStateM ε σ α).run s = .error e s' ↔ x = .error e ∧ s' = s := by
  cases x with
  | ok b => simp
  | error e' =>
    simp only [liftExcept_error, EStateM.Result.error.injEq, Except.error.injEq]
    exact ⟨fun ⟨h, h'⟩ => ⟨h, h'.symm⟩, fun ⟨h, h'⟩ => ⟨h, h'.symm⟩⟩

/-- Run a program on the part of the state that `proj` reads and `put` writes back. -/
def zoom (proj : σ → τ) (put : τ → σ → σ) (x : EStateM ε τ α) : EStateM ε σ α := fun s =>
  match x.run (proj s) with
  | .ok a t => .ok a (put t s)
  | .error e t => .error e (put t s)

theorem zoom_run {proj : σ → τ} {put : τ → σ → σ} {x : EStateM ε τ α} {s : σ} :
    (zoom proj put x).run s =
      match x.run (proj s) with
      | .ok a t => .ok a (put t s)
      | .error e t => .error e (put t s) := rfl

theorem zoom_ok_iff {proj : σ → τ} {put : τ → σ → σ} {x : EStateM ε τ α} {s s' : σ} {a : α} :
    (zoom proj put x).run s = .ok a s' ↔ ∃ t, x.run (proj s) = .ok a t ∧ s' = put t s := by
  rw [zoom_run]
  cases h : x.run (proj s) with
  | ok b t =>
    simp only [EStateM.Result.ok.injEq]
    constructor
    · rintro ⟨rfl, rfl⟩; exact ⟨t, ⟨rfl, rfl⟩, rfl⟩
    · rintro ⟨t', ⟨rfl, rfl⟩, rfl⟩; exact ⟨rfl, rfl⟩
  | error e t => simp

theorem zoom_error_iff {proj : σ → τ} {put : τ → σ → σ} {x : EStateM ε τ α} {s s' : σ} {e : ε} :
    (zoom proj put x).run s = .error e s' ↔ ∃ t, x.run (proj s) = .error e t ∧ s' = put t s := by
  rw [zoom_run]
  cases h : x.run (proj s) with
  | ok b t => simp
  | error e' t =>
    simp only [EStateM.Result.error.injEq]
    constructor
    · rintro ⟨rfl, rfl⟩; exact ⟨t, ⟨rfl, rfl⟩, rfl⟩
    · rintro ⟨t', ⟨rfl, rfl⟩, rfl⟩; exact ⟨rfl, rfl⟩

/-! ## Weakest preconditions

`wp x Q E s`: the program `x` run from `s` ends in `Q` when it returns and in `E` when it raises. -/

/-- From `s`, `x` returns in `Q` or raises in `E`. -/
def wp (x : EStateM ε σ α) (Q : α → σ → Prop) (E : ε → σ → Prop) (s : σ) : Prop :=
  match x.run s with
  | .ok a t => Q a t
  | .error e t => E e t

theorem wp_iff {x : EStateM ε σ α} {Q : α → σ → Prop} {E : ε → σ → Prop} {s : σ} :
    wp x Q E s ↔ (∀ a t, x.run s = .ok a t → Q a t) ∧ (∀ e t, x.run s = .error e t → E e t) := by
  unfold wp
  cases h : x.run s with
  | ok a t =>
    constructor
    · intro hq; exact ⟨fun _ _ h' => by cases h'; exact hq, fun _ _ h' => (nomatch h')⟩
    · intro hq; exact hq.1 _ _ rfl
  | error e t =>
    constructor
    · intro he; exact ⟨fun _ _ h' => (nomatch h'), fun _ _ h' => by cases h'; exact he⟩
    · intro he; exact he.2 _ _ rfl

theorem wp.ok {x : EStateM ε σ α} {Q : α → σ → Prop} {E : ε → σ → Prop} {s t : σ} {a : α}
    (h : wp x Q E s) (hx : x.run s = .ok a t) : Q a t := (wp_iff.mp h).1 _ _ hx

theorem wp.error {x : EStateM ε σ α} {Q : α → σ → Prop} {E : ε → σ → Prop} {s t : σ} {e : ε}
    (h : wp x Q E s) (hx : x.run s = .error e t) : E e t := (wp_iff.mp h).2 _ _ hx

theorem wp.mono {x : EStateM ε σ α} {Q Q' : α → σ → Prop} {E E' : ε → σ → Prop} {s : σ}
    (h : wp x Q E s) (hQ : ∀ a t, Q a t → Q' a t) (hE : ∀ e t, E e t → E' e t) :
    wp x Q' E' s := by
  rw [wp_iff] at h ⊢
  exact ⟨fun a t hx => hQ a t (h.1 a t hx), fun e t hx => hE e t (h.2 e t hx)⟩

/-- What holds whenever the program returns. -/
theorem wp_of_ok {x : EStateM ε σ α} {Q : α → σ → Prop} {s : σ}
    (h : ∀ a t, x.run s = .ok a t → Q a t) : wp x Q (fun _ _ => True) s :=
  wp_iff.mpr ⟨h, fun _ _ _ => trivial⟩

/-- What the program returns satisfies a test. -/
def returnsSuch (p : α → σ → Bool) : EStateM.Result ε σ α → Bool
  | .ok a t => p a t
  | .error _ _ => false

theorem exists_of_returnsSuch {p : α → σ → Bool} {r : EStateM.Result ε σ α}
    (h : returnsSuch p r = true) : ∃ a t, r = .ok a t ∧ p a t = true := by
  cases r with
  | ok a t => exact ⟨a, t, rfl, h⟩
  | error e t => cases h

/-- What the program raises satisfies a test. -/
def raisesSuch (p : ε → Bool) : EStateM.Result ε σ α → Bool
  | .ok _ _ => false
  | .error e _ => p e

theorem exists_of_raisesSuch {p : ε → Bool} {r : EStateM.Result ε σ α}
    (h : raisesSuch p r = true) : ∃ e t, r = .error e t ∧ p e = true := by
  cases r with
  | ok a t => cases h
  | error e t => exact ⟨e, t, rfl, h⟩

/-- A program whose raising exit is excluded returns. -/
theorem wp.returns {x : EStateM ε σ α} {Q : α → σ → Prop} {s : σ}
    (h : wp x Q (fun _ _ => False) s) : ∃ a t, x.run s = .ok a t ∧ Q a t := by
  cases hx : x.run s with
  | ok a t => exact ⟨a, t, rfl, h.ok hx⟩
  | error e t => exact (h.error hx).elim

@[simp] theorem wp_pure {a : α} {Q : α → σ → Prop} {E : ε → σ → Prop} {s : σ} :
    wp (pure a) Q E s ↔ Q a s := Iff.rfl

@[simp] theorem wp_throw {e : ε} {Q : α → σ → Prop} {E : ε → σ → Prop} {s : σ} :
    wp (throw e) Q E s ↔ E e s := Iff.rfl

@[simp] theorem wp_get {Q : σ → σ → Prop} {E : ε → σ → Prop} {s : σ} :
    wp get Q E s ↔ Q s s := Iff.rfl

@[simp] theorem wp_set {t : σ} {Q : PUnit → σ → Prop} {E : ε → σ → Prop} {s : σ} :
    wp (set t) Q E s ↔ Q ⟨⟩ t := Iff.rfl

@[simp] theorem wp_modify {f : σ → σ} {Q : PUnit → σ → Prop} {E : ε → σ → Prop} {s : σ} :
    wp (modify f) Q E s ↔ Q ⟨⟩ (f s) := Iff.rfl

@[simp] theorem wp_bind {x : EStateM ε σ α} {f : α → EStateM ε σ β} {Q : β → σ → Prop}
    {E : ε → σ → Prop} {s : σ} :
    wp (x >>= f) Q E s ↔ wp x (fun a => wp (f a) Q E) E s := by
  unfold wp
  cases h : x.run s with
  | ok a t => rw [bind_of_ok h]
  | error e t => rw [bind_of_error h]

@[simp] theorem wp_ite {c : Prop} [Decidable c] {x y : EStateM ε σ α} {Q : α → σ → Prop}
    {E : ε → σ → Prop} {s : σ} :
    wp (if c then x else y) Q E s ↔ (c → wp x Q E s) ∧ (¬c → wp y Q E s) := by
  by_cases h : c <;> simp [h]

@[simp] theorem wp_doIf {c : Prop} [Decidable c] {x : EStateM ε σ PUnit} {Q : PUnit → σ → Prop}
    {E : ε → σ → Prop} {s : σ} :
    wp (doIf c x) Q E s ↔ (c → wp x Q E s) ∧ (¬c → Q ⟨⟩ s) := by
  by_cases h : c <;> simp [h]

theorem wp_liftExcept {x : Except ε α} {Q : α → σ → Prop} {E : ε → σ → Prop} {s : σ} :
    wp (liftExcept x) Q E s ↔ (∀ a, x = .ok a → Q a s) ∧ (∀ e, x = .error e → E e s) := by
  cases x <;> simp [wp]

theorem wp_tryCatch {x : EStateM ε σ α} {handle : ε → EStateM ε σ α} {Q : α → σ → Prop}
    {E : ε → σ → Prop} {s : σ} :
    wp (tryCatch x handle) Q E s ↔ wp x Q (fun e t => wp (handle e) Q E t) s := by
  have hrun : (tryCatch x handle).run s = match x.run s with
      | .ok a t => .ok a t
      | .error e t => (handle e).run t := by
    change EStateM.tryCatch x handle s = _
    have hx : x s = x.run s := rfl
    rw [EStateM.tryCatch, hx]
    cases x.run s <;> rfl
  rw [wp, wp, hrun]
  cases x.run s <;> rfl

/-! ## Invariants -/

/-- `x` keeps `I`, whether it returns or raises. -/
def Keeps (I : σ → Prop) (x : EStateM ε σ α) : Prop := ∀ s, I s → wp x (fun _ => I) (fun _ => I) s

section Keeps

variable {I : σ → Prop}

theorem keeps_pure {a : α} : Keeps I (pure a : EStateM ε σ α) := fun _ h => h

theorem keeps_get : Keeps I (get : EStateM ε σ σ) := fun _ h => h

theorem keeps_modify {f : σ → σ} (h : ∀ s, I s → I (f s)) :
    Keeps I (modify f : EStateM ε σ PUnit) := fun s hs => h s hs

theorem Keeps.bind {x : EStateM ε σ α} {f : α → EStateM ε σ β} (hx : Keeps I x)
    (hf : ∀ a, Keeps I (f a)) : Keeps I (x >>= f) := fun s hs =>
  wp_bind.mpr ((hx s hs).mono (fun a t ht => hf a t ht) fun _ _ h => h)

theorem Keeps.doIf {c : Prop} [Decidable c] {x : EStateM ε σ PUnit} (hx : Keeps I x) :
    Keeps I (doIf c x) := fun s hs => wp_doIf.mpr ⟨fun _ => hx s hs, fun _ => hs⟩

theorem Keeps.ite {c : Prop} [Decidable c] {x y : EStateM ε σ α} (hx : Keeps I x)
    (hy : Keeps I y) : Keeps I (if c then x else y) := fun s hs =>
  wp_ite.mpr ⟨fun _ => hx s hs, fun _ => hy s hs⟩

theorem keeps_liftExcept {x : Except ε α} : Keeps I (liftExcept x) := fun _ hs =>
  wp_liftExcept.mpr ⟨fun _ _ => hs, fun _ _ => hs⟩

/-- A program on another part of the state. -/
theorem keeps_zoom {proj : σ → τ} {put : τ → σ → σ} {x : EStateM ε τ α}
    (h : ∀ t s, I s → I (put t s)) : Keeps I (zoom proj put x) := fun s hs =>
  wp_iff.mpr ⟨fun _ _ hx => by obtain ⟨t, -, rfl⟩ := zoom_ok_iff.mp hx; exact h t s hs,
    fun _ _ hx => by obtain ⟨t, -, rfl⟩ := zoom_error_iff.mp hx; exact h t s hs⟩

theorem keeps_forM {l : List α} {f : α → EStateM ε σ PUnit} (h : ∀ a ∈ l, Keeps I (f a)) :
    Keeps I (forM l f) := by
  induction l with
  | nil => exact keeps_pure
  | cons a l ih =>
    rw [List.forM_cons]
    exact (h a List.mem_cons_self).bind fun _ => ih fun b hb => h b (List.mem_cons_of_mem _ hb)

end Keeps

/-! ## Loops -/

/-- The loop rule: an invariant over the elements already gone through. `I pre` holds before the
element after `pre`, and both exits of the body are covered. -/
theorem wp_forM {l : List α} {f : α → EStateM ε σ PUnit} {I : List α → σ → Prop}
    {E : ε → σ → Prop} {s : σ} (h0 : I [] s)
    (hstep : ∀ pre a post t, l = pre ++ a :: post → I pre t →
      wp (f a) (fun _ => I (pre ++ [a])) E t) :
    wp (forM l f) (fun _ => I l) E s := by
  suffices h : ∀ (post pre : List α) (t : σ), l = pre ++ post → I pre t →
      wp (forM post f) (fun _ => I l) E t from h l [] s rfl h0
  intro post
  induction post with
  | nil =>
    intro pre t hl hI
    rw [List.append_nil] at hl
    subst hl
    exact hI
  | cons a post ih =>
    intro pre t hl hI
    rw [List.forM_cons, wp_bind]
    refine (hstep pre a post t hl hI).mono (fun _ t' hI' => ?_) (fun _ _ h => h)
    exact ih (pre ++ [a]) t' (by rw [hl]; simp) hI'

/-- A loop whose body keeps an invariant at every element keeps it. -/
theorem wp_forM_inv {l : List α} {f : α → EStateM ε σ PUnit} {I : σ → Prop} {E : ε → σ → Prop}
    {s : σ} (h0 : I s) (hstep : ∀ a ∈ l, ∀ t, I t → wp (f a) (fun _ => I) E t) :
    wp (forM l f) (fun _ => I) E s :=
  wp_forM (I := fun _ => I) h0 fun pre a post t hl hI => hstep a (by rw [hl]; simp) t hI

/-- The rule of a loop that collects results. -/
theorem wp_mapM {l : List α} {f : α → EStateM ε σ β} {I : List α → List β → σ → Prop}
    {E : ε → σ → Prop} {s : σ} (h0 : I [] [] s)
    (hstep : ∀ pre a post r t, l = pre ++ a :: post → I pre r t →
      wp (f a) (fun b => I (pre ++ [a]) (r ++ [b])) E t) :
    wp (l.mapM f) (fun r => I l r) E s := by
  suffices h : ∀ (post pre : List α) (r : List β) (t : σ), l = pre ++ post → I pre r t →
      wp (post.mapM f) (fun r' => I l (r ++ r')) E t from h l [] [] s rfl h0
  intro post
  induction post with
  | nil =>
    intro pre r t hl hI
    rw [List.append_nil] at hl
    subst hl
    rw [List.mapM_nil, wp_pure, List.append_nil]
    exact hI
  | cons a post ih =>
    intro pre r t hl hI
    rw [List.mapM_cons, wp_bind]
    refine (hstep pre a post r t hl hI).mono (fun b t' hI' => ?_) (fun _ _ h => h)
    rw [wp_bind]
    refine (ih (pre ++ [a]) (r ++ [b]) t' (by rw [hl]; simp) hI').mono (fun r' t'' h => ?_) fun _ _ h => h
    rw [List.append_assoc] at h
    exact h

/-- What the body keeps whenever it returns, a loop that returns keeps. -/
theorem forM_ok_inv {l : List α} {f : α → EStateM ε σ PUnit} {I : σ → Prop} {s s' : σ} {u : PUnit}
    (h : (forM l f).run s = .ok u s') (h0 : I s)
    (hstep : ∀ a ∈ l, ∀ t t', I t → (f a).run t = .ok ⟨⟩ t' → I t') : I s' := by
  have hloop := wp_forM_inv (E := fun _ _ => True) h0 fun a ha t ht =>
    wp_of_ok fun _ t' hrun => hstep a ha t t' ht hrun
  exact hloop.ok h

/-- A loop over elements at which the body does nothing does nothing. -/
theorem forM_eq_ok {l : List α} {f : α → EStateM ε σ PUnit} {s : σ}
    (h : ∀ a ∈ l, (f a).run s = .ok ⟨⟩ s) : (forM l f).run s = .ok ⟨⟩ s := by
  induction l with
  | nil => rfl
  | cons a l ih =>
    rw [List.forM_cons, bind_of_ok (h a List.mem_cons_self)]
    exact ih fun b hb => h b (List.mem_cons_of_mem a hb)

theorem forM_cons_ok_iff {a : α} {l : List α} {f : α → EStateM ε σ PUnit} {s s' : σ} :
    (forM (a :: l) f).run s = .ok ⟨⟩ s' ↔ ∃ t, (f a).run s = .ok ⟨⟩ t ∧ (forM l f).run t = .ok ⟨⟩ s' := by
  rw [List.forM_cons, bind_ok_iff]
  constructor
  · rintro ⟨_, t, h, h'⟩; exact ⟨t, h, h'⟩
  · rintro ⟨t, h, h'⟩; exact ⟨⟨⟩, t, h, h'⟩

/-- In a loop that returns the body returns at every element. -/
theorem forM_ok_mem {l : List α} {f : α → EStateM ε σ PUnit} {s s' : σ} {u : PUnit}
    (h : (forM l f).run s = .ok u s') : ∀ a ∈ l, ∃ t t', (f a).run t = .ok ⟨⟩ t' := by
  induction l generalizing s with
  | nil => intro a ha; cases ha
  | cons b l ih =>
    obtain ⟨t, hb, hl⟩ := forM_cons_ok_iff.mp h
    intro a ha
    rcases List.mem_cons.mp ha with rfl | ha
    · exact ⟨s, t, hb⟩
    · exact ih hl a ha

/-- A loop whose body returns just at the good elements, as long as it has returned so far. The
invariant is about the elements that are left. -/
theorem forM_returns_iff {l : List α} {f : α → EStateM ε σ PUnit} {I : List α → σ → Prop}
    {Good : α → Prop} {s : σ} (h0 : I l s)
    (hstep : ∀ a post t, I (a :: post) t → ((∃ t', (f a).run t = .ok ⟨⟩ t') ↔ Good a) ∧
      ∀ t', (f a).run t = .ok ⟨⟩ t' → I post t') :
    (∃ s', (forM l f).run s = .ok ⟨⟩ s') ↔ ∀ a ∈ l, Good a := by
  induction l generalizing s with
  | nil => exact iff_of_true ⟨s, rfl⟩ fun a ha => (nomatch ha)
  | cons a l ih =>
    obtain ⟨hgood, hnext⟩ := hstep a l s h0
    rw [List.forall_mem_cons, ← hgood]
    constructor
    · rintro ⟨s', h⟩
      obtain ⟨t, ha, hl⟩ := forM_cons_ok_iff.mp h
      exact ⟨⟨t, ha⟩, (ih (hnext t ha)).mp ⟨s', hl⟩⟩
    · rintro ⟨⟨t, ha⟩, hall⟩
      obtain ⟨s', hl⟩ := (ih (hnext t ha)).mpr hall
      exact ⟨s', forM_cons_ok_iff.mpr ⟨t, ha, hl⟩⟩

theorem forM_flatMap {β : Type} (l : List α) (g : α → List β) (f : β → EStateM ε σ PUnit) :
    forM (l.flatMap g) f = forM l fun a => forM (g a) f := by
  induction l with
  | nil => rfl
  | cons a l ih => rw [List.flatMap_cons, List.forM_append, ih, List.forM_cons]

end Py
