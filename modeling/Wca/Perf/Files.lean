import Mathlib.Logic.Function.Basic
import Wca.Perf.GroupRead

/-!
# Several files read in turn

The readers keep one file for every cpu, and for every PMU and cpu. A program `Reads` some of the
files when it returns, leaves the rest of each of them and does not touch another; a loop of such
programs over different files reads them all (`Reads.foldlM`), and a loop that returns has run every
one of them on its own files as they were (`foldlM_ok_mem`).
-/

namespace Wca.Perf

open Py

variable {K ι α β : Type}

/-- Run a program on one file. -/
def onFile [DecidableEq K] (k : K) (x : EStateM Exc File α) : EStateM Exc (K → File) α :=
  zoom (fun files => files k) (fun file files => Function.update files k file) x

/-- The program raises nothing and reads the files `keys`, which have `rest` left. -/
def Reads (keys : List K) (rest : K → File) (files : K → File) (x : EStateM Exc (K → File) α)
    (Q : α → Prop) : Prop :=
  ∃ a files', x.run files = .ok a files' ∧ Q a ∧ (∀ k ∈ keys, files' k = rest k) ∧
    ∀ k ∉ keys, files' k = files k

/-- The program does not touch the other files. -/
def Frames (keys : List K) (x : EStateM Exc (K → File) α) : Prop :=
  ∀ files a files', x.run files = .ok a files' → ∀ k ∉ keys, files' k = files k

theorem onFile_reads [DecidableEq K] {k : K} {x : EStateM Exc File α} {files rest : K → File}
    {a : α} (h : x.run (files k) = .ok a (rest k)) : Reads [k] rest files (onFile k x) (· = a) := by
  refine ⟨a, Function.update files k (rest k), zoom_ok_iff.mpr ⟨_, h, rfl⟩, rfl, ?_, ?_⟩
  · intro k' hk
    obtain rfl := List.mem_singleton.mp hk
    exact Function.update_self ..
  · intro k' hk
    exact Function.update_of_ne (fun heq => hk (List.mem_singleton.mpr heq)) ..

theorem onFile_frames [DecidableEq K] {k : K} {x : EStateM Exc File α} :
    Frames [k] (onFile k x) := by
  intro files a files' h k' hk
  obtain ⟨file, -, rfl⟩ := zoom_ok_iff.mp h
  exact Function.update_of_ne (fun heq => hk (List.mem_singleton.mpr heq)) ..

section Frames

variable {keys : List K}

theorem frames_liftExcept {x : Except Exc α} : Frames keys (Py.liftExcept x) := by
  intro files a files' h k _
  rw [(liftExcept_ok_iff.mp h).2]

theorem frames_pure {a : α} : Frames keys (pure a) := by
  intro files b files' h k _
  cases h
  rfl

theorem Frames.bind {x : EStateM Exc (K → File) α} {f : α → EStateM Exc (K → File) β}
    (hx : Frames keys x) (hf : ∀ a, Frames keys (f a)) : Frames keys (x >>= f) := by
  intro files b files'' h k hk
  obtain ⟨a, files', hrun, hrest⟩ := bind_ok_iff.mp h
  rw [hf a files' b files'' hrest k hk, hx files a files' hrun k hk]

theorem Frames.foldlM {l : List ι} {step : β → ι → EStateM Exc (K → File) β}
    (h : ∀ b, ∀ x ∈ l, Frames keys (step b x)) (b : β) : Frames keys (l.foldlM step b) := by
  induction l generalizing b with
  | nil => exact frames_pure
  | cons x l ih =>
    rw [List.foldlM_cons]
    exact (h b x List.mem_cons_self).bind fun b' => ih (fun b y hy => h b y (.tail _ hy)) b'

theorem Frames.mono {keys' : List K} {x : EStateM Exc (K → File) α} (h : Frames keys x)
    (hsub : ∀ k ∈ keys, k ∈ keys') : Frames keys' x :=
  fun files a files' hrun k hk => h files a files' hrun k fun hmem => hk (hsub k hmem)

end Frames

section Loops

variable {l : List ι} {keys : ι → List K} {step : β → ι → EStateM Exc (K → File) β}

/-- The programs of a loop read different files. -/
def Apart (keys : ι → List K) (l : List ι) : Prop :=
  l.Pairwise fun x y => ∀ k ∈ keys x, k ∉ keys y

theorem Reads.bind {keys : List K} {rest files : K → File} {x : EStateM Exc (K → File) α}
    {f : α → EStateM Exc (K → File) β} {Q : α → Prop} {Q' : β → Prop}
    (hx : Reads keys rest files x Q)
    (hf : ∀ a files', Q a → ∃ b, (f a).run files' = .ok b files' ∧ Q' b) :
    Reads keys rest files (x >>= f) Q' := by
  obtain ⟨a, files', hrun, ha, hrest, hothers⟩ := hx
  obtain ⟨b, hb, hb'⟩ := hf a files' ha
  exact ⟨b, files', by rw [bind_of_ok hrun, hb], hb', hrest, hothers⟩

theorem Reads.mono {keys : List K} {rest files : K → File} {x : EStateM Exc (K → File) α}
    {Q Q' : α → Prop} (h : Reads keys rest files x Q) (hQ : ∀ a, Q a → Q' a) :
    Reads keys rest files x Q' := by
  obtain ⟨a, files', hrun, ha, hfiles⟩ := h
  exact ⟨a, files', hrun, hQ a ha, hfiles⟩

/-- The run lemma of the loops: `I` holds of the part of the list that was read. -/
theorem Reads.foldlM {I : List ι → β → Prop} {full rest : K → File} {pre : List ι} {b : β}
    {files : K → File} (hapart : Apart keys l)
    (hstep : ∀ pre b files, ∀ x ∈ l, I pre b → (∀ k ∈ keys x, files k = full k) →
      Reads (keys x) rest files (step b x) (I (pre ++ [x])))
    (hI : I pre b) (hfull : ∀ x ∈ l, ∀ k ∈ keys x, files k = full k) :
    Reads (l.flatMap keys) rest files (l.foldlM step b) (I (pre ++ l)) := by
  induction l generalizing pre b files with
  | nil => exact ⟨b, files, rfl, by simpa using hI, fun k hk => (nomatch hk), fun _ _ => rfl⟩
  | cons x l ih =>
    obtain ⟨hx, hapart⟩ := List.pairwise_cons.mp hapart
    obtain ⟨b', files', hrun, hI', hrest, hothers⟩ :=
      hstep pre b files x List.mem_cons_self hI (hfull x List.mem_cons_self)
    have hfull' : ∀ y ∈ l, ∀ k ∈ keys y, files' k = full k := fun y hy k hk => by
      rw [hothers k fun hmem => hx y hy k hmem hk]
      exact hfull y (.tail _ hy) k hk
    obtain ⟨b'', files'', hrun', hI'', hrest', hothers'⟩ :=
      ih hapart (fun pre b files y hy => hstep pre b files y (.tail _ hy)) hI' hfull'
    refine ⟨b'', files'', ?_, by simpa using hI'', fun k hk => ?_, fun k hk => ?_⟩
    · rw [List.foldlM_cons, bind_of_ok hrun]
      exact hrun'
    · by_cases hl : k ∈ l.flatMap keys
      · exact hrest' k hl
      · rw [List.flatMap_cons, List.mem_append] at hk
        rw [hothers' k hl, hrest k (hk.resolve_right hl)]
    · rw [List.flatMap_cons, List.mem_append, not_or] at hk
      rw [hothers' k hk.2, hothers k hk.1]

/-- A loop that returns has run each program on its own files as they were. -/
theorem foldlM_ok_mem {b r : β} {files files' : K → File} (hapart : Apart keys l)
    (hframes : ∀ b, ∀ x ∈ l, Frames (keys x) (step b x))
    (h : (l.foldlM step b).run files = .ok r files') : ∀ x ∈ l, ∃ b₁ files₁ b₂ files₂,
      (∀ k ∈ keys x, files₁ k = files k) ∧ (step b₁ x).run files₁ = .ok b₂ files₂ := by
  induction l generalizing b files with
  | nil => exact fun x hx => (nomatch hx)
  | cons y l ih =>
    obtain ⟨hy, hapart⟩ := List.pairwise_cons.mp hapart
    rw [List.foldlM_cons] at h
    obtain ⟨b', files'', hrun, hrest⟩ := bind_ok_iff.mp h
    intro x hx
    obtain rfl | hx := List.mem_cons.mp hx
    · exact ⟨b, files, b', files'', fun _ _ => rfl, hrun⟩
    · obtain ⟨b₁, files₁, b₂, files₂, hsame, hstep⟩ :=
        ih hapart (fun b z hz => hframes b z (.tail _ hz)) hrest x hx
      refine ⟨b₁, files₁, b₂, files₂, fun k hk => ?_, hstep⟩
      rw [hsame k hk, hframes b y List.mem_cons_self files b' files'' hrun k
        fun hmem => hy x hx k hmem hk]

end Loops

end Wca.Perf
