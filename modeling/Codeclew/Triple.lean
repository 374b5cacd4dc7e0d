import Codeclew.Program

/-!
# Triples

`Spec P m Q E` says that the program `m`, run from a state with `P`, returns a value `a` in a state
with `Q a`, or fails in a state with `E`. `Keeps I m` is the case of an invariant, which holds after
a failure too. The rules follow the constructions of `Program`.
-/

namespace Codeclew.Program

open List

variable {σ τ ε α β : Type}

/-- An ending: a value and a state with `Q`, or an error and a state with `E`. -/
def Ends (Q : α → σ → Prop) (E : σ → Prop) : Except ε α × σ → Prop
  | (.ok a, s) => Q a s
  | (.error _, s) => E s

/-- From `P`, `m` returns with `Q` or fails with `E`. -/
def Spec (P : σ → Prop) (m : Program σ ε α) (Q : α → σ → Prop) (E : σ → Prop) : Prop :=
  ∀ s, P s → Ends Q E (m s)

/-- `m` leaves `I` true, whatever its outcome. -/
def Keeps (I : σ → Prop) (m : Program σ ε α) : Prop := Spec I m (fun _ ↦ I) I

variable {P I E : σ → Prop} {m : Program σ ε α} {Q : α → σ → Prop}

namespace Spec

theorem of_ok (h : Spec P m Q E) {s s' : σ} {a : α} (hm : m s = (.ok a, s')) (hP : P s) :
    Q a s' := by
  have := h s hP
  rwa [hm] at this

theorem pure {a : α} (h : ∀ s, P s → Q a s) : Spec P (pure a : Program σ ε α) Q E := h

theorem bind {R : β → σ → Prop} {f : α → Program σ ε β} (hm : Spec P m Q E)
    (hf : ∀ a, Spec (Q a) (f a) R E) : Spec P (m >>= f) R E := by
  intro s hP
  have h := hm s hP
  rw [bind_apply]
  rcases hs : m s with ⟨_ | a, s'⟩ <;> rw [hs] at h
  · exact h
  · exact hf a s' h

theorem weaken {P' : σ → Prop} {Q' : α → σ → Prop} {E' : σ → Prop} (h : Spec P m Q E)
    (hP : ∀ s, P' s → P s) (hQ : ∀ a s, Q a s → Q' a s) (hE : ∀ s, E s → E' s) :
    Spec P' m Q' E' := by
  intro s hs
  have hspec := h s (hP s hs)
  rcases hs' : m s with ⟨_ | a, s'⟩ <;> rw [hs'] at hspec
  · exact hE s' hspec
  · exact hQ a s' hspec

theorem pre {P' : σ → Prop} (h : Spec P m Q E) (hP : ∀ s, P' s → P s) : Spec P' m Q E :=
  h.weaken hP (fun _ _ ↦ id) fun _ ↦ id

/-- A value that depends on nothing, and that it was there. -/
theorem lift {x : Except ε α} (hE : ∀ s, P s → E s) :
    Spec P (lift x : Program σ ε α) (fun a s ↦ x = .ok a ∧ P s) E := by
  intro s hP
  rw [lift_apply]
  rcases x with _ | a
  · exact hE s hP
  · exact ⟨rfl, hP⟩

theorem modify {f : σ → σ} {R : σ → Prop} (h : ∀ s, P s → R (f s)) :
    Spec P (modify f : Program σ ε Unit) (fun _ ↦ R) E := h

theorem require {p : Prop} [Decidable p] {e : ε} (hE : ∀ s, P s → ¬p → E s) :
    Spec P (require p e : Program σ ε Unit) (fun _ s ↦ p ∧ P s) E := by
  intro s hP
  rw [Program.require]
  by_cases hp : p
  · rw [if_pos hp]
    exact ⟨hp, hP⟩
  · rw [if_neg hp]
    exact hE s hP hp

theorem whenever {p : Prop} [Decidable p] {R : σ → Prop} {m : Program σ ε Unit}
    (hm : p → Spec P m (fun _ ↦ R) E) (hskip : ¬p → ∀ s, P s → R s) :
    Spec P (whenever p m) (fun _ ↦ R) E := by
  rw [Program.whenever]
  by_cases hp : p
  · rw [if_pos hp]
    exact hm hp
  · rw [if_neg hp]
    exact fun s hs ↦ hskip hp s hs

theorem collect {xs : List β} {f : β → Program σ ε α}
    (h : ∀ x ∈ xs, Spec I (f x) (fun _ ↦ I) E) : Spec I (collect xs f) (fun _ ↦ I) E := by
  induction xs with
  | nil => exact pure fun _ ↦ id
  | cons x xs ih =>
    refine (h x mem_cons_self).bind fun a ↦ ?_
    exact (ih fun y hy ↦ h y (mem_cons_of_mem _ hy)).bind fun as ↦
      pure fun _ ↦ id

/-- A fold over a list, with an invariant about the elements that came before. -/
theorem foldlM {γ : Type} {f : β → γ → Program σ ε β} {J : List γ → β → σ → Prop} {xs : List γ}
    {b : β} (h : ∀ before x after b, before ++ x :: after = xs →
      Spec (J before b) (f b x) (J (before ++ [x])) E) :
    Spec (J [] b) (xs.foldlM f b) (J xs) E := by
  suffices hrest : ∀ before after b, before ++ after = xs →
      Spec (J before b) (after.foldlM f b) (J xs) E from hrest [] xs b rfl
  intro before after
  induction after generalizing before with
  | nil =>
    rintro b rfl
    rw [append_nil]
    exact Spec.pure fun _ ↦ id
  | cons x after ih =>
    intro b hxs
    rw [foldlM_cons]
    refine (h before x after b hxs).bind fun b' ↦ ih (before ++ [x]) b' ?_
    rw [append_assoc, singleton_append, hxs]

end Spec

namespace Keeps

theorem of_run (h : ∀ s, I s → I (m s).2) : Keeps I m := by
  intro s hs
  have hend := h s hs
  rcases hm : m s with ⟨_ | _, s'⟩ <;> rw [hm] at hend <;> exact hend

/-- The invariant at the end of a run. -/
theorem run (h : Keeps I m) {s : σ} (hs : I s) : I (m s).2 := by
  have hspec := h s hs
  rcases hm : m s with ⟨_ | a, s'⟩ <;> rw [hm] at hspec <;> exact hspec

end Keeps

end Codeclew.Program
