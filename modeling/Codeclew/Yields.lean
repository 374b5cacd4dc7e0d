import Mathlib

/-!
# Results of stateful computations

`Yields x P` says that the result of `x` has the property `P`, whatever state it starts in. It is
for computations whose state has no part in what is claimed of their results. `Retains P x` is about
the state alone: from a state with `P`, `x` ends in one. `foldl_iff` is for loops over a list that
collect what its elements bring.
-/

namespace Codeclew

open List

variable {σ α β : Type}

/-- From every state, the result has `P`. -/
def Yields (x : StateM σ α) (P : α → Prop) : Prop := ∀ s, P (x.run s).1

namespace Yields

variable {P : α → Prop}

theorem pure {a : α} (h : P a) : Yields (pure a : StateM σ α) P := fun _ ↦ h

variable {f : α → StateM σ β}

theorem bind {x : StateM σ α} {Q : β → Prop} (hx : Yields x P) (hf : ∀ a, P a → Yields (f a) Q) :
    Yields (x >>= f) Q :=
  fun s ↦ hf _ (hx s) _

/-- A step whose result is of no interest. -/
theorem skip {x : StateM σ α} {Q : β → Prop} (hf : ∀ a, Yields (f a) Q) :
    Yields (x >>= f) Q :=
  fun _ ↦ hf _ _

theorem ite {p : Prop} [Decidable p] {x y : StateM σ α} (hx : p → Yields x P)
    (hy : ¬p → Yields y P) :
    Yields (if p then x else y) P := by
  split
  · exact hx ‹_›
  · exact hy ‹_›

/-- What every element yields, the elements yield together. -/
theorem flatten_mapM {xs : List α} {f : α → StateM σ (List β)} {P : β → Prop}
    (h : ∀ x ∈ xs, Yields (f x) fun bs ↦ ∀ b ∈ bs, P b) :
    Yields (xs.mapM f) fun bss ↦ ∀ b ∈ bss.flatten, P b := by
  induction xs with
  | nil =>
    rw [mapM_nil]
    exact .pure (by simp)
  | cons x xs ih =>
    rw [mapM_cons]
    refine (h x mem_cons_self).bind fun bs hbs ↦ ?_
    refine (ih fun y hy ↦ h y (mem_cons_of_mem _ hy)).bind fun bss hbss ↦ .pure ?_
    intro b hb
    rcases mem_append.mp hb with hb | hb
    · exact hbs b hb
    · exact hbss b hb

end Yields

/-- From a state with `P`, the computation ends in one. -/
def Retains (P : σ → Prop) (x : StateM σ α) : Prop := ∀ s, P s → P (x.run s).2

namespace Retains

variable {P : σ → Prop}

theorem pure (a : α) : Retains P (pure a : StateM σ α) := fun _ h ↦ h

variable {f : α → StateM σ β}

theorem bind {x : StateM σ α} (hx : Retains P x) (hf : ∀ a, Retains P (f a)) :
    Retains P (x >>= f) :=
  fun s h ↦ hf _ _ (hx s h)

theorem ite {p : Prop} [Decidable p] {x y : StateM σ α} (hx : Retains P x) (hy : Retains P y) :
    Retains P (if p then x else y) := by
  split
  · exact hx
  · exact hy

theorem get : Retains P (get : StateM σ σ) := fun _ h ↦ h

theorem modify {f : σ → σ} (h : ∀ s, P s → P (f s)) : Retains P (modify f : StateM σ Unit) := h

theorem mapM {xs : List α} (h : ∀ x ∈ xs, Retains P (f x)) :
    Retains P (xs.mapM f) := by
  induction xs with
  | nil =>
    rw [mapM_nil]
    exact .pure _
  | cons x xs ih =>
    rw [mapM_cons]
    refine (h x mem_cons_self).bind fun b ↦ ?_
    exact (ih fun y hy ↦ h y (mem_cons_of_mem _ hy)).bind fun bs ↦ .pure _

end Retains

/-- If the state has `P` after a step exactly when it had it before or the element brings it, it has
`P` after the loop exactly when it had it before or one of the elements brings it. -/
theorem foldl_iff (P : σ → Prop) {f : σ → α → σ} {Q : α → Prop} (h : ∀ s a, P (f s a) ↔ P s ∨ Q a)
    (xs : List α) (s : σ) : P (xs.foldl f s) ↔ P s ∨ ∃ a ∈ xs, Q a := by
  induction xs generalizing s with
  | nil => simp
  | cons a xs ih => rw [foldl_cons, ih, h, or_assoc, exists_mem_cons_iff]

/-- Each step adds at most one. -/
theorem foldl_le (size : σ → ℕ) {f : σ → α → σ} (h : ∀ s a, size (f s a) ≤ size s + 1)
    (as : List α) (s : σ) : size (as.foldl f s) ≤ size s + as.length := by
  induction as generalizing s with
  | nil => exact le_rfl
  | cons a as ih =>
    have hstep := h s a
    have hrest := ih (f s a)
    rw [foldl_cons, length_cons]
    omega

end Codeclew
