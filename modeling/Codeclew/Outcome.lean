import Codeclew.Program

/-!
# Outcomes of fallible computations

`Outcome P R x` says that `x` returns a value with `P`, or fails with an error that has `R`. It is
for computations of which it matters why they fail.
-/

namespace Codeclew

variable {ε α β : Type}

/-- A value with `P`, or an error with `R`. -/
inductive Outcome (P : α → Prop) (R : ε → Prop) : Except ε α → Prop
  | ok {a : α} : P a → Outcome P R (.ok a)
  | error {e : ε} : R e → Outcome P R (.error e)

namespace Outcome

variable {P P' : α → Prop} {Q : β → Prop} {R R' : ε → Prop} {x : Except ε α}

theorem pure {a : α} (h : P a) : Outcome P R (pure a : Except ε α) := .ok h

theorem throw {e : ε} (h : R e) : Outcome P R (throw e : Except ε α) := .error h

theorem of_ok (h : Outcome P R x) {a : α} (hx : x = .ok a) : P a := by
  subst hx
  cases h with
  | ok h => exact h

theorem exists_ok (h : Outcome P (fun _ ↦ False) x) : ∃ a, x = .ok a ∧ P a := by
  cases h with
  | ok h => exact ⟨_, rfl, h⟩
  | error h => exact h.elim

theorem bind {f : α → Except ε β} (hx : Outcome P R x) (hf : ∀ a, P a → Outcome Q R (f a)) :
    Outcome Q R (x >>= f) := by
  cases hx with
  | error he => exact .error he
  | ok ha => exact hf _ ha

theorem mono (h : Outcome P R x) (hP : ∀ a, P a → P' a) (hR : ∀ e, R e → R' e) :
    Outcome P' R' x := by
  cases h with
  | error he => exact .error (hR _ he)
  | ok ha => exact .ok (hP _ ha)

/-- What is known of the value anyway. -/
theorem and_of_ok (h : Outcome P R x) (hok : ∀ a, x = .ok a → P' a) :
    Outcome (fun a ↦ P' a ∧ P a) R x := by
  cases h with
  | error he => exact .error he
  | ok ha => exact .ok ⟨hok _ rfl, ha⟩

theorem ensure {p : Prop} [Decidable p] {e : ε} (h : ¬p → R e) :
    Outcome (fun _ ↦ p) R (ensure p e) := by
  rw [Codeclew.ensure]
  split
  · exact .ok ‹p›
  · exact .error (h ‹¬p›)

/-- A loop, with what holds after the elements it has gone through. -/
theorem foldlM {I : List α → β → Prop} {f : β → α → Except ε β} {xs : List α} {b : β}
    (hstep : ∀ seen a rest b, xs = seen ++ a :: rest → I seen b →
      Outcome (I (seen ++ [a])) R (f b a)) (hb : I [] b) :
    Outcome (I xs) R (xs.foldlM f b) := by
  have hrest : ∀ rest seen b, xs = seen ++ rest → I seen b →
      Outcome (I xs) R (rest.foldlM f b) := by
    intro rest
    induction rest with
    | nil =>
      intro seen b hxs hb
      rw [List.append_nil] at hxs
      exact .pure (hxs ▸ hb)
    | cons a rest ih =>
      intro seen b hxs hb
      rw [List.foldlM_cons]
      exact (hstep seen a rest b hxs hb).bind fun c hc ↦ ih (seen ++ [a]) c (by simpa using hxs) hc
  exact hrest xs [] b rfl hb

end Outcome

end Codeclew
