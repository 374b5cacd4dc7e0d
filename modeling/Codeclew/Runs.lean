import Mathlib

/-!
# Runs

The runs of a list are its longest pieces of consecutive elements that all have a property. What a
scanner finds in a list is what it finds in the runs, if it starts anew at every other element
(`eq_flatMap_runs`).
-/

namespace Codeclew

open List

variable {α β : Type} {p : α → Bool} {xs ys : List α} {y : α}

/-- The longest pieces of elements that have the property, in order. -/
def runs (p : α → Bool) (xs : List α) : List (List α) :=
  (xs.splitOnP fun x ↦ !p x).filter fun run ↦ !run.isEmpty

@[simp]
theorem runs_nil : runs p [] = [] := rfl

theorem runs_of_forall (h : ∀ x ∈ xs, p x = true) (hne : xs ≠ []) : runs p xs = [xs] := by
  have hsingle : xs.splitOnP (fun x ↦ !p x) = [xs] :=
    splitOnP_eq_singleton fun x hx ↦ by simp [h x hx]
  rw [runs, hsingle]
  simp [hne]

theorem runs_append_cons (h : ∀ x ∈ xs, p x = true) (hy : p y = false) :
    runs p (xs ++ y :: ys) = runs p xs ++ runs p ys := by
  have hword : ∀ x ∈ xs, (!p x) = false := fun x hx ↦ by simp [h x hx]
  rw [runs, splitOnP_append_cons_of_forall_mem hword y (by simp [hy]), runs, runs,
    splitOnP_eq_singleton hword, ← filter_append, singleton_append]

/-- A list is one piece with the property, or such a piece, an element without it and a list. -/
theorem runs_induction {motive : List α → Prop}
    (piece : ∀ xs, (∀ x ∈ xs, p x = true) → motive xs)
    (other : ∀ xs y ys, (∀ x ∈ xs, p x = true) → p y = false → motive ys → motive (xs ++ y :: ys))
    (xs : List α) : motive xs := by
  induction hn : xs.length using Nat.strong_induction_on generalizing xs with
  | _ n ih =>
    have hsplit : xs.takeWhile p ++ xs.dropWhile p = xs := takeWhile_append_dropWhile
    have hpiece : ∀ x ∈ xs.takeWhile p, p x = true := fun x hx ↦ mem_takeWhile_imp hx
    rcases hrest : xs.dropWhile p with _ | ⟨y, ys⟩
    · rw [hrest, append_nil] at hsplit
      exact piece xs (hsplit ▸ hpiece)
    · have hy : p y = false := by
        have hhead := head_dropWhile_not p (by simp [hrest] : xs.dropWhile p ≠ [])
        simpa [hrest] using hhead
      rw [hrest] at hsplit
      rw [← hsplit]
      refine other _ y ys hpiece hy (ih ys.length ?_ ys rfl)
      rw [← hn, ← hsplit, length_append, length_cons]
      omega

theorem eq_of_mem_runs {run : List α} (h : ∀ x ∈ xs, p x = true) (hrun : run ∈ runs p xs) :
    run = xs := by
  by_cases hne : xs = []
  · rw [hne] at hrun
    cases hrun
  · rw [runs_of_forall h hne] at hrun
    exact mem_singleton.mp hrun

theorem forall_of_mem_runs {run : List α} (h : run ∈ runs p xs) : ∀ x ∈ run, p x = true := by
  induction xs using runs_induction (p := p) with
  | piece xs hxs => rwa [eq_of_mem_runs hxs h]
  | other xs y ys hxs hy ih =>
    rw [runs_append_cons hxs hy] at h
    rcases mem_append.mp h with h | h
    · rwa [eq_of_mem_runs hxs h]
    · exact ih h

theorem length_le_of_mem_runs {run : List α} (h : run ∈ runs p xs) : run.length ≤ xs.length := by
  induction xs using runs_induction (p := p) with
  | piece xs hxs => rw [eq_of_mem_runs hxs h]
  | other xs y ys hxs hy ih =>
    rw [length_append, length_cons]
    rw [runs_append_cons hxs hy] at h
    rcases mem_append.mp h with h | h
    · rw [eq_of_mem_runs hxs h]
      omega
    · have := ih h
      omega

theorem ne_nil_of_mem_runs {run : List α} (h : run ∈ runs p xs) : run ≠ [] := by
  simpa using (mem_filter.mp h).2

/-- What starts anew at every element without the property is found in the runs. -/
theorem eq_flatMap_runs {f : List α → List β} (hnil : f [] = [])
    (hother : ∀ xs y ys, p y = false → f (xs ++ y :: ys) = f xs ++ f ys) (xs : List α) :
    f xs = (runs p xs).flatMap f := by
  have hpiece : ∀ xs : List α, (∀ x ∈ xs, p x = true) → f xs = (runs p xs).flatMap f := by
    intro xs hxs
    by_cases hne : xs = []
    · rw [hne, hnil, runs_nil, flatMap_nil]
    · rw [runs_of_forall hxs hne, flatMap_singleton]
  induction xs using runs_induction (p := p) with
  | piece xs hxs => exact hpiece xs hxs
  | other xs y ys hxs hy ih =>
    rw [hother xs y ys hy, runs_append_cons hxs hy, flatMap_append, ← hpiece xs hxs, ← ih]

end Codeclew
