import Mathlib

/-!
# Greedy cuts

A list is cut into numbered parts, each as long as a limit allows: a part is within the limit, and
with the first row of the next part it would not be. The length of a part may depend on its number.
A cut is built row by row: the row goes to the last part (`Greedy.extend`) or starts the next one
(`Greedy.next`).
-/

namespace Codeclew

open List

variable {ρ : Type} {len : ℕ → List ρ → ℕ} {limit : ℕ} {parts : List (List ρ)} {part : List ρ}
  {row : ρ}

/-- Parts that are within the limit, none of which could have taken the first row of the next. -/
structure Greedy (len : ℕ → List ρ → ℕ) (limit : ℕ) (parts : List (List ρ)) : Prop where
  nonempty : ∀ part ∈ parts, part ≠ []
  within : ∀ i part, parts[i]? = some part → len i part ≤ limit
  full : ∀ i part row next, parts[i]? = some part → parts[i + 1]? = some (row :: next) →
    limit < len i (part ++ [row])

namespace Greedy

theorem nil : Greedy len limit [] where
  nonempty := nofun
  within i part h := by simp at h
  full i part row next h := by simp at h

/-- A part at an index of a list with one more part is the last one or was there before. -/
theorem getElem?_concat {i : ℕ} {other : List ρ} (h : (parts ++ [part])[i]? = some other) :
    parts[i]? = some other ∨ (i = parts.length ∧ other = part) := by
  rcases Nat.lt_trichotomy i parts.length with hlt | rfl | hgt
  · rw [List.getElem?_append_left hlt] at h
    exact .inl h
  · rw [List.getElem?_append_right le_rfl] at h
    exact .inr ⟨rfl, by simpa using h.symm⟩
  · rw [List.getElem?_eq_none (by simpa using hgt)] at h
    cases h

theorem length_of_getElem? {i : ℕ} {other : List ρ} (h : parts[i]? = some other) :
    i < parts.length := (List.getElem?_eq_some_iff.mp h).1

/-- A further part, which the last one could not have begun. -/
theorem concat (h : Greedy len limit parts) (hpart : len parts.length (row :: part) ≤ limit)
    (hfull : ∀ i last, i + 1 = parts.length → parts[i]? = some last →
      limit < len i (last ++ [row])) : Greedy len limit (parts ++ [row :: part]) where
  nonempty := forall_mem_append.mpr
    ⟨h.nonempty, forall_mem_singleton.mpr (cons_ne_nil _ _)⟩
  within i other hother := by
    rcases getElem?_concat hother with hother | ⟨rfl, rfl⟩
    · exact h.within i other hother
    · exact hpart
  full i other row' next hother hnext := by
    rcases getElem?_concat hnext with hnext | ⟨hlast, heq⟩
    · have hlt := length_of_getElem? hnext
      rw [List.getElem?_append_left (by omega)] at hother
      exact h.full i other row' next hother hnext
    · obtain ⟨rfl, -⟩ := List.cons.inj heq
      rw [List.getElem?_append_left (by omega)] at hother
      exact hfull i other hlast hother

section

variable (h : Greedy len limit (parts ++ [part]))
include h

/-- Without its last part a cut is a cut. -/
theorem of_concat : Greedy len limit parts where
  nonempty other hother := h.nonempty other (mem_append_left _ hother)
  within i other hother := by
    refine h.within i other ?_
    rwa [List.getElem?_append_left (length_of_getElem? hother)]
  full i other row next hother hnext := by
    refine h.full i other row next ?_ ?_
    · rwa [List.getElem?_append_left (length_of_getElem? hother)]
    · rwa [List.getElem?_append_left (length_of_getElem? hnext)]

/-- The row goes to the last part. -/
theorem extend (hpart : len parts.length (part ++ [row]) ≤ limit) :
    Greedy len limit (parts ++ [part ++ [row]]) := by
  obtain ⟨first, rest, rfl⟩ := exists_cons_of_ne_nil
    (h.nonempty part (mem_append_right _ (mem_singleton_self part)))
  refine h.of_concat.concat hpart fun i last hi hlast ↦ h.full i last first rest ?_ ?_
  · rwa [List.getElem?_append_left (by omega)]
  · rw [hi, List.getElem?_append_right le_rfl]
    simp

/-- The row starts the next part. -/
theorem next (hfull : limit < len parts.length (part ++ [row]))
    (hrow : len (parts.length + 1) [row] ≤ limit) :
    Greedy len limit (parts ++ [part] ++ [[row]]) := by
  refine h.concat (by simpa using hrow) fun i last hi hlast ↦ ?_
  rcases getElem?_concat hlast with hlast | ⟨rfl, rfl⟩
  · have hlt := length_of_getElem? hlast
    rw [length_append, length_singleton] at hi
    omega
  · exact hfull

end

end Greedy

end Codeclew
