import Mathlib

/-!
# Work lists

Three facts about loops that keep a list of pending indices. A loop that solves a system of
equations by raising one unknown at a time has, outside its list, only equations that hold:
`Settled`. It raises each unknown only as often as there are values above it, so all that can come
to its list is paid for in advance: `headroom`. A loop that visits what it has not visited yet ends,
because what is open costs more than what a visit can add to the list: `openCost`.
-/

namespace Codeclew.Worklist

/-! ## Equations -/

section Equations

variable {ι L : Type} [Preorder L] {F : ι → (ι → L) → L} {s s' : ι → L} {pending pending' : Set ι}

/-- Every equation outside the list holds, as an inequality. -/
def Settled (F : ι → (ι → L) → L) (pending : Set ι) (s : ι → L) : Prop :=
  ∀ i, i ∉ pending → F i s ≤ s i

/-- A larger assignment is settled if every index off its list either holds, or was off the old list
and reads nothing that has changed. -/
theorem Settled.of_le (h : Settled F pending s) (hle : s ≤ s')
    (hoff : ∀ i, i ∉ pending' → (i ∉ pending ∧ F i s' = F i s) ∨ F i s' ≤ s' i) :
    Settled F pending' s' := by
  intro i hi
  rcases hoff i hi with ⟨hold, heq⟩ | hholds
  · calc F i s' = F i s := heq
      _ ≤ s i := h i hold
      _ ≤ s' i := hle i
  · exact hholds

end Equations

/-! ## Heights -/

section Heights

variable {ι : Type} [DecidableEq ι] {items raised : Finset ι} {cost height height' : ι → ℕ}

/-- What can still come to a list, when an unknown that is raised puts its cost on the list. -/
def headroom (items : Finset ι) (cost height : ι → ℕ) : ℕ := ∑ i ∈ items, height i * cost i

/-- The unknowns that are raised pay for what they put on the list. -/
theorem sum_add_headroom_le (hsub : raised ⊆ items) (hle : ∀ i ∈ items, height' i ≤ height i)
    (hlt : ∀ i ∈ raised, height' i < height i) :
    ∑ i ∈ raised, cost i + headroom items cost height' ≤ headroom items cost height := by
  have hraised : ∑ i ∈ raised, cost i = ∑ i ∈ items, if i ∈ raised then cost i else 0 := by
    rw [← Finset.sum_filter, Finset.filter_mem_eq_inter, Finset.inter_eq_right.mpr hsub]
  rw [hraised, headroom, headroom, ← Finset.sum_add_distrib]
  refine Finset.sum_le_sum fun i hi ↦ ?_
  split
  · rename_i hmem
    calc cost i + height' i * cost i = (height' i + 1) * cost i := by ring
      _ ≤ height i * cost i := Nat.mul_le_mul_right _ (hlt i hmem)
  · rw [Nat.zero_add]
    exact Nat.mul_le_mul_right _ (hle i hi)

end Heights

/-! ## Visits -/

section Visits

variable {α : Type} {items : List α} {cost : α → ℕ} {visited visited' : α → Bool}

/-- What the items that are not visited yet can add to a list, and one more for each of them. -/
def openCost (items : List α) (cost : α → ℕ) (visited : α → Bool) : ℕ :=
  ((items.filter fun x ↦ !visited x).map fun x ↦ cost x + 1).sum

theorem openCost_cons (x : α) (items : List α) :
    openCost (x :: items) cost visited
      = (if visited x then 0 else cost x + 1) + openCost items cost visited := by
  cases h : visited x <;> simp [openCost, h]

theorem openCost_le_of_imp (h : ∀ x, visited x = true → visited' x = true) :
    openCost items cost visited' ≤ openCost items cost visited := by
  induction items with
  | nil => exact le_rfl
  | cons x items ih =>
    rw [openCost_cons, openCost_cons]
    cases hx : visited x with
    | true => simpa [h x hx] using ih
    | false =>
      simp only [Bool.false_eq_true, if_false]
      split <;> omega

/-- A visit pays for what it adds to the list. -/
theorem openCost_visit (h : ∀ x, visited x = true → visited' x = true) {x : α} (hx : x ∈ items)
    (hopen : visited x = false) (hdone : visited' x = true) :
    openCost items cost visited' + (cost x + 1) ≤ openCost items cost visited := by
  induction items with
  | nil => cases hx
  | cons y items ih =>
    rw [openCost_cons, openCost_cons]
    rcases List.mem_cons.mp hx with rfl | hmem
    · have hrest : openCost items cost visited' ≤ openCost items cost visited :=
        openCost_le_of_imp h
      rw [hopen, hdone]
      simp only [if_true, Bool.false_eq_true, if_false]
      omega
    · have hrest := ih hmem
      cases hy : visited y with
      | true => simpa [h y hy] using hrest
      | false =>
        simp only [Bool.false_eq_true, if_false]
        split <;> omega

end Visits

end Codeclew.Worklist
