import Mathlib

/-!
# The best of a list

The first elements of a list in the order of a rank. An element is among the first `n` exactly if
fewer than `n` elements have a lower rank, which says when it is without sorting anything.
-/

namespace Codeclew.Ranking

open List

variable {α κ : Type} [LinearOrder κ] (rank : α → κ)

/-- The `n` elements with the lowest ranks, in order. -/
def best (n : ℕ) (xs : List α) : List α := (xs.insertionSort (rank · ≤ rank ·)).take n

/-- How many elements are before one. -/
def ahead (xs : List α) (a : α) : ℕ := xs.countP (rank · < rank a)

variable {rank}

instance total_rank : Std.Total (rank · ≤ rank · : α → α → Prop) :=
  ⟨fun a b ↦ le_total (rank a) (rank b)⟩

instance isTrans_rank : IsTrans α (rank · ≤ rank ·) := ⟨fun _ _ _ ↦ le_trans⟩

/-- In a list in order, the elements before one are those at the front. -/
theorem ahead_append_cons {xs ys : List α} {a : α}
    (h : (xs ++ a :: ys).Pairwise (rank · < rank ·)) :
    ahead rank (xs ++ a :: ys) a = xs.length := by
  obtain ⟨-, hcons, hcross⟩ := pairwise_append.mp h
  obtain ⟨hafter, -⟩ := pairwise_cons.mp hcons
  have hfront : xs.countP (rank · < rank a) = xs.length :=
    countP_eq_length.mpr fun x hx ↦ decide_eq_true (hcross x hx a mem_cons_self)
  have hback : (a :: ys).countP (rank · < rank a) = 0 := by
    refine countP_eq_zero.mpr fun y hy hlt ↦ ?_
    rcases mem_cons.mp hy with rfl | hy
    · exact lt_irrefl _ (of_decide_eq_true hlt)
    · exact lt_asymm (of_decide_eq_true hlt) (hafter y hy)
  rw [ahead, countP_append, hfront, hback, add_zero]

/-- With ranks that differ, the best are those with few ahead of them. -/
theorem mem_best_iff {n : ℕ} {xs : List α} (h : (xs.map rank).Nodup) {a : α} :
    a ∈ best rank n xs ↔ a ∈ xs ∧ ahead rank xs a < n := by
  have hperm := perm_insertionSort (rank · ≤ rank ·) xs
  have hnodup : ((xs.insertionSort (rank · ≤ rank ·)).map rank).Nodup :=
    (hperm.map rank).nodup_iff.mpr h
  have hsorted : (xs.insertionSort (rank · ≤ rank ·)).Pairwise (rank · < rank ·) := by
    refine (pairwise_insertionSort _ xs).imp₂ (fun a b hle hne ↦ lt_of_le_of_ne hle hne) ?_
    exact pairwise_map.mp hnodup
  have hahead : ahead rank xs a = ahead rank (xs.insertionSort (rank · ≤ rank ·)) a :=
    (hperm.countP_eq _).symm
  rw [best, hahead, ← hperm.mem_iff]
  constructor
  · intro hmem
    obtain ⟨front, back, hsplit⟩ := append_of_mem (mem_of_mem_take hmem)
    refine ⟨mem_of_mem_take hmem, ?_⟩
    rw [hsplit] at hsorted hmem ⊢
    rw [ahead_append_cons hsorted]
    by_contra hle
    rw [take_append_of_le_length (not_lt.mp hle)] at hmem
    have hcross := (pairwise_append.mp hsorted).2.2 a (mem_of_mem_take hmem) a
      mem_cons_self
    exact lt_irrefl _ hcross
  · rintro ⟨hmem, hlt⟩
    obtain ⟨front, back, hsplit⟩ := append_of_mem hmem
    rw [hsplit] at hsorted hlt ⊢
    rw [ahead_append_cons hsorted] at hlt
    obtain ⟨k, rfl⟩ := Nat.exists_eq_add_of_lt hlt
    rw [take_append, mem_append]
    right
    rw [show front.length + k + 1 - front.length = k + 1 by omega, take_succ_cons]
    exact mem_cons_self

theorem nodup_map_best {γ : Type} {f : α → γ} {n : ℕ} {xs : List α} (h : (xs.map f).Nodup) :
    ((best rank n xs).map f).Nodup := by
  have hperm := perm_insertionSort (rank · ≤ rank ·) xs
  exact (((take_sublist n _).map f).nodup ((hperm.map f).nodup_iff.mpr h))

end Codeclew.Ranking
