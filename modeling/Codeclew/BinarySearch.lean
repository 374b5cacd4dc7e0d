import Mathlib

/-!
# Binary search

The two searches of the standard library's slices. `partitionPoint xs p` halves the range until it
has found where `p` stops to hold; `binarySearchByKey xs key k` looks for an element with key `k`.
On a list that is partitioned, or sorted by the key, they do what a linear scan does.
-/

namespace Codeclew.BinarySearch

variable {α κ : Type*}

/-- Halve the range from `lo` to `hi`, to the right of the middle where `p` holds. The range has at
most `fuel` elements. -/
def bisect (p : ℕ → Bool) : (fuel lo hi : ℕ) → ℕ
  | 0, lo, _ => lo
  | fuel + 1, lo, hi =>
    if lo < hi then
      if p ((lo + hi) / 2) then bisect p fuel ((lo + hi) / 2 + 1) hi
      else bisect p fuel lo ((lo + hi) / 2)
    else lo

/-- The first position where `p` does not hold, in a list where it holds first and then no more. -/
def partitionPoint (xs : List α) (p : α → Bool) : ℕ :=
  bisect (fun i ↦ xs[i]?.any p) xs.length 0 xs.length

/-- The position of an element with key `k`, in a list sorted by its keys. -/
def binarySearchByKey [LinearOrder κ] (xs : List α) (key : α → κ) (k : κ) : Option ℕ :=
  let position := partitionPoint xs fun x ↦ key x < k
  if xs[position]?.map key = some k then some position else none

end Codeclew.BinarySearch
