import Mathlib

/-!
# Chunks of a list

`chunks n xs` cuts a list into pieces of `n` elements; only the last may be shorter.
-/

namespace Codeclew

variable {α : Type*}

/-- The pieces of `n` elements of a list, in order. -/
def chunks (n : ℕ) (xs : List α) : List (List α) :=
  (List.range ((xs.length + n - 1) / n)).map fun i ↦ (xs.drop (i * n)).take n

end Codeclew
