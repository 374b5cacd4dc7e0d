import Codeclew.Program

/-!
# Interactions

A caller whose next call may depend on the answers to the calls before, as a tree. It is run against
a handler that keeps a state. What every single call preserves, the whole run preserves, whatever
the caller does with the answers.
-/

namespace Codeclew

/-- A caller that makes calls `ι`, is given answers `ο`, and returns an `α`. -/
inductive Interaction (ι ο α : Type) where
  | done (a : α)
  | call (i : ι) (next : ο → Interaction ι ο α)

namespace Interaction

variable {ι α σ ε : Type}

/-- A run of a caller whose answers are results: an error is an answer like any other. -/
def run (handle : ι → Program σ ε Unit) : Interaction ι (Except ε Unit) α → σ → α × σ
  | done a, s => (a, s)
  | call i next, s => (next (handle i s).1).run handle (handle i s).2

/-- What holds at the start and is preserved by every call holds at the end. -/
theorem run_invariant {handle : ι → Program σ ε Unit} {I : σ → Prop}
    (h : ∀ i s, I s → I (handle i s).2) (caller : Interaction ι (Except ε Unit) α) {s : σ}
    (hs : I s) : I (caller.run handle s).2 := by
  induction caller generalizing s with
  | done a => exact hs
  | call i next ih => exact ih _ (h i s hs)

end Interaction

end Codeclew
