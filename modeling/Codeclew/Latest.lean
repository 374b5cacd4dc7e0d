import Mathlib

/-!
# The latest of each key

Elements have a key and a rank. A table that keeps an element of highest rank under each key can be
built one element at a time, in any order and with repetitions: what it holds depends on the set of
elements only, as soon as no two of them share both key and rank.
-/

namespace Codeclew.Latest

variable {κ α ρ : Type} [LinearOrder ρ] (key : α → κ) (rank : α → ρ)

/-- A table holds, under each key, an element of `s` of highest rank. -/
structure IsLatest (s : Set α) (table : κ → Option α) : Prop where
  mem : ∀ k a, table k = some a → a ∈ s ∧ key a = k
  le : ∀ a ∈ s, ∃ b, table (key a) = some b ∧ rank a ≤ rank b

variable {key rank} {s t : Set α} {table table' : κ → Option α} {a : α} {k : κ}

theorem isLatest_empty : IsLatest key rank ∅ fun _ ↦ none := ⟨nofun, nofun⟩

section

variable (h : IsLatest key rank s table)
include h

/-- An element that is not above what its key has changes nothing. -/
theorem IsLatest.insert_of_le {b : α} (hb : table (key a) = some b) (hle : rank a ≤ rank b) :
    IsLatest key rank (insert a s) table where
  mem k c hc := ⟨Set.mem_insert_of_mem _ (h.mem k c hc).1, (h.mem k c hc).2⟩
  le c hc := by
    obtain rfl | hc := Set.mem_insert_iff.mp hc
    · exact ⟨b, hb, hle⟩
    · exact h.le c hc

/-- An element above what its key has takes its place. -/
theorem IsLatest.insert_update [DecidableEq κ] (ha : ∀ b ∈ table (key a), rank b ≤ rank a) :
    IsLatest key rank (insert a s) (Function.update table (key a) (some a)) where
  mem k c hc := by
    rw [Function.update_apply] at hc
    split_ifs at hc with hk
    · obtain rfl := Option.some.inj hc
      exact ⟨Set.mem_insert _ _, hk.symm⟩
    · exact ⟨Set.mem_insert_of_mem _ (h.mem k c hc).1, (h.mem k c hc).2⟩
  le c hc := by
    by_cases hkey : key c = key a
    · refine ⟨a, by rw [hkey, Function.update_self], ?_⟩
      obtain rfl | hc := Set.mem_insert_iff.mp hc
      · exact le_rfl
      · obtain ⟨b, hb, hle⟩ := h.le c hc
        exact hle.trans (ha b (hkey ▸ hb))
    · obtain rfl | hc := Set.mem_insert_iff.mp hc
      · exact absurd rfl hkey
      · obtain ⟨b, hb, hle⟩ := h.le c hc
        exact ⟨b, by rw [Function.update_of_ne hkey, hb], hle⟩

/-- More elements never lower a rank. -/
theorem IsLatest.rank_le (h' : IsLatest key rank t table') (hst : s ⊆ t) (ha : table k = some a) :
    ∃ b, table' k = some b ∧ rank a ≤ rank b := by
  obtain ⟨hmem, rfl⟩ := h.mem k a ha
  exact h'.le a (hst hmem)

/-- With different ranks under a key, the table is determined by the set. -/
theorem IsLatest.eq_some_iff (hinj : ∀ a ∈ s, ∀ b ∈ s, key a = key b → rank a = rank b → a = b) :
    table k = some a ↔ a ∈ s ∧ key a = k ∧ ∀ b ∈ s, key b = k → rank b ≤ rank a := by
  constructor
  · intro ha
    obtain ⟨hmem, hkey⟩ := h.mem k a ha
    refine ⟨hmem, hkey, ?_⟩
    rintro b hb rfl
    obtain ⟨c, hc, hle⟩ := h.le b hb
    obtain rfl := Option.some.inj (ha.symm.trans hc)
    exact hle
  · rintro ⟨hmem, rfl, hhighest⟩
    obtain ⟨b, hb, hle⟩ := h.le a hmem
    obtain ⟨hmem', hkey⟩ := h.mem _ b hb
    rw [hb, hinj b hmem' a hmem hkey (le_antisymm (hhighest b hmem' hkey) hle)]

end

end Codeclew.Latest
