import Mathlib

/-!
# Entries by key, least owner first

Owners, in a linear order, each hold a list of entries; an entry has a key and a value. Several
entries may have one key. The *winner* of a key is the first entry with that key of the least owner
that has one, and an index of the contents knows the winner of every key. `Agree` says that entries
with one key have one value.

An index can be kept up to date by offering new entries one at a time, whatever the order of their
owners: the new entry replaces the indexed one exactly when its owner is smaller.
`Indexes.offer_keep` and `Indexes.offer_replace` are the two cases of that step, and
`Indexes.agree_offer_iff` says when it leaves the values in agreement.
-/

namespace Codeclew.OwnerIndex

variable {O K V E : Type} [LinearOrder O] [DecidableEq K] (key : E → K) (val : E → V)

/-- The entry `e` of owner `o` is the winner of the key `k`. -/
def Winner (contents : O → List E) (k : K) (o : O) (e : E) : Prop :=
  (contents o).find? (fun e ↦ key e = k) = some e ∧ ∀ o' < o, ∀ e' ∈ contents o', key e' ≠ k

/-- The index knows the winner of every key, and nothing for a key without entries. -/
structure Indexes (index : K → Option (O × E)) (contents : O → List E) : Prop where
  winner : ∀ {k o e}, index k = some (o, e) → Winner key contents k o e
  absent : ∀ {k}, index k = none → ∀ o, ∀ e ∈ contents o, key e ≠ k

/-- Entries with one key have one value. -/
def Agree (contents : O → List E) : Prop :=
  ∀ o, ∀ e ∈ contents o, ∀ o', ∀ e' ∈ contents o', key e = key e' → val e = val e'

/-- The contents after the owner took one more entry, at the end of its list. -/
def offer (contents : O → List E) (o : O) (e : E) : O → List E :=
  Function.update contents o (contents o ++ [e])

variable {key val} {contents : O → List E} {index : K → Option (O × E)} {k : K} {o o' : O}
  {e e' : E}

omit [DecidableEq K] in
theorem mem_offer_iff : e' ∈ offer contents o e o' ↔ e' ∈ contents o' ∨ (o' = o ∧ e' = e) := by
  rw [offer]
  by_cases h : o' = o
  · subst h
    simp
  · simp [h]

namespace Winner

section

variable (h : Winner key contents k o e)
include h

theorem mem : e ∈ contents o := List.mem_of_find?_eq_some h.1

theorem key_eq : key e = k := by
  simpa using List.find?_some h.1

theorem le_owner (he : e' ∈ contents o') (hk : key e' = k) :
    o ≤ o' :=
  not_lt.mp fun hlt ↦ h.2 o' hlt e' he hk

/-- A key has one winner. -/
theorem unique (h' : Winner key contents k o' e') :
    o = o' ∧ e = e' := by
  obtain rfl : o = o' := le_antisymm (h.le_owner h'.mem h'.key_eq) (h'.le_owner h.mem h.key_eq)
  exact ⟨rfl, Option.some.inj (h.1.symm.trans h'.1)⟩

/-- A winner stays the winner when an entry with another key, or of no smaller owner, arrives. -/
theorem offer (hle : key e' = k → o ≤ o') :
    Winner key (offer contents o' e') k o e := by
  constructor
  · rw [OwnerIndex.offer]
    by_cases ho : o = o'
    · subst ho
      rw [Function.update_self, List.find?_append, h.1, Option.some_or]
    · rw [Function.update_of_ne ho, h.1]
  · intro o₁ hlt e₁ he₁ hk₁
    rcases mem_offer_iff.mp he₁ with he₁ | ⟨rfl, rfl⟩
    · exact h.2 o₁ hlt e₁ he₁ hk₁
    · exact absurd (hle hk₁) (not_le.mpr hlt)

end

end Winner

namespace Indexes

theorem empty : Indexes key (fun _ ↦ none) (fun _ : O ↦ ([] : List E)) :=
  ⟨nofun, fun _ _ ↦ nofun⟩

section

variable (h : Indexes key index contents)
include h

theorem eq_some_iff :
    index k = some (o, e) ↔ Winner key contents k o e := by
  refine ⟨h.winner, fun hw ↦ ?_⟩
  cases hi : index k with
  | none => exact absurd hw.key_eq (h.absent hi o e hw.mem)
  | some p =>
    obtain ⟨rfl, rfl⟩ := (h.winner (o := p.1) (e := p.2) hi).unique hw
    rfl

/-- Contents have one index. -/
theorem unique {index' : K → Option (O × E)} (h' : Indexes key index' contents) :
    index = index' := by
  funext k
  refine Option.ext fun p ↦ ?_
  rw [show p = (p.1, p.2) from rfl, h.eq_some_iff, h'.eq_some_iff]

theorem offer_keep (hi : index (key e) = some (o', e')) (hle : o' ≤ o) :
    Indexes key index (offer contents o e) := by
  constructor
  · intro k o₁ e₁ h₁
    refine (h.winner h₁).offer fun hk ↦ ?_
    rw [hk, h₁] at hi
    obtain ⟨rfl, rfl⟩ := Prod.mk.inj (Option.some.inj hi)
    exact hle
  · intro k hk o₁ e₁ he₁ hk₁
    rcases mem_offer_iff.mp he₁ with he₁ | ⟨rfl, rfl⟩
    · exact h.absent hk o₁ e₁ he₁ hk₁
    · rw [hk₁, hk] at hi
      cases hi

theorem offer_replace (hlt : ∀ o' e', index (key e) = some (o', e') → o < o') :
    Indexes key (Function.update index (key e) (some (o, e))) (offer contents o e) := by
  -- no owner up to `o` has an entry with this key yet
  have hnew : ∀ o' ≤ o, ∀ e' ∈ contents o', key e' ≠ key e := by
    intro o' ho' e' he' hk
    cases hi : index (key e) with
    | none => exact h.absent hi o' e' he' hk
    | some p =>
      have hlt' := hlt p.1 p.2 hi
      have hle := (h.winner (o := p.1) (e := p.2) hi).le_owner he' hk
      exact absurd (hlt'.trans_le hle) (not_lt.mpr ho')
  constructor
  · intro k o₁ e₁ h₁
    by_cases hk : k = key e
    · subst hk
      rw [Function.update_self] at h₁
      obtain ⟨rfl, rfl⟩ := Prod.mk.inj (Option.some.inj h₁)
      constructor
      · have hnone : (contents o).find? (fun e' ↦ decide (key e' = key e)) = none := by
          rw [List.find?_eq_none]
          intro e' he'
          simpa using hnew o le_rfl e' he'
        rw [offer, Function.update_self, List.find?_append, hnone]
        simp
      · intro o' ho' e' he'
        rcases mem_offer_iff.mp he' with he' | ⟨rfl, -⟩
        · exact hnew o' ho'.le e' he'
        · exact absurd ho' (lt_irrefl _)
    · rw [Function.update_of_ne hk] at h₁
      exact (h.winner h₁).offer fun hk' ↦ absurd hk'.symm hk
  · intro k hk o₁ e₁ he₁ hk₁
    by_cases hke : k = key e
    · subst hke
      rw [Function.update_self] at hk
      cases hk
    · rw [Function.update_of_ne hke] at hk
      rcases mem_offer_iff.mp he₁ with he₁ | ⟨rfl, rfl⟩
      · exact h.absent hk o₁ e₁ he₁ hk₁
      · exact hke hk₁.symm

/-- A new entry keeps the values in agreement exactly when it agrees with the indexed one. -/
theorem agree_offer_iff (ha : Agree key val contents) :
    Agree key val (offer contents o e) ↔
      ∀ o' e', index (key e) = some (o', e') → val e' = val e := by
  constructor
  · intro ha' o' e' hi
    have hw := h.winner hi
    exact ha' o' e' (mem_offer_iff.mpr (.inl hw.mem)) o e (mem_offer_iff.mpr (.inr ⟨rfl, rfl⟩))
      hw.key_eq
  · intro hi
    -- every old entry with the key of the new one has the value of the indexed entry
    have hold : ∀ o₁, ∀ e₁ ∈ contents o₁, key e₁ = key e → val e₁ = val e := by
      intro o₁ e₁ he₁ hk₁
      cases hx : index (key e) with
      | none => exact absurd hk₁ (h.absent hx o₁ e₁ he₁)
      | some p =>
        have hw := h.winner (o := p.1) (e := p.2) hx
        exact (ha o₁ e₁ he₁ p.1 p.2 hw.mem (hk₁.trans hw.key_eq.symm)).trans (hi p.1 p.2 hx)
    intro o₁ e₁ he₁ o₂ e₂ he₂ hk
    rcases mem_offer_iff.mp he₁ with h₁ | ⟨-, h₁⟩ <;>
      rcases mem_offer_iff.mp he₂ with h₂ | ⟨-, h₂⟩
    · exact ha o₁ e₁ h₁ o₂ e₂ h₂ hk
    · rw [h₂] at hk ⊢
      exact hold o₁ e₁ h₁ hk
    · rw [h₁] at hk ⊢
      exact (hold o₂ e₂ h₂ hk.symm).symm
    · rw [h₁, h₂]

end

end Indexes

omit [LinearOrder O] [DecidableEq K] in
/-- Fewer entries agree the more. -/
theorem Agree.mono {contents' : O → List E} (h : Agree key val contents)
    (hsub : ∀ o, contents' o ⊆ contents o) : Agree key val contents' :=
  fun o e he o' e' he' hk ↦ h o e (hsub o he) o' e' (hsub o' he') hk

end Codeclew.OwnerIndex
