import Codeclew.Association

/-!
# Deltas of lists with keys

Who has a list of entries can be told a new list by what is different: the entries that are new or
changed, the keys that are gone, and the keys of the new list in order. `apply_eq_some_iff` says
when the new list results. What was left out of a delta because the list it was made from has it
must be in the list it is applied to, so a delta from another list than the one at hand may not do.
-/

namespace Codeclew

open Association List

/-- What makes a new list of an old one. -/
structure KeyedDelta (α κ : Type) where
  upserts : List α
  removals : List κ
  order : List κ

namespace KeyedDelta

variable {α κ : Type} [DecidableEq κ] (key : α → κ)

/-- The entries after the removals and the writes, in the order that the delta says; nothing, if one
of them is not there. -/
def apply (delta : KeyedDelta α κ) (held : List α) : Option (List α) :=
  let removed := delta.removals.foldl (fun entries k ↦ erase key k entries) held
  let entries := delta.upserts.foldl (fun entries a ↦ upsert key a entries) removed
  delta.order.mapM fun k ↦ find key k entries

/-- A delta that has all differences between two lists. -/
structure Between (delta : KeyedDelta α κ) (old new : List α) : Prop where
  mem_upserts_iff : ∀ a, a ∈ delta.upserts ↔ a ∈ new ∧ find key (key a) old ≠ some a
  removed : ∀ k ∈ delta.removals, k ∉ new.map key
  order_eq : delta.order = new.map key

variable {key}

theorem find_foldl_erase (k : κ) (removals : List κ) (entries : List α) :
    find key k (removals.foldl (fun entries k ↦ erase key k entries) entries) =
      if k ∈ removals then none else find key k entries := by
  induction removals generalizing entries with
  | nil => simp
  | cons k' removals ih =>
    rw [foldl_cons, ih, find_erase]
    by_cases hk : k = k'
    · simp [hk]
    · simp [hk]

/-- A key that is not written keeps its entry. -/
theorem find_foldl_upsert_of_notMem {k : κ} {upserts : List α} (h : k ∉ upserts.map key)
    (entries : List α) :
    find key k (upserts.foldl (fun entries a ↦ upsert key a entries) entries) =
      find key k entries := by
  induction upserts generalizing entries with
  | nil => rfl
  | cons a upserts ih =>
    rw [map_cons, mem_cons, not_or] at h
    rw [foldl_cons, ih h.2, find_upsert, if_neg h.1]

/-- A key has the entry that is written, if there is one. -/
theorem find_foldl_upsert_of_mem {a : α} {upserts : List α} (ha : a ∈ upserts)
    (hunique : ∀ b ∈ upserts, key b = key a → b = a) (entries : List α) :
    find key (key a) (upserts.foldl (fun entries a ↦ upsert key a entries) entries) = some a := by
  induction upserts using List.reverseRecOn with
  | nil => cases ha
  | append_singleton upserts b ih =>
    rw [foldl_append, foldl_cons, foldl_nil, find_upsert]
    split_ifs with hkey
    · rw [hunique b (by simp) hkey.symm]
    · rcases mem_append.mp ha with ha | ha
      · exact ih ha fun c hc ↦ hunique c (mem_append_left _ hc)
      · exact absurd (congrArg key (mem_singleton.mp ha)) hkey

theorem mapM_find_eq_some_iff {entries new : List α} :
    (new.map key).mapM (fun k ↦ find key k entries) = some new ↔
      ∀ a ∈ new, find key (key a) entries = some a := by
  induction new with
  | nil => simp
  | cons a new ih =>
    rw [map_cons, mapM_cons, forall_mem_cons, ← ih]
    rcases find key (key a) entries with _ | b
    · simp
    · rcases (new.map key).mapM fun k ↦ find key k entries with _ | bs
      · simp
      · simp

/-- A delta leads to the new list exactly from the lists that have what it leaves out. -/
theorem apply_eq_some_iff {delta : KeyedDelta α κ} {old new : List α}
    (h : delta.Between key old new) (hnew : Distinct key new) (held : List α) :
    delta.apply key held = some new ↔
      ∀ a ∈ new, find key (key a) old = some a → find key (key a) held = some a := by
  have hunique {a b : α} (ha : a ∈ new) (hb : b ∈ new) (hkey : key b = key a) : b = a :=
    inj_on_of_nodup_map hnew hb ha hkey
  rw [apply, h.order_eq, mapM_find_eq_some_iff]
  refine forall₂_congr fun a ha ↦ ?_
  by_cases hold : find key (key a) old = some a
  · have hnot : key a ∉ delta.upserts.map key := by
      intro hmem
      obtain ⟨b, hb, hkey⟩ := mem_map.mp hmem
      obtain ⟨hbnew, hbold⟩ := (h.mem_upserts_iff b).mp hb
      obtain rfl := hunique ha hbnew hkey
      exact hbold hold
    have hkept : key a ∉ delta.removals := fun hmem ↦ h.removed _ hmem (mem_map_of_mem ha)
    rw [find_foldl_upsert_of_notMem hnot, find_foldl_erase, if_neg hkept]
    exact ⟨fun hheld _ ↦ hheld, fun hheld ↦ hheld hold⟩
  · have hmem : a ∈ delta.upserts := (h.mem_upserts_iff a).mpr ⟨ha, hold⟩
    rw [find_foldl_upsert_of_mem hmem fun b hb hkey ↦
      hunique ha ((h.mem_upserts_iff b).mp hb).1 hkey]
    exact ⟨fun _ h ↦ absurd h hold, fun _ ↦ rfl⟩

end KeyedDelta

end Codeclew
