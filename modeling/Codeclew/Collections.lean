import Mathlib

/-!
# Ordered collections

A set of elements that are told apart by a key is the list of its elements in the order of their
keys. Adding an element whose key is there already changes nothing, as with the ordered sets of the
standard library, so what such a set holds is best counted by keys.

Elements are grouped by a name into a map: each is added to the group of its name, which starts out
empty. A group is what adding the elements of its name one after the other gives.
-/

namespace Codeclew

open List

/-- Of elements that are all different some are left out exactly if there are fewer. -/
theorem length_lt_length_iff {α : Type} {xs ys : List α} (hxs : xs.Nodup) (hys : ys.Nodup)
    (hsub : ys ⊆ xs) : ys.length < xs.length ↔ ∃ x ∈ xs, x ∉ ys := by
  constructor
  · intro hlt
    by_contra hall
    push Not at hall
    exact hlt.not_ge (subperm_of_subset hxs hall).length_le
  · rintro ⟨x, hx, hnot⟩
    by_contra hge
    have hperm := (subperm_of_subset hys hsub).perm_of_length_le (not_lt.mp hge)
    exact hnot (hperm.mem_iff.mpr hx)

/-! ## Sets by key -/

namespace KeyedSet

variable {α κ : Type} [LinearOrder κ] (key : α → κ)

/-- In increasing order of keys, each key once. -/
def Ascending (xs : List α) : Prop := xs.Pairwise (key · < key ·)

/-- Add an element, unless one with its key is there. -/
def insert (a : α) : List α → List α
  | [] => [a]
  | b :: xs =>
    if key a < key b then a :: b :: xs
    else if key b < key a then b :: insert a xs
    else b :: xs

/-- Add elements one after the other. -/
def extend (set xs : List α) : List α := xs.foldl (fun set a ↦ insert key a set) set

/-- The elements of a list in order, the first of each key. -/
def ofList (xs : List α) : List α := extend key [] xs

/-- The keys of a list. -/
def keys (xs : List α) : Finset κ := (xs.map key).toFinset

variable {key}

variable {xs : List α}

theorem mem_keys {k : κ} : k ∈ keys key xs ↔ ∃ a ∈ xs, key a = k := by simp [keys]

@[simp] theorem keys_nil : keys key ([] : List α) = ∅ := rfl

@[simp] theorem keys_cons (a : α) (xs : List α) :
    keys key (a :: xs) = Insert.insert (key a) (keys key xs) := by
  simp [keys]

/-- An ordered list has as many elements as keys. -/
theorem Ascending.card_keys (h : Ascending key xs) :
    (keys key xs).card = xs.length := by
  rw [keys, toFinset_card_of_nodup, length_map]
  exact (pairwise_map.mpr h).imp ne_of_lt

/-- Ordered lists with the same elements are the same. -/
theorem Ascending.eq_of_mem_iff {xs ys : List α} (hx : Ascending key xs) (hy : Ascending key ys)
    (h : ∀ a, a ∈ xs ↔ a ∈ ys) : xs = ys := by
  have hnodup : ∀ {zs : List α}, Ascending key zs → zs.Nodup := fun hz ↦
    List.Pairwise.imp (fun hlt heq ↦ (heq ▸ hlt).false) hz
  refine ((perm_ext_iff_of_nodup (hnodup hx) (hnodup hy)).mpr h).eq_of_pairwise ?_ hx hy
  intro a b _ _ hab hba
  exact absurd hab hba.asymm

theorem mem_of_mem_insert {a x : α} (h : x ∈ insert key a xs) :
    x = a ∨ x ∈ xs := by
  induction xs with
  | nil => simpa [insert] using h
  | cons b xs ih =>
    rw [insert] at h
    split_ifs at h
    · simpa using h
    · rcases mem_cons.mp h with rfl | h
      · exact .inr mem_cons_self
      · exact (ih h).imp_right (mem_cons_of_mem _)
    · exact .inr h

theorem subset_insert (a : α) (xs : List α) : xs ⊆ insert key a xs := by
  induction xs with
  | nil => exact nil_subset _
  | cons b xs ih =>
    rw [insert]
    split_ifs
    · exact subset_cons_self _ _
    · exact cons_subset_cons b ih
    · exact List.Subset.refl _

@[simp] theorem keys_insert (a : α) (xs : List α) :
    keys key (insert key a xs) = Insert.insert (key a) (keys key xs) := by
  induction xs with
  | nil => rfl
  | cons b xs ih =>
    rw [insert]
    split_ifs with hab hba
    · simp
    · rw [keys_cons, ih, keys_cons, Finset.insert_comm]
    · rw [le_antisymm (not_lt.mp hba) (not_lt.mp hab), keys_cons, Finset.insert_idem]

theorem mem_insert_of_injective (h : Function.Injective key) {a x : α} :
    x ∈ insert key a xs ↔ x = a ∨ x ∈ xs := by
  refine ⟨mem_of_mem_insert, ?_⟩
  rintro (rfl | hx)
  · have hkey : key x ∈ keys key (insert key x xs) := by simp
    obtain ⟨y, hy, heq⟩ := mem_keys.mp hkey
    exact h heq ▸ hy
  · exact subset_insert a xs hx

theorem Ascending.insert (h : Ascending key xs) (a : α) :
    Ascending key (insert key a xs) := by
  induction xs with
  | nil => exact pairwise_singleton _ _
  | cons b xs ih =>
    obtain ⟨hb, hxs⟩ := pairwise_cons.mp h
    rw [KeyedSet.insert]
    split_ifs with hab hba
    · refine pairwise_cons.mpr ⟨?_, h⟩
      intro x hx
      rcases mem_cons.mp hx with rfl | hx
      · exact hab
      · exact hab.trans (hb x hx)
    · refine pairwise_cons.mpr ⟨?_, ih hxs⟩
      intro x hx
      rcases mem_of_mem_insert hx with rfl | hx
      · exact hba
      · exact hb x hx
    · exact h

/-- The largest element goes to the end. -/
theorem insert_of_forall_lt {a : α} (h : ∀ b ∈ xs, key b < key a) :
    insert key a xs = xs ++ [a] := by
  induction xs with
  | nil => rfl
  | cons b xs ih =>
    have hb := h b mem_cons_self
    rw [insert, if_neg hb.asymm, if_pos hb, ih fun c hc ↦ h c (mem_cons_of_mem _ hc),
      cons_append]

theorem length_insert_of_notMem_keys {a : α} (ha : key a ∉ keys key xs) :
    (insert key a xs).length = xs.length + 1 := by
  induction xs with
  | nil => rfl
  | cons b xs ih =>
    rw [keys_cons, Finset.mem_insert, not_or] at ha
    rw [insert]
    split_ifs with hab hba
    · rfl
    · rw [length_cons, ih ha.2, length_cons]
    · exact absurd (le_antisymm (not_lt.mp hba) (not_lt.mp hab)) ha.1

variable (key) in
theorem length_insert_le (a : α) (xs : List α) : (insert key a xs).length ≤ xs.length + 1 := by
  induction xs with
  | nil => exact le_rfl
  | cons b xs ih =>
    rw [insert]
    split_ifs
    · exact le_rfl
    · exact Nat.succ_le_succ ih
    · exact Nat.le_succ _

/-! ### Bounded sets

A bounded set is the first `n` elements of the set that is not bounded, and an element is lost as
soon as that one has more. -/

@[simp] theorem extend_nil (set : List α) : extend key set [] = set := rfl

@[simp] theorem extend_cons (set : List α) (a : α) (xs : List α) :
    extend key set (a :: xs) = extend key (insert key a set) xs := rfl

@[simp] theorem keys_extend (set xs : List α) :
    keys key (extend key set xs) = keys key set ∪ keys key xs := by
  induction xs generalizing set with
  | nil => simp
  | cons a xs ih =>
    rw [extend_cons, ih, keys_insert, keys_cons, Finset.insert_union, Finset.union_insert]

theorem Ascending.extend {set : List α} (h : Ascending key set) (xs : List α) :
    Ascending key (extend key set xs) := by
  induction xs generalizing set with
  | nil => exact h
  | cons a xs ih => exact ih (h.insert a)

theorem mem_of_mem_extend {x : α} {set xs : List α} (h : x ∈ extend key set xs) :
    x ∈ set ∨ x ∈ xs := by
  induction xs generalizing set with
  | nil => exact .inl h
  | cons a xs ih =>
    rcases ih h with h | h
    · exact (mem_of_mem_insert h).symm.imp_right (by rintro rfl; exact mem_cons_self)
    · exact .inr (mem_cons_of_mem _ h)

/-- Where keys are names, adding elements adds exactly them. -/
theorem mem_extend_of_injOn {S : Set α} (hS : Set.InjOn key S) {set xs : List α}
    (hset : ∀ a ∈ set, a ∈ S) (hxs : ∀ a ∈ xs, a ∈ S) {x : α} :
    x ∈ extend key set xs ↔ x ∈ set ∨ x ∈ xs := by
  refine ⟨mem_of_mem_extend, fun hx ↦ ?_⟩
  have hmem : ∀ a, a ∈ set ∨ a ∈ xs → a ∈ S := fun a ha ↦ ha.elim (hset a) (hxs a)
  have hkey : key x ∈ keys key (extend key set xs) := by
    rw [keys_extend, Finset.mem_union]
    exact hx.imp (fun h ↦ mem_keys.mpr ⟨x, h, rfl⟩) fun h ↦ mem_keys.mpr ⟨x, h, rfl⟩
  obtain ⟨y, hy, hyx⟩ := mem_keys.mp hkey
  rwa [← hS (hmem y (mem_of_mem_extend hy)) (hmem x hx) hyx]

@[simp] theorem keys_ofList (xs : List α) : keys key (ofList key xs) = keys key xs := by
  simp [ofList]

theorem ascending_ofList (xs : List α) : Ascending key (ofList key xs) :=
  Ascending.extend List.Pairwise.nil xs

theorem length_ofList (xs : List α) : (ofList key xs).length = (keys key xs).card := by
  rw [← (ascending_ofList xs).card_keys, keys_ofList]

/-- Where keys are names, a set holds what its list does. -/
theorem mem_ofList_of_injOn {x : α} (h : Set.InjOn key {a | a ∈ xs}) :
    x ∈ ofList key xs ↔ x ∈ xs := by
  have hextend : x ∈ extend key [] xs ↔ x ∈ [] ∨ x ∈ xs :=
    mem_extend_of_injOn h (fun _ hnil ↦ absurd hnil not_mem_nil) fun _ ↦ id
  rw [ofList, hextend]
  simp

/-- A list in order is its own set. -/
theorem extend_of_ascending {set xs : List α} (h : Ascending key (set ++ xs)) :
    extend key set xs = set ++ xs := by
  induction xs generalizing set with
  | nil => simp
  | cons a xs ih =>
    have hlt : ∀ b ∈ set, key b < key a := fun b hb ↦
      (pairwise_append.mp h).2.2 b hb a mem_cons_self
    rw [extend_cons, insert_of_forall_lt hlt, ih (by simpa using h), append_assoc,
      singleton_append]

theorem ofList_of_ascending (h : Ascending key xs) : ofList key xs = xs :=
  extend_of_ascending h

end KeyedSet

/-! ## Groups -/

namespace Grouping

open Std

variable {α γ : Type} (name : α → String) (add : γ → α → γ) (empty : γ)

/-- Add an element to the group of its name. -/
def place (groups : ExtTreeMap String γ) (a : α) : ExtTreeMap String γ :=
  groups.insert (name a) (add (groups[name a]?.getD empty) a)

def group (xs : List α) : ExtTreeMap String γ := xs.foldl (place name add empty) ∅

end Grouping

end Codeclew
