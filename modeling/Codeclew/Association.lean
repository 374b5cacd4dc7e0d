import Mathlib

/-!
# Lists of entries with keys

A list of entries, at most one for each key, in the order in which they were last written. Writing
an entry takes an older one with its key out and appends it. `merge` does a whole batch of removals
and writes at once: it scans the writes from the last to the first for the ones that remain, and
leaves the list as doing the batch one by one would (`merge_eq`).

`Pages` distributes the entries over lists by a function of the key. Finding an entry then looks
at one list, and a finite map is what the lists together represent.
-/

namespace Codeclew.Association

open List

variable {α κ : Type} [DecidableEq κ] (key : α → κ)

/-! ## One list -/

def find (k : κ) (xs : List α) : Option α := xs.find? (key · = k)

def erase (k : κ) (xs : List α) : List α := xs.filter (key · ≠ k)

def upsert (a : α) (xs : List α) : List α := erase key (key a) xs ++ [a]

/-- No two entries have one key. -/
def Distinct (xs : List α) : Prop := (xs.map key).Nodup

/-- The writes that remain, from the last to the first, behind writes of the keys in `replaced`. -/
def scan : List α → (replaced : Finset κ) → List α × Finset κ
  | [], replaced => ([], replaced)
  | a :: rest, replaced =>
    if key a ∈ replaced then scan rest replaced
    else
      let (winners, replaced) := scan rest (insert (key a) replaced)
      (a :: winners, replaced)

def merge (xs upserts : List α) (removals : List κ) : List α :=
  let (winners, replaced) := scan key upserts.reverse ∅
  xs.filter (key · ∉ replaced ∪ removals.toFinset) ++ winners.reverse

variable {key}

variable {xs : List α}

theorem find_eq_some {k : κ} {a : α} (h : find key k xs = some a) :
    a ∈ xs ∧ key a = k := by
  refine ⟨mem_of_find?_eq_some h, ?_⟩
  simpa using List.find?_some h

/-- With distinct keys an entry is found under its key. -/
theorem find_eq_some_iff (h : Distinct key xs) {k : κ} {a : α} :
    find key k xs = some a ↔ a ∈ xs ∧ key a = k := by
  refine ⟨find_eq_some, ?_⟩
  rintro ⟨ha, rfl⟩
  rcases hfind : find key (key a) xs with _ | b
  · exact absurd (List.find?_eq_none.mp hfind a ha) (by simp)
  · obtain ⟨hb, hkey⟩ := find_eq_some hfind
    rw [inj_on_of_nodup_map h hb ha hkey]

@[simp] theorem find_nil (k : κ) : find key k [] = none := rfl

theorem find_append (k : κ) (xs ys : List α) :
    find key k (xs ++ ys) = (find key k xs).or (find key k ys) :=
  List.find?_append

theorem find_erase (k k' : κ) (xs : List α) :
    find key k (erase key k' xs) = if k = k' then none else find key k xs := by
  rw [find, erase, List.find?_filter]
  split_ifs with h
  · subst h
    refine List.find?_eq_none.mpr fun a _ ↦ ?_
    simp
  · refine congrFun (congrArg List.find? (funext fun a ↦ ?_)) xs
    by_cases ha : key a = k
    · simp [ha, h]
    · simp [ha]

theorem find_upsert (k : κ) (a : α) (xs : List α) :
    find key k (upsert key a xs) = if k = key a then some a else find key k xs := by
  rw [upsert, find_append, find_erase]
  split_ifs with h
  · subst h
    simp [find]
  · simp [find, Ne.symm h]

theorem Distinct.erase (h : Distinct key xs) (k : κ) : Distinct key (erase key k xs) :=
  h.sublist (filter_sublist.map key)

theorem Distinct.upsert (h : Distinct key xs) (a : α) :
    Distinct key (upsert key a xs) := by
  rw [Distinct, Association.upsert, map_append]
  refine nodup_append.mpr ⟨h.erase (key a), nodup_singleton _, fun k hk k' hk' ↦ ?_⟩
  obtain ⟨b, hb, rfl⟩ := mem_map.mp hk
  obtain rfl := mem_singleton.mp hk'
  simpa using (mem_filter.mp hb).2

/-! ## Batches -/

theorem scan_snd (upserts : List α) (replaced : Finset κ) :
    (scan key upserts replaced).2 = replaced ∪ (upserts.map key).toFinset := by
  induction upserts generalizing replaced with
  | nil => simp [scan]
  | cons a rest ih =>
    rw [scan]
    split_ifs with h
    · rw [ih, map_cons, toFinset_cons, Finset.union_insert, Finset.insert_eq_of_mem]
      exact Finset.mem_union_left _ h
    · rw [ih, map_cons, toFinset_cons, Finset.union_insert, Finset.insert_union]

/-- Behind more writes, the writes of their keys do not remain. -/
theorem scan_fst (upserts : List α) (replaced : Finset κ) :
    (scan key upserts replaced).1 = (scan key upserts ∅).1.filter (key · ∉ replaced) := by
  induction upserts generalizing replaced with
  | nil => rfl
  | cons a rest ih =>
    have hempty : (scan key (a :: rest) ∅).1 = a :: (scan key rest {key a}).1 := by
      simp [scan]
    rw [hempty, filter_cons, ih {key a}, filter_filter, scan]
    split_ifs with h h' h'
    · simp [h] at h'
    · rw [ih]
      refine filter_congr fun b _ ↦ ?_
      by_cases hb : key b ∈ replaced
      · simp [hb]
      · have hne : key b ≠ key a := fun heq ↦ hb (heq ▸ h)
        simp [hb, hne]
    · dsimp only
      rw [ih (insert (key a) replaced)]
      refine congrArg (a :: ·) (filter_congr fun b _ ↦ ?_)
      by_cases hb : key b ∈ replaced
      · simp [hb]
      · simp [hb]
    · simp [h] at h'

theorem erase_append (k : κ) (xs ys : List α) :
    erase key k (xs ++ ys) = erase key k xs ++ erase key k ys := filter_append _ _

theorem merge_concat (xs upserts : List α) (a : α) (removals : List κ) :
    merge key xs (upserts ++ [a]) removals = upsert key a (merge key xs upserts removals) := by
  have hscan : scan key (a :: upserts.reverse) ∅ = (a :: (scan key upserts.reverse {key a}).1,
      (scan key upserts.reverse {key a}).2) := by
    simp [scan]
  rw [merge, merge, reverse_append, reverse_singleton, singleton_append, hscan,
    upsert, erase_append]
  simp only [scan_snd, reverse_cons, ← append_assoc]
  congr 2
  · rw [erase, filter_filter]
    refine filter_congr fun b _ ↦ ?_
    simp
  · rw [scan_fst, erase, filter_reverse]
    congr 1
    refine filter_congr fun b _ ↦ ?_
    simp

theorem merge_nil (xs : List α) (removals : List κ) :
    merge key xs [] removals = removals.foldl (fun xs k ↦ erase key k xs) xs := by
  induction removals generalizing xs with
  | nil => simp [merge, scan]
  | cons k removals ih =>
    rw [foldl_cons, ← ih]
    simp only [merge, scan, reverse_nil, erase, filter_filter, append_nil]
    refine filter_congr fun b _ ↦ ?_
    simp [Bool.and_comm]

/-- A batch is its removals and then its writes, one by one. -/
theorem merge_eq (xs upserts : List α) (removals : List κ) :
    merge key xs upserts removals = upserts.foldl (fun xs a ↦ upsert key a xs)
      (removals.foldl (fun xs k ↦ erase key k xs) xs) := by
  induction upserts using List.reverseRecOn with
  | nil => exact merge_nil xs removals
  | append_singleton upserts a ih =>
    rw [merge_concat, ih, foldl_append]
    rfl

/-! ## Maps -/

/-- Writing entries into a map, the last one of a key winning. -/
def writes (key : α → κ) (map : κ → Option α) (upserts : List α) : κ → Option α :=
  upserts.foldl (fun map a ↦ Function.update map (key a) (some a)) map

/-- Taking keys out of a map. -/
def removes (map : κ → Option α) (removals : List κ) : κ → Option α :=
  removals.foldl (fun map k ↦ Function.update map k none) map

theorem removes_apply (map : κ → Option α) (removals : List κ) (k : κ) :
    removes map removals k = if k ∈ removals then none else map k := by
  induction removals generalizing map with
  | nil => rfl
  | cons k' removals ih =>
    change removes (Function.update map k' none) removals k = _
    rw [ih, Function.update_apply]
    by_cases hk : k = k' <;> simp [hk]

/-! ## Buckets -/

/-- The lists, where there is one. -/
abbrev Pages (α : Type) := ℕ → Option (List α)

namespace Pages

def entries (pages : Pages α) (bucket : ℕ) : List α := (pages bucket).getD []

def change (pages : Pages α) (bucket : ℕ) (f : List α → List α) : Pages α :=
  Function.update pages bucket (some (f (pages.entries bucket)))

variable (key) (hash : κ → ℕ)

def find (pages : Pages α) (k : κ) : Option α := Association.find key k (pages.entries (hash k))

def upsert (pages : Pages α) (a : α) : Pages α :=
  pages.change (hash (key a)) (Association.upsert key a)

def erase (pages : Pages α) (k : κ) : Pages α := pages.change (hash k) (Association.erase key k)

/-- The buckets that a batch is about. -/
def Touched (upserts : List α) (removals : List κ) (bucket : ℕ) : Prop :=
  (∃ a ∈ upserts, hash (key a) = bucket) ∨ ∃ k ∈ removals, hash k = bucket

instance (upserts : List α) (removals : List κ) (bucket : ℕ) :
    Decidable (Touched key hash upserts removals bucket) :=
  inferInstanceAs (Decidable (_ ∨ _))

/-- A batch, bucket by bucket. -/
def merge (pages : Pages α) (upserts : List α) (removals : List κ) : Pages α := fun bucket ↦
  if Touched key hash upserts removals bucket then
    some (Association.merge key (pages.entries bucket)
      (upserts.filter fun a ↦ hash (key a) = bucket) (removals.filter (hash · = bucket)))
  else pages bucket

/-- No two entries of a list have one key, and each is where its key belongs. -/
structure Sound (pages : Pages α) : Prop where
  distinct : ∀ bucket xs, pages bucket = some xs → Distinct key xs
  placed : ∀ bucket xs, pages bucket = some xs → ∀ a ∈ xs, hash (key a) = bucket

variable {key hash} (pages : Pages α)

@[simp] theorem entries_change (bucket bucket' : ℕ) (f : List α → List α) :
    (pages.change bucket f).entries bucket' =
      if bucket' = bucket then f (pages.entries bucket) else pages.entries bucket' := by
  rw [entries, change, Function.update_apply]
  split_ifs <;> rfl

theorem find_upsert (a : α) :
    (pages.upsert key hash a).find key hash =
      Function.update (pages.find key hash) (key a) (some a) := by
  funext k
  rw [find, upsert, entries_change, Function.update_apply]
  by_cases hk : k = key a
  · rw [if_pos hk, if_pos (congrArg hash hk), Association.find_upsert, if_pos hk]
  · rw [if_neg hk, find]
    split_ifs with hbucket
    · rw [Association.find_upsert, if_neg hk, hbucket]
    · rfl

theorem find_erase (k' : κ) :
    (pages.erase key hash k').find key hash = Function.update (pages.find key hash) k' none := by
  funext k
  rw [find, erase, entries_change, Function.update_apply]
  by_cases hk : k = k'
  · rw [if_pos hk, if_pos (congrArg hash hk), Association.find_erase, if_pos hk]
  · rw [if_neg hk, find]
    split_ifs with hbucket
    · rw [Association.find_erase, if_neg hk, hbucket]
    · rfl

variable {pages : Pages α}

omit [DecidableEq κ] in
theorem Sound.change (h : Sound key hash pages) {bucket : ℕ} {f : List α → List α}
    (hdistinct : Distinct key (f (pages.entries bucket)))
    (hplaced : ∀ a ∈ f (pages.entries bucket), hash (key a) = bucket) :
    Sound key hash (pages.change bucket f) where
  distinct bucket' xs hxs := by
    rw [Pages.change, Function.update_apply] at hxs
    split_ifs at hxs with hbucket
    · rwa [← Option.some.inj hxs]
    · exact h.distinct bucket' xs hxs
  placed bucket' xs hxs := by
    rw [Pages.change, Function.update_apply] at hxs
    split_ifs at hxs with hbucket
    · rwa [← Option.some.inj hxs, hbucket]
    · exact h.placed bucket' xs hxs

omit [DecidableEq κ] in
theorem Sound.distinct_entries (h : Sound key hash pages) (bucket : ℕ) :
    Distinct key (pages.entries bucket) := by
  rw [entries]
  rcases hpage : pages bucket with _ | xs
  · exact nodup_nil
  · exact h.distinct bucket xs hpage

omit [DecidableEq κ] in
theorem Sound.placed_entries (h : Sound key hash pages) {bucket : ℕ} {a : α}
    (ha : a ∈ pages.entries bucket) : hash (key a) = bucket := by
  rw [entries] at ha
  rcases hpage : pages bucket with _ | xs
  · rw [hpage] at ha
    cases ha
  · rw [hpage] at ha
    exact h.placed bucket xs hpage a ha

theorem Sound.upsert (h : Sound key hash pages) (a : α) :
    Sound key hash (pages.upsert key hash a) := by
  refine h.change ((h.distinct_entries _).upsert a) fun b hb ↦ ?_
  rcases mem_append.mp hb with hmem | hmem
  · exact h.placed_entries (mem_filter.mp hmem).1
  · rw [mem_singleton.mp hmem]

theorem Sound.erase (h : Sound key hash pages) (k : κ) :
    Sound key hash (pages.erase key hash k) :=
  h.change ((h.distinct_entries _).erase k) fun _ hb ↦ h.placed_entries (mem_filter.mp hb).1

omit [DecidableEq κ] in
/-- Changes one by one: each list sees those that are about it. -/
theorem foldl_change {σ : Type} (place : σ → ℕ) (f : σ → List α → List α) (steps : List σ)
    (pages : Pages α) (bucket : ℕ) :
    steps.foldl (fun pages s ↦ pages.change (place s) (f s)) pages bucket =
      if ∃ s ∈ steps, place s = bucket then
        some ((steps.filter (place · = bucket)).foldl (fun xs s ↦ f s xs) (pages.entries bucket))
      else pages bucket := by
  induction steps generalizing pages with
  | nil => simp
  | cons s steps ih =>
    rw [foldl_cons, ih, entries_change, filter_cons]
    by_cases hs : place s = bucket
    · subst hs
      by_cases hsteps : ∃ t ∈ steps, place t = place s
      · simp [hsteps]
      · have hfilter : steps.filter (place · = place s) = [] := by
          refine filter_eq_nil_iff.mpr fun t ht ↦ ?_
          simpa using fun heq ↦ hsteps ⟨t, ht, heq⟩
        simp [hsteps, hfilter, change]
    · have hne : ¬bucket = place s := Ne.symm hs
      simp [hs, hne, change]

/-- A batch over buckets is its removals and then its writes, one by one. -/
theorem merge_eq (upserts : List α) (removals : List κ) :
    pages.merge key hash upserts removals = upserts.foldl (upsert key hash)
      (removals.foldl (erase key hash) pages) := by
  funext bucket
  have hupserts := foldl_change (fun a ↦ hash (key a)) (Association.upsert key) upserts
    (removals.foldl (erase key hash) pages) bucket
  have hremovals := foldl_change hash (Association.erase key) removals pages bucket
  change upserts.foldl (upsert key hash) _ bucket = _ at hupserts
  change removals.foldl (erase key hash) pages bucket = _ at hremovals
  rw [hupserts, merge, Association.merge_eq]
  have hentries : (removals.foldl (erase key hash) pages).entries bucket =
      (removals.filter (hash · = bucket)).foldl (fun xs k ↦ Association.erase key k xs)
        (pages.entries bucket) := by
    rw [entries, hremovals]
    split_ifs with h
    · rfl
    · have hfilter : removals.filter (hash · = bucket) = [] := by
        refine filter_eq_nil_iff.mpr fun k hk ↦ ?_
        simpa using fun heq ↦ h ⟨k, hk, heq⟩
      rw [hfilter]
      rfl
  by_cases h : ∃ a ∈ upserts, hash (key a) = bucket
  · have htouched : Touched key hash upserts removals bucket := Or.inl h
    rw [if_pos htouched, if_pos h, hentries]
  · have hfilter : upserts.filter (fun a ↦ hash (key a) = bucket) = [] := by
      refine filter_eq_nil_iff.mpr fun a ha ↦ ?_
      simpa using fun heq ↦ h ⟨a, ha, heq⟩
    have htouched : Touched key hash upserts removals bucket ↔ ∃ k ∈ removals, hash k = bucket :=
      or_iff_right h
    rw [if_neg h, hremovals, hfilter, foldl_nil]
    exact if_congr htouched rfl rfl

end Pages

end Codeclew.Association
