import Codeclew.Cas.Catalog
import Codeclew.OwnerIndex

/-!
# The locations of a catalog

The locations are an index of the packs' entries by digest, the smallest pack first. However they
are maintained, entry by entry as a pack is added or all at once from the set of packs, the outcome
depends on the set of packs only: `locationsFromPacks_eq_ok_iff` says what a successful build
returns and `locationsFromPacks_of_not_agree` when it fails, and `builds_addPackToCatalog` says the
same of adding a pack to locations that are up to date.
-/

namespace Codeclew.Cas

open OwnerIndex List Program
open Std (ExtTreeMap)

/-- The entries of the pack with this name; none if there is no such pack. -/
def contents (packs : Packs) (name : String) : List PackEntry :=
  match packs[name]? with
  | some manifest => manifest.objects
  | none => []

def entryDigest (entry : PackEntry) : String := entry.object.digest

/-- Locations as an index from digests to packs and their entries. -/
def Locations.index (locations : Locations) (digest : String) : Option (String × PackEntry) :=
  locations[digest]?.map fun location ↦ (location.dataName, location.entry)

/-- Any two entries of the packs with one digest refer to one object. -/
def ObjectsAgree (contents : String → List PackEntry) : Prop :=
  Agree entryDigest PackEntry.object contents

/-- The error of two objects with one digest. -/
def collision : ClewError := corrupt "CAS pack catalog has a digest collision"

theorem Locations.index_injective : Function.Injective Locations.index := by
  intro a b h
  refine ExtTreeMap.ext_getElem? fun digest ↦ ?_
  have hd := congrFun h digest
  simp only [Locations.index] at hd
  rcases ha : a[digest]? with _ | ⟨n, e⟩ <;> rcases hb : b[digest]? with _ | ⟨n', e'⟩ <;>
    simp [ha, hb] at hd ⊢
  exact hd

theorem Locations.index_insert (locations : Locations) (name : String) (entry : PackEntry) :
    Locations.index (locations.insert entry.object.digest ⟨name, entry⟩)
      = Function.update locations.index (entryDigest entry) (some (name, entry)) := by
  funext digest
  rw [Locations.index, ExtTreeMap.getElem?_insert, Function.update_apply, entryDigest]
  by_cases h : digest = entry.object.digest
  · simp [h]
  · simp [h, Ne.symm h, Locations.index]

/-! ## Adding a pack -/

section Add

variable {packs : String → List PackEntry} {locations : Locations} {name : String}
  {entry : PackEntry}

/-- What is done to the locations makes them an index of these packs, if their objects agree; if
they do not, it fails. -/
structure Builds (m : Program Locations ClewError Unit) (locations : Locations)
    (packs : String → List PackEntry) : Prop where
  ok : ObjectsAgree packs → ∃ locations', m locations = (.ok (), locations') ∧
    Indexes entryDigest (Locations.index locations') packs
  error : ¬ObjectsAgree packs → ∃ locations', m locations = (.error collision, locations')

theorem Builds.pure (hi : Indexes entryDigest locations.index packs) (ha : ObjectsAgree packs) :
    Builds (pure ()) locations packs :=
  ⟨fun _ ↦ ⟨locations, rfl, hi⟩, fun h ↦ absurd ha h⟩

/-- More packs are added. Objects that do not agree are still among theirs. -/
theorem Builds.bind {m m' : Program Locations ClewError Unit} {packs' : String → List PackEntry}
    (h : Builds m locations packs) (hsub : ∀ name, packs name ⊆ packs' name)
    (h' : ∀ {locations' : Locations}, Indexes entryDigest locations'.index packs →
      ObjectsAgree packs → Builds m' locations' packs') :
    Builds (m >>= fun _ ↦ m') locations packs' := by
  by_cases ha : ObjectsAgree packs
  · obtain ⟨locations', hrun, hi⟩ := h.ok ha
    obtain ⟨hok, herror⟩ := h' hi ha
    constructor
    · rwa [bind_of_ok hrun]
    · rwa [bind_of_ok hrun]
  · obtain ⟨locations', hrun⟩ := h.error ha
    exact ⟨fun ha' ↦ absurd (ha'.mono hsub) ha,
      fun _ ↦ ⟨locations', bind_of_error hrun _⟩⟩

theorem builds_addEntryToCatalog (hi : Indexes entryDigest locations.index packs)
    (ha : ObjectsAgree packs) :
    Builds (addEntryToCatalog name entry) locations (offer packs name entry) := by
  have hagree : ObjectsAgree (offer packs name entry) ↔ _ := hi.agree_offer_iff ha
  have hinsert (h : ∀ o' e', locations.index (entryDigest entry) = some (o', e') → name < o') :
      Indexes entryDigest (Locations.index (locations.insert entry.object.digest ⟨name, entry⟩))
        (offer packs name entry) := by
    rw [Locations.index_insert]
    exact hi.offer_replace h
  cases hx : locations[entry.object.digest]? with
  | none =>
    have hix : locations.index (entryDigest entry) = none := by
      simp [Locations.index, entryDigest, hx]
    rw [hix] at hagree hinsert
    refine ⟨fun _ ↦ ⟨_, ?_, hinsert nofun⟩, fun h ↦ absurd (hagree.mpr nofun) h⟩
    rw [addEntryToCatalog, get_bind, hx]
    rfl
  | some existing =>
    have hix : locations.index (entryDigest entry) = some (existing.dataName, existing.entry) := by
      simp [Locations.index, entryDigest, hx]
    rw [hix] at hagree hinsert
    by_cases hobject : existing.entry.object = entry.object
    · refine ⟨fun _ ↦ ?_, fun h ↦ absurd (hagree.mpr ?_) h⟩
      · simp only [addEntryToCatalog, get_bind, hx, hobject, ne_eq, not_true_eq_false, if_false]
        split_ifs with hle
        · exact ⟨locations, rfl, hi.offer_keep hix hle⟩
        · refine ⟨_, rfl, hinsert ?_⟩
          rintro o' e' ⟨⟩
          exact not_le.mp hle
      · rintro o' e' ⟨⟩
        exact hobject
    · refine ⟨fun h ↦ absurd (hagree.mp h _ _ rfl) hobject, fun _ ↦ ⟨locations, ?_⟩⟩
      simp only [addEntryToCatalog, get_bind, hx, ne_eq, hobject, not_false_eq_true, if_true]
      rfl

/-- The contents once the pack with this name has all of `entries` as well. -/
def extend (packs : String → List PackEntry) (name : String) (entries : List PackEntry) :
    String → List PackEntry :=
  Function.update packs name (packs name ++ entries)

theorem extend_offer (packs : String → List PackEntry) (name : String) (entry : PackEntry)
    (entries : List PackEntry) :
    extend (offer packs name entry) name entries = extend packs name (entry :: entries) := by
  simp [extend, offer]

theorem offer_subset_extend (packs : String → List PackEntry) (name : String) (entry : PackEntry)
    (entries : List PackEntry) (n : String) :
    offer packs name entry n ⊆ extend packs name (entry :: entries) n := by
  intro e he
  rcases mem_offer_iff.mp he with hold | ⟨rfl, rfl⟩
  · by_cases h : n = name
    · subst h
      simp [extend, hold]
    · simp [extend, h, hold]
  · simp [extend]

theorem builds_addEntries (name : String) (entries : List PackEntry)
    (hi : Indexes entryDigest locations.index packs) (ha : ObjectsAgree packs) :
    Builds (Program.each entries (addEntryToCatalog name)) locations
      (extend packs name entries) := by
  induction entries generalizing packs locations with
  | nil =>
    have hext : extend packs name [] = packs := by simp [extend]
    exact hext.symm ▸ .pure hi ha
  | cons entry entries ih =>
    rw [each_cons]
    refine (builds_addEntryToCatalog hi ha).bind (offer_subset_extend packs name entry entries) ?_
    exact fun hi' ha' ↦ extend_offer packs name entry entries ▸ ih hi' ha'

/-- Adding a pack that is not there yet. -/
theorem builds_addPackToCatalog (name : String) (manifest : PackManifest)
    (hi : Indexes entryDigest locations.index packs) (ha : ObjectsAgree packs)
    (hnew : packs name = []) :
    Builds (addPackToCatalog name manifest) locations
      (Function.update packs name manifest.objects) := by
  have h := builds_addEntries name manifest.objects hi ha
  rwa [extend, hnew, nil_append] at h

end Add

/-! ## All packs at once -/

/-- The contents after the listed packs were added one after the other. -/
def addAll (packs : String → List PackEntry) (l : List (String × PackManifest)) :
    String → List PackEntry :=
  l.foldl (fun packs p ↦ Function.update packs p.1 p.2.objects) packs

variable {l : List (String × PackManifest)} {name : String}

theorem addAll_of_notMem (packs : String → List PackEntry) (h : name ∉ l.map Prod.fst) :
    addAll packs l name = packs name := by
  induction l generalizing packs with
  | nil => rfl
  | cons p l ih =>
    rw [map_cons, mem_cons, not_or] at h
    rw [addAll, foldl_cons, ← addAll, ih _ h.2, Function.update_of_ne h.1]

theorem addAll_of_mem (hl : (l.map Prod.fst).Nodup) (packs : String → List PackEntry)
    {p : String × PackManifest} (hp : p ∈ l) :
    addAll packs l p.1 = p.2.objects := by
  induction l generalizing packs with
  | nil => cases hp
  | cons q l ih =>
    rw [map_cons, nodup_cons] at hl
    rw [addAll, foldl_cons, ← addAll]
    rcases mem_cons.mp hp with rfl | hp
    · rw [addAll_of_notMem _ hl.1, Function.update_self]
    · exact ih hl.2 _ hp

theorem subset_addAll {packs : String → List PackEntry} (hnew : ∀ p ∈ l, packs p.1 = [])
    (name : String) :
    packs name ⊆ addAll packs l name := by
  by_cases h : name ∈ l.map Prod.fst
  · obtain ⟨p, hp, rfl⟩ := mem_map.mp h
    rw [hnew p hp]
    exact nil_subset _
  · rw [addAll_of_notMem _ h]
    exact List.Subset.refl _

theorem builds_addPacks {packs : String → List PackEntry} {locations : Locations}
    (hl : (l.map Prod.fst).Nodup) (hi : Indexes entryDigest locations.index packs)
    (ha : ObjectsAgree packs) (hnew : ∀ p ∈ l, packs p.1 = []) :
    Builds (Program.each l fun pack ↦ addPackToCatalog pack.1 pack.2) locations
      (addAll packs l) := by
  induction l generalizing packs locations with
  | nil => exact .pure hi ha
  | cons p l ih =>
    rw [map_cons, nodup_cons] at hl
    have hnew' : ∀ q ∈ l, Function.update packs p.1 p.2.objects q.1 = [] := by
      intro q hq
      have hne : q.1 ≠ p.1 := fun h ↦ hl.1 (h ▸ mem_map_of_mem hq)
      rw [Function.update_of_ne hne]
      exact hnew q (mem_cons_of_mem _ hq)
    rw [each_cons]
    refine (builds_addPackToCatalog p.1 p.2 hi ha (hnew p mem_cons_self)).bind
      (subset_addAll hnew') ?_
    exact fun hi' ha' ↦ ih hl.2 hi' ha' hnew'

theorem nodup_keys_toList (packs : Packs) : (packs.toList.map Prod.fst).Nodup := by
  rw [ExtTreeMap.map_fst_toList_eq_keys]
  exact ExtTreeMap.nodup_keys

theorem addAll_toList (packs : Packs) : addAll (fun _ ↦ []) packs.toList = contents packs := by
  funext name
  rw [contents]
  cases h : packs[name]? with
  | some manifest =>
    have hmem : (name, manifest) ∈ packs.toList := by
      rwa [ExtTreeMap.mem_toList_iff_getElem?_eq_some]
    exact addAll_of_mem (nodup_keys_toList packs) _ hmem
  | none =>
    refine addAll_of_notMem _ fun hmem ↦ ?_
    rw [ExtTreeMap.map_fst_toList_eq_keys, ExtTreeMap.mem_keys,
      ExtTreeMap.mem_iff_isSome_getElem?, h] at hmem
    cases hmem

/-- A build starts from no packs and no locations. -/
theorem builds_packs (packs : Packs) :
    Builds (Program.each packs.toList fun pack ↦ addPackToCatalog pack.1 pack.2) ∅
      (contents packs) := by
  have hempty : Locations.index ∅ = fun _ ↦ none := by
    funext digest
    simp [Locations.index]
  have hi : Indexes entryDigest (Locations.index ∅) fun _ : String ↦ [] := hempty ▸ Indexes.empty
  have h := builds_addPacks (nodup_keys_toList packs) hi (fun _ _ h ↦ nomatch h) fun _ _ ↦ rfl
  rwa [addAll_toList] at h

variable {packs : Packs}

theorem locationsFromPacks_of_not_agree (h : ¬ObjectsAgree (contents packs)) :
    locationsFromPacks packs = .error collision := by
  obtain ⟨locations, hrun⟩ := (builds_packs packs).error h
  rw [locationsFromPacks, hrun]

theorem locationsFromPacks_of_agree (h : ObjectsAgree (contents packs)) :
    ∃ locations, locationsFromPacks packs = .ok locations ∧
      Indexes entryDigest locations.index (contents packs) := by
  obtain ⟨locations, hrun, hi⟩ := (builds_packs packs).ok h
  exact ⟨locations, by rw [locationsFromPacks, hrun], hi⟩

/-- A build of the locations returns the index of the packs, and there is one only. -/
theorem locationsFromPacks_eq_ok_iff {locations : Locations} :
    locationsFromPacks packs = .ok locations ↔
      ObjectsAgree (contents packs) ∧ Indexes entryDigest locations.index (contents packs) := by
  constructor
  · intro h
    by_cases ha : ObjectsAgree (contents packs)
    · obtain ⟨locations', h', hi⟩ := locationsFromPacks_of_agree ha
      rw [h] at h'
      cases h'
      exact ⟨ha, hi⟩
    · rw [locationsFromPacks_of_not_agree ha] at h
      cases h
  · rintro ⟨ha, hi⟩
    obtain ⟨locations', h', hi'⟩ := locationsFromPacks_of_agree ha
    rw [h', Locations.index_injective (hi.unique hi')]

/-! ## Packs as a list -/

/-- Listed packs, entered one after the other. -/
def insertAll (packs : Packs) (l : List CatalogPack) : Packs :=
  l.foldl (fun packs pack ↦ packs.insert pack.dataName pack.manifest) packs

section

variable (packs : Packs)

theorem insertAll_eq_insertMany (l : List CatalogPack) :
    insertAll packs l = packs.insertMany (l.map fun pack ↦ (pack.dataName, pack.manifest)) := by
  induction l generalizing packs with
  | nil => rfl
  | cons pack l ih =>
    rw [map_cons, ExtTreeMap.insertMany_cons, ← ih]
    rfl

theorem map_dataName_snapshot :
    (packs.toList.map fun pack ↦ (⟨pack.1, pack.2⟩ : CatalogPack)).map CatalogPack.dataName
      = packs.keys := by
  rw [map_map, ← ExtTreeMap.map_fst_toList_eq_keys]
  rfl

theorem insertAll_toList :
    insertAll ∅ (packs.toList.map fun pack ↦ (⟨pack.1, pack.2⟩ : CatalogPack)) = packs := by
  have hlist : (packs.toList.map fun pack ↦ (⟨pack.1, pack.2⟩ : CatalogPack)).map
      (fun pack ↦ (pack.dataName, pack.manifest)) = packs.toList := by
    rw [map_map]
    exact map_id _
  refine ExtTreeMap.ext_getElem? fun name ↦ ?_
  rw [insertAll_eq_insertMany, hlist]
  cases h : packs[name]? with
  | some manifest =>
    exact ExtTreeMap.getElem?_insertMany_list_of_mem Std.ReflCmp.compare_self
      ExtTreeMap.distinct_keys_toList (ExtTreeMap.mem_toList_iff_getElem?_eq_some.mpr h)
  | none =>
    refine (ExtTreeMap.getElem?_insertMany_list_of_contains_eq_false ?_).trans
      ExtTreeMap.getElem?_empty
    rw [ExtTreeMap.map_fst_toList_eq_keys]
    simpa using h

theorem pairwise_lt_keys : packs.keys.Pairwise (· < ·) := by
  have h := ExtTreeMap.ordered_keys (t := packs)
  refine h.imp fun hlt ↦ ?_
  simpa [compare_lt_iff_lt] using hlt

/-! ## Coherent states -/

/-- The locations are the ones a build from the packs returns. -/
def Coherent [Sha256] (state : CatalogState) : Prop :=
  locationsFromPacks state.packs = .ok state.locations

theorem contents_insert (name : String) (manifest : PackManifest) :
    contents (packs.insert name manifest)
      = Function.update (contents packs) name manifest.objects := by
  funext n
  rw [contents, ExtTreeMap.getElem?_insert, Function.update_apply]
  by_cases h : n = name
  · simp [h]
  · simp [h, Ne.symm h, contents]

theorem contents_erase_subset (name n : String) :
    contents (packs.erase name) n ⊆ contents packs n := by
  rw [contents, ExtTreeMap.getElem?_erase]
  by_cases h : name = n
  · simp [h]
  · simp [h, contents]

end

theorem contents_of_not_contains (h : ¬packs.contains name) :
    contents packs name = [] := by
  have hnone : packs[name]? = none := by
    rw [ExtTreeMap.getElem?_eq_none]
    simpa using h
  rw [contents, hnone]

theorem objectsAgree_erase (h : ObjectsAgree (contents packs)) (name : String) :
    ObjectsAgree (contents (packs.erase name)) :=
  h.mono (contents_erase_subset packs name)

/-! ## The locations of a coherent state -/

/-- The location of a digest is the first entry for it in the smallest pack that has one. -/
def IsLocation (packs : Packs) (digest : String) (location : PackLocation) : Prop :=
  ∃ manifest : PackManifest, packs[location.dataName]? = some manifest ∧
    manifest.objects.find? (fun entry ↦ entry.object.digest = digest) = some location.entry ∧
    ∀ (name : String) (manifest' : PackManifest), packs[name]? = some manifest' →
      name < location.dataName → ∀ entry ∈ manifest'.objects, entry.object.digest ≠ digest

/-- The locations are a build from the packs: they have an entry for every digest that some pack
holds, which is the entry of the smallest such pack, and none for any other digest. -/
structure UpToDate [Sha256] (state : CatalogState) : Prop where
  build : locationsFromPacks state.packs = .ok state.locations
  location : ∀ (digest : String) (location : PackLocation),
    state.locations[digest]? = some location ↔ IsLocation state.packs digest location
  complete : ∀ (name : String) (manifest : PackManifest), state.packs[name]? = some manifest →
    ∀ entry ∈ manifest.objects, entry.object.digest ∈ state.locations

theorem winner_iff_isLocation {digest : String} {location : PackLocation} :
    Winner entryDigest (contents packs) digest location.dataName location.entry ↔
      IsLocation packs digest location := by
  have hmem : ∀ {name : String} {entry : PackEntry}, entry ∈ contents packs name ↔
      ∃ manifest, packs[name]? = some manifest ∧ entry ∈ manifest.objects := by
    intro name entry
    rw [contents]
    cases packs[name]? <;> simp
  constructor
  · intro h
    obtain ⟨manifest, hget, -⟩ := hmem.mp h.mem
    refine ⟨manifest, hget, ?_, fun name manifest' hget' hlt entry hentry ↦
      h.2 name hlt entry (hmem.mpr ⟨manifest', hget', hentry⟩)⟩
    have hfind := h.1
    rw [contents, hget] at hfind
    exact hfind
  · rintro ⟨manifest, hget, hfind, hleast⟩
    refine ⟨?_, fun name hlt entry hentry ↦ ?_⟩
    · rw [contents, hget]
      exact hfind
    · obtain ⟨manifest', hget', hentry'⟩ := hmem.mp hentry
      exact hleast name manifest' hget' hlt entry hentry'

theorem Coherent.upToDate [Sha256] {state : CatalogState} (hs : Coherent state) :
    UpToDate state := by
  obtain ⟨-, hi⟩ := locationsFromPacks_eq_ok_iff.mp hs
  refine ⟨hs, fun digest location ↦ ?_, fun name manifest hget entry hentry ↦ ?_⟩
  · rw [← winner_iff_isLocation, ← hi.eq_some_iff, Locations.index]
    rcases state.locations[digest]? with _ | ⟨n, e⟩
    · simp
    · obtain ⟨n', e'⟩ := location
      simp
  · by_contra hnot
    have hnone : state.locations.index (entryDigest entry) = none := by
      rw [Locations.index, entryDigest, ExtTreeMap.getElem?_eq_none hnot, Option.map_none]
    refine hi.absent hnone name entry ?_ rfl
    rw [contents, hget]
    exact hentry

end Codeclew.Cas
