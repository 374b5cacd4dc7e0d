import Codeclew.Documentation.FactIndex
import Codeclew.Triple

/-!
# The fact index is a finite map

Three levels: a root and a table of objects, the pages they stand for, and the map that the pages
represent. `Holds` joins the first two. An update of a root does to the pages what `Update.pages`
says, which the library of association lists relates to the map.

An update never takes a row out of the table, so all that holds of a root goes on to hold while
other roots are made from it, or from any other root.
-/

namespace Codeclew.Documentation

open Json Association List

abbrev FactPages := Pages FactOccurrence

/-! ## Pages -/

/-- The pages that a batch is about, and what the keys of a scope are. -/
def pageKeys (pages : FactPages) (scope : String) : List OccurrenceKey :=
  (((List.range bucketCount).map pages.entries).flatten.filter (·.key.scope = scope)).map (·.key)

section

variable [Sha256]

/-- The root of some pages. -/
def rootOf (pages : FactPages) : FactIndexRoot where
  schema := factIndexSchema
  protocol := factIndexSchema
  buckets := (List.range bucketCount).map fun bucket ↦
    (pages bucket).map fun entries ↦ .of factPageSchema (encodeRecord (pageOf bucket entries))
  bucketCounts := (List.range bucketCount).map fun bucket ↦
    UInt64.ofNat (pages.entries bucket).length

/-- The root refers to the pages, and the table has them. -/
structure Holds (objects : Objects) (root : FactIndexRoot) (pages : FactPages) : Prop where
  root_eq : root = rootOf pages
  stored : ∀ bucket entries, bucket < bucketCount → pages bucket = some entries →
    HasPayload objects (encodeRecord (pageOf bucket entries))

variable {objects objects' : Objects} {root : FactIndexRoot}

theorem Holds.grown (hgrown : Grown objects objects') {pages : FactPages}
    (h : Holds objects root pages) :
    Holds objects' root pages :=
  ⟨h.root_eq, fun bucket entries hlt hpage ↦ (h.stored bucket entries hlt hpage).grown hgrown⟩

theorem emptyRoot_eq : emptyRoot = rootOf fun _ ↦ none := by
  simp [emptyRoot, rootOf, Pages.entries]

/-! ## Reading -/

variable {bucket : ℕ}

theorem getElem?_buckets_rootOf (pages : FactPages) (h : bucket < bucketCount) :
    (rootOf pages).buckets[bucket]? = some ((pages bucket).map fun entries ↦
      .of factPageSchema (encodeRecord (pageOf bucket entries))) := by
  simp [rootOf, List.getElem?_range h]

theorem getElem?_bucketCounts_rootOf (pages : FactPages) (h : bucket < bucketCount) :
    (rootOf pages).bucketCounts[bucket]? = some (UInt64.ofNat (pages.entries bucket).length) := by
  simp [rootOf, List.getElem?_range h]

theorem shape_rootOf (pages : FactPages) : (rootOf pages).buckets.length = bucketCount ∧
    (rootOf pages).bucketCounts.length = bucketCount := by
  simp [rootOf]

omit [Sha256] in
theorem decode_encodeRecord_pageOf (bucket : ℕ) (entries : List FactOccurrence) :
    decode (encodeRecord (pageOf bucket entries)) = some (pageOf bucket entries) :=
  decode_encodeRecord (by decide) _

variable {objects : Objects}

theorem Holds.readPage_eq {pages : FactPages} (h : Holds objects root pages)
    (hlt : bucket < bucketCount) :
    readPage objects root bucket = .ok ((pages bucket).map (pageOf bucket)) := by
  have hbucket : (pageOf bucket []).bucket.toNat = bucket :=
    Nat.mod_eq_of_lt (hlt.trans (by decide))
  rw [h.root_eq]
  refine ensure_bind_eq_ok_iff.mpr ⟨⟨hlt, shape_rootOf pages⟩, ?_⟩
  rw [getElem?_buckets_rootOf pages hlt]
  rcases hpage : pages bucket with _ | entries
  · rfl
  · simp only [Option.map_some]
    rw [get_of_hasPayload (h.stored bucket entries hlt hpage), ok_bind]
    simp only [decode_encodeRecord_pageOf]
    exact ensure_bind_eq_ok_iff.mpr ⟨⟨rfl, rfl, hbucket⟩, rfl⟩

variable {root root' : FactIndexRoot}

/-- Two tables that hold the same pages read the same. -/
theorem Holds.readPage_congr {pages : FactPages} (h : Holds objects root pages)
    (h' : Holds objects' root' pages) (bucket : ℕ) :
    readPage objects root bucket = readPage objects' root' bucket := by
  by_cases hlt : bucket < bucketCount
  · rw [h.readPage_eq hlt, h'.readPage_eq hlt]
  · have hshape (root : FactIndexRoot) : ¬(bucket < bucketCount ∧
        root.buckets.length = bucketCount ∧ root.bucketCounts.length = bucketCount) :=
      fun hshape ↦ hlt hshape.1
    simp only [readPage, ensure, if_neg (hshape _)]
    rfl

theorem Holds.readEntries_eq {pages : FactPages} (h : Holds objects root pages)
    (hlt : bucket < bucketCount) :
    readEntries objects root bucket = .ok (pages.entries bucket) := by
  rw [readEntries, h.readPage_eq hlt, ok_bind, Pages.entries]
  rcases pages bucket with _ | entries <;> rfl

theorem Holds.lookup_eq {pages : FactPages} (h : Holds objects root pages) (key : OccurrenceKey) :
    lookup objects root key = .ok (pages.find FactOccurrence.key OccurrenceKey.bucket key) := by
  rw [lookup, h.readPage_eq key.bucket_lt, ok_bind, Pages.find, Pages.entries]
  rcases pages key.bucket with _ | entries <;> rfl

theorem Holds.verifyRoot_eq_ok {pages : FactPages} (h : Holds objects root pages) :
    verifyRoot objects root = .ok () := by
  have hschema : root.schema = factIndexSchema ∧ root.protocol = factIndexSchema := by
    rw [h.root_eq]
    exact ⟨rfl, rfl⟩
  refine ensure_bind_eq_ok_iff.mpr ⟨hschema, forM_eq_ok fun bucket hbucket ↦ ?_⟩
  have hlt := mem_range.mp hbucket
  rw [verifyBucket, h.readPage_eq hlt, ok_bind, h.root_eq, getElem?_bucketCounts_rootOf pages hlt,
    Pages.entries]
  rcases pages bucket with _ | entries
  · rfl
  · exact ensure_eq_ok_iff.mpr rfl

theorem Holds.scopeKeys_eq {pages : FactPages} (h : Holds objects root pages) (scope : String) :
    scopeKeys objects root scope = .ok (pageKeys pages scope) := by
  have hpages : (List.range bucketCount).mapM (readEntries objects root) =
      .ok ((List.range bucketCount).map pages.entries) := by
    refine mapM_eq_ok_iff.mpr (forall₂_map_right_iff.mpr ?_)
    exact forall₂_same.mpr fun bucket hbucket ↦ h.readEntries_eq (mem_range.mp hbucket)
  rw [scopeKeys, hpages, ok_bind]
  rfl

/-! ## Writing -/

theorem rootOf_update (pages : FactPages) (bucket : ℕ) (entries : List FactOccurrence) :
    rootOf (Function.update pages bucket (some entries)) =
      { rootOf pages with
        buckets := (rootOf pages).buckets.set bucket
          (some (.of factPageSchema (encodeRecord (pageOf bucket entries))))
        bucketCounts := (rootOf pages).bucketCounts.set bucket (UInt64.ofNat entries.length) } := by
  simp only [rootOf, FactIndexRoot.mk.injEq, true_and]
  constructor
  · refine ext_getElem (by simp) fun i hi hi' ↦ ?_
    simp only [getElem_map, getElem_range, getElem_set, Function.update_apply]
    by_cases heq : i = bucket
    · simp [heq]
    · simp [heq, Ne.symm heq]
  · refine ext_getElem (by simp) fun i hi hi' ↦ ?_
    simp only [getElem_map, getElem_range, getElem_set, Pages.entries,
      Function.update_apply]
    by_cases heq : i = bucket
    · simp [heq]
    · simp [heq, Ne.symm heq]

/-- From tables that hold the pages of a root, an action returns a root whose pages are `pages'`,
and whatever its outcome it takes no row out of the table. -/
def Makes (root : FactIndexRoot) (pages : FactPages) (m : Program Objects ClewError FactIndexRoot)
    (pages' : FactPages) : Prop :=
  ∀ base, Program.Spec (fun objects ↦ Grown base objects ∧ Holds objects root pages) m
    (fun root' objects ↦ Grown base objects ∧ Holds objects root' pages') (Grown base)

/-- A page is written: the others stay. -/
theorem makes_writePage {pages : FactPages} (bucket : ℕ) (entries : List FactOccurrence) :
    Makes root pages (writePage root bucket entries)
      (Function.update pages bucket (some entries)) := by
  rintro base objects ⟨hbase, hholds⟩
  rw [writePage, Program.bind_apply]
  rcases hput : put factPageSchema (encodeRecord (pageOf bucket entries)) objects with
    ⟨error | reference, objects'⟩
  · rw [objects_of_put_error hput]
    exact hbase
  · obtain ⟨rfl, hpayload, hgrown⟩ := of_put hput
    refine ⟨hbase.trans hgrown, ?_, fun bucket' entries' hlt hpage ↦ ?_⟩
    · rw [rootOf_update, ← hholds.root_eq]
    · rw [Function.update_apply] at hpage
      split_ifs at hpage with heq
      · rw [heq, ← Option.some.inj hpage]
        exact hpayload
      · exact (hholds.stored bucket' entries' hlt hpage).grown hgrown

/-- What an action reads of the pages is what they are. -/
theorem Makes.inspect_bind {pages pages' : FactPages} {α : Type} {g : Objects → Except ClewError α}
    {f : α → Program Objects ClewError FactIndexRoot} {a : α}
    (hg : ∀ objects, Holds objects root pages → g objects = .ok a)
    (hf : Makes root pages (f a) pages') :
    Makes root pages (Program.inspect g >>= f) pages' := by
  rintro base objects ⟨hbase, hholds⟩
  rw [Program.inspect_bind_of_ok (hg objects hholds)]
  exact hf base objects ⟨hbase, hholds⟩

theorem makes_withBucket {pages : FactPages} (key : OccurrenceKey)
    (change : List FactOccurrence → List FactOccurrence) :
    Makes root pages (withBucket root key change) (pages.change key.bucket change) :=
  .inspect_bind (fun _ hholds ↦ hholds.readEntries_eq key.bucket_lt) (makes_writePage _ _)

/-- One bucket of a batch, behind others: the page is read through the old root. -/
theorem spec_applyBucket {root next : FactIndexRoot} {pages pages' : FactPages}
    (upserts : List FactOccurrence) (removals : List OccurrenceKey) (hlt : bucket < bucketCount)
    (base : Objects) :
    Program.Spec (fun objects ↦ Grown base objects ∧ Holds objects root pages ∧
        Holds objects next pages')
      (applyBucket root upserts removals next bucket)
      (fun next' objects ↦ Grown base objects ∧ Holds objects root pages ∧
        Holds objects next' (Function.update pages' bucket
          (some (merge FactOccurrence.key (pages.entries bucket)
            (upserts.filter (·.key.bucket = bucket)) (removals.filter (·.bucket = bucket))))))
      (Grown base) := by
  rintro objects ⟨hbase, hroot, hnext⟩
  set entries := merge FactOccurrence.key (pages.entries bucket)
    (upserts.filter (·.key.bucket = bucket)) (removals.filter (·.bucket = bucket))
  have hbind : applyBucket root upserts removals next bucket objects =
      writePage next bucket entries objects :=
    Program.inspect_bind_of_ok (hroot.readEntries_eq hlt)
  have hwrite := makes_writePage bucket entries objects objects ⟨.refl objects, hnext⟩
  rw [hbind]
  rcases hrun : writePage next bucket entries objects with ⟨error | next', objects'⟩
  · rw [hrun] at hwrite
    exact hbase.trans hwrite
  · rw [hrun] at hwrite
    exact ⟨hbase.trans hwrite.1, hroot.grown hwrite.1, hwrite.2⟩

/-- The pages after some buckets of a batch. -/
def mergedPages (pages : FactPages) (upserts : List FactOccurrence) (removals : List OccurrenceKey)
    (buckets : List ℕ) : FactPages := fun bucket ↦
  if bucket ∈ buckets then
    some (merge FactOccurrence.key (pages.entries bucket) (upserts.filter (·.key.bucket = bucket))
      (removals.filter (·.bucket = bucket)))
  else pages bucket

theorem mergedPages_concat (pages : FactPages) (upserts : List FactOccurrence)
    (removals : List OccurrenceKey) (buckets : List ℕ) (bucket : ℕ) :
    mergedPages pages upserts removals (buckets ++ [bucket]) =
      Function.update (mergedPages pages upserts removals buckets) bucket
        (some (merge FactOccurrence.key (pages.entries bucket)
          (upserts.filter (·.key.bucket = bucket)) (removals.filter (·.bucket = bucket)))) := by
  funext bucket'
  rw [mergedPages, Function.update_apply]
  by_cases heq : bucket' = bucket
  · simp [heq]
  · simp [heq, mergedPages]

theorem mem_touched {upserts : List FactOccurrence} {removals : List OccurrenceKey} :
    bucket ∈ touched upserts removals ↔
      Pages.Touched FactOccurrence.key OccurrenceKey.bucket upserts removals bucket := by
  rw [touched, mem_filter, decide_eq_true_iff, mem_range, and_iff_right_iff_imp]
  rintro (⟨a, -, rfl⟩ | ⟨key, -, rfl⟩)
  · exact a.key.bucket_lt
  · exact key.bucket_lt

theorem mergedPages_touched (pages : FactPages) (upserts : List FactOccurrence)
    (removals : List OccurrenceKey) :
    mergedPages pages upserts removals (touched upserts removals) =
      pages.merge FactOccurrence.key OccurrenceKey.bucket upserts removals := by
  funext bucket
  exact if_congr mem_touched rfl rfl

theorem makes_applyDelta {pages : FactPages} (upserts : List FactOccurrence)
    (removals : List OccurrenceKey) :
    Makes root pages (applyDelta root upserts removals)
      (pages.merge FactOccurrence.key OccurrenceKey.bucket upserts removals) := by
  intro base
  -- the pages of the buckets that came before are merged, the others are as they were
  have hstep : ∀ before bucket after next, before ++ bucket :: after = touched upserts removals →
      Program.Spec (fun objects ↦ Grown base objects ∧ Holds objects root pages ∧
          Holds objects next (mergedPages pages upserts removals before))
        (applyBucket root upserts removals next bucket)
        (fun next' objects ↦ Grown base objects ∧ Holds objects root pages ∧
          Holds objects next' (mergedPages pages upserts removals (before ++ [bucket])))
        (Grown base) := by
    intro before bucket after next hsplit
    have hmem : bucket ∈ touched upserts removals := hsplit ▸ mem_append_cons_self
    rw [mergedPages_concat]
    exact spec_applyBucket upserts removals (mem_range.mp (mem_filter.mp hmem).1) base
  rw [← mergedPages_touched]
  refine (Program.Spec.foldlM (b := root) hstep).weaken (fun objects h ↦ ⟨h.1, h.2, ?_⟩)
    (fun _ _ h ↦ ⟨h.1, h.2.2⟩) fun _ ↦ id
  exact h.2

/-! ## Updates -/

inductive Update where
  | put (membership : FactOccurrence)
  | remove (key : OccurrenceKey)
  | delta (upserts : List FactOccurrence) (removals : List OccurrenceKey)
  | replace (scope : String) (complete : List FactOccurrence) (completeAnalysis : Bool)

namespace Update

/-- The call. -/
def apply (root : FactIndexRoot) : Update → Program Objects ClewError FactIndexRoot
  | put membership => putMembership root membership
  | remove key => removeMembership root key
  | delta upserts removals => applyDelta root upserts removals
  | replace scope complete completeAnalysis => replaceScope root scope complete completeAnalysis

/-- What it does to the pages. -/
def pages (pages : FactPages) : Update → FactPages
  | put membership => pages.upsert FactOccurrence.key OccurrenceKey.bucket membership
  | remove key => pages.erase FactOccurrence.key OccurrenceKey.bucket key
  | delta upserts removals =>
    pages.merge FactOccurrence.key OccurrenceKey.bucket upserts removals
  | replace scope complete completeAnalysis =>
    pages.merge FactOccurrence.key OccurrenceKey.bucket complete
      (if completeAnalysis then pageKeys pages scope else [])

/-- What it is for: the map it makes of a map. -/
def map (map : OccurrenceKey → Option FactOccurrence) :
    Update → OccurrenceKey → Option FactOccurrence
  | put membership => Function.update map membership.key (some membership)
  | remove key => Function.update map key none
  | delta upserts removals => writes FactOccurrence.key (removes map removals) upserts
  | replace scope complete completeAnalysis =>
    writes FactOccurrence.key
      (if completeAnalysis then fun key ↦ if key.scope = scope then none else map key else map)
      complete

theorem makes (root : FactIndexRoot) (pages : FactPages) (update : Update) :
    Makes root pages (update.apply root) (update.pages pages) := by
  cases update with
  | put membership => exact makes_withBucket membership.key _
  | remove key => exact makes_withBucket key _
  | delta upserts removals => exact makes_applyDelta upserts removals
  | replace scope complete completeAnalysis =>
    rcases completeAnalysis with _ | _
    · exact makes_applyDelta complete []
    · exact .inspect_bind (fun _ hholds ↦ hholds.scopeKeys_eq scope) (makes_applyDelta _ _)

end Update

/-! ## The map -/

abbrev SoundPages (pages : FactPages) : Prop :=
  pages.Sound FactOccurrence.key OccurrenceKey.bucket

/-- The map of some pages. -/
def mapOf (pages : FactPages) : OccurrenceKey → Option FactOccurrence :=
  pages.find FactOccurrence.key OccurrenceKey.bucket

theorem mapOf_foldl_upsert (pages : FactPages) (upserts : List FactOccurrence) :
    mapOf (upserts.foldl (Pages.upsert FactOccurrence.key OccurrenceKey.bucket) pages) =
      writes FactOccurrence.key (mapOf pages) upserts := by
  induction upserts generalizing pages with
  | nil => rfl
  | cons a upserts ih =>
    rw [foldl_cons, ih, mapOf, Pages.find_upsert]
    rfl

theorem mapOf_foldl_erase (pages : FactPages) (removals : List OccurrenceKey) :
    mapOf (removals.foldl (Pages.erase FactOccurrence.key OccurrenceKey.bucket) pages) =
      removes (mapOf pages) removals := by
  induction removals generalizing pages with
  | nil => rfl
  | cons key removals ih =>
    rw [foldl_cons, ih, mapOf, Pages.find_erase]
    rfl

theorem mapOf_merge (pages : FactPages) (upserts : List FactOccurrence)
    (removals : List OccurrenceKey) :
    mapOf (pages.merge FactOccurrence.key OccurrenceKey.bucket upserts removals) =
      writes FactOccurrence.key (removes (mapOf pages) removals) upserts := by
  rw [Pages.merge_eq, mapOf_foldl_upsert, mapOf_foldl_erase]

theorem SoundPages.merge {pages : FactPages} (h : SoundPages pages) (upserts : List FactOccurrence)
    (removals : List OccurrenceKey) :
    SoundPages (pages.merge FactOccurrence.key OccurrenceKey.bucket upserts removals) := by
  rw [Pages.merge_eq]
  refine List.foldlRecOn upserts _ ?_ fun pages' hpages' a _ ↦ hpages'.upsert a
  exact List.foldlRecOn removals _ h fun pages' hpages' key _ ↦ hpages'.erase key

/-- The keys of a scope are those that the map has something for. -/
theorem removes_pageKeys (pages : FactPages) (scope : String) :
    removes (mapOf pages) (pageKeys pages scope) =
      fun key ↦ if key.scope = scope then none else mapOf pages key := by
  funext key
  rw [removes_apply]
  by_cases hscope : key.scope = scope
  · rw [if_pos hscope]
    split_ifs with hmem
    · rfl
    · refine Option.eq_none_iff_forall_ne_some.mpr fun a ha ↦ hmem ?_
      obtain ⟨hentry, rfl⟩ := find_eq_some ha
      refine mem_map.mpr ⟨a, mem_filter.mpr ⟨?_, by simpa using hscope⟩, rfl⟩
      exact mem_flatten.mpr ⟨_, mem_map_of_mem (mem_range.mpr a.key.bucket_lt), hentry⟩
  · rw [if_neg hscope, if_neg]
    intro hmem
    obtain ⟨a, ha, rfl⟩ := mem_map.mp hmem
    exact hscope (by simpa using (mem_filter.mp ha).2)

theorem Update.mapOf_pages (pages : FactPages) (update : Update) :
    mapOf (update.pages pages) = update.map (mapOf pages) := by
  cases update with
  | put membership => exact Pages.find_upsert pages membership
  | remove key => exact Pages.find_erase pages key
  | delta upserts removals => exact mapOf_merge pages upserts removals
  | replace scope complete completeAnalysis =>
    rw [Update.pages, mapOf_merge, Update.map]
    rcases completeAnalysis with _ | _
    · rfl
    · exact congrArg (writes FactOccurrence.key · complete) (removes_pageKeys pages scope)

theorem Update.sound_pages {pages : FactPages} (h : SoundPages pages) (update : Update) :
    SoundPages (update.pages pages) := by
  cases update with
  | put membership => exact h.upsert membership
  | remove key => exact h.erase key
  | delta upserts removals => exact SoundPages.merge h upserts removals
  | replace scope complete completeAnalysis => exact SoundPages.merge h complete _

/-! ## Versions -/

/-- The roots that were made so far, each with the map it stands for. The first one is empty, and an
update starts from any of them. Other users of the table may add rows. -/
inductive Versions :
    Objects → List (FactIndexRoot × (OccurrenceKey → Option FactOccurrence)) → Prop
  | start (objects : Objects) : Versions objects [(emptyRoot, fun _ ↦ none)]
  | update {objects objects' : Objects}
      {versions : List (FactIndexRoot × (OccurrenceKey → Option FactOccurrence))}
      {root root' : FactIndexRoot} {map : OccurrenceKey → Option FactOccurrence} {update : Update}
      (h : Versions objects versions) (hroot : (root, map) ∈ versions)
      (hupdate : update.apply root objects = (.ok root', objects')) :
      Versions objects' ((root', update.map map) :: versions)
  | failed {objects objects' : Objects}
      {versions : List (FactIndexRoot × (OccurrenceKey → Option FactOccurrence))}
      {root : FactIndexRoot} {map : OccurrenceKey → Option FactOccurrence} {update : Update}
      {error : ClewError} (h : Versions objects versions) (hroot : (root, map) ∈ versions)
      (hupdate : update.apply root objects = (.error error, objects')) : Versions objects' versions
  | other {objects objects' : Objects}
      {versions : List (FactIndexRoot × (OccurrenceKey → Option FactOccurrence))}
      (h : Versions objects versions) (hgrown : Grown objects objects') : Versions objects' versions

/-- The invariant: every root holds sound pages of its map. -/
def Represented (objects : Objects)
    (version : FactIndexRoot × (OccurrenceKey → Option FactOccurrence)) : Prop :=
  ∃ pages, Holds objects version.1 pages ∧ SoundPages pages ∧ mapOf pages = version.2

theorem Represented.grown (hgrown : Grown objects objects')
    {version : FactIndexRoot × (OccurrenceKey → Option FactOccurrence)}
    (h : Represented objects version) : Represented objects' version := by
  obtain ⟨pages, hholds, hsound, hmap⟩ := h
  exact ⟨pages, hholds.grown hgrown, hsound, hmap⟩

theorem represented_emptyRoot (objects : Objects) :
    Represented objects (emptyRoot, fun _ ↦ none) :=
  ⟨fun _ ↦ none, ⟨emptyRoot_eq, fun _ _ _ ↦ nofun⟩, ⟨fun _ _ ↦ nofun, fun _ _ ↦ nofun⟩, rfl⟩

variable {map : OccurrenceKey → Option FactOccurrence}

/-- One update, from a root that represents its map. -/
theorem Represented.update {update : Update} (h : Represented objects (root, map))
    (hupdate : update.apply root objects = (.ok root', objects')) :
    Grown objects objects' ∧ Represented objects' (root', update.map map) := by
  obtain ⟨pages, hholds, hsound, hmap⟩ := h
  obtain ⟨hgrown, hholds'⟩ := (update.makes root pages objects).of_ok hupdate ⟨.refl _, hholds⟩
  refine ⟨hgrown, update.pages pages, hholds', update.sound_pages hsound, ?_⟩
  rw [update.mapOf_pages, hmap]

theorem Represented.grown_of_failed {update : Update} {error : ClewError}
    (h : Represented objects (root, map))
    (hupdate : update.apply root objects = (.error error, objects')) : Grown objects objects' := by
  obtain ⟨pages, hholds, -, -⟩ := h
  have hends := update.makes root pages objects objects ⟨.refl _, hholds⟩
  rwa [hupdate] at hends

theorem Versions.represented
    {versions : List (FactIndexRoot × (OccurrenceKey → Option FactOccurrence))}
    (h : Versions objects versions) : ∀ version ∈ versions, Represented objects version := by
  induction h with
  | start objects => exact forall_mem_singleton.mpr (represented_emptyRoot objects)
  | update _ hroot hupdate ih =>
    obtain ⟨hgrown, hnew⟩ := (ih _ hroot).update hupdate
    exact forall_mem_cons.mpr ⟨hnew, fun version hversion ↦ (ih version hversion).grown hgrown⟩
  | failed _ hroot hupdate ih =>
    exact fun version hversion ↦
      (ih version hversion).grown ((ih _ hroot).grown_of_failed hupdate)
  | other _ hgrown ih => exact fun version hversion ↦ (ih version hversion).grown hgrown

/-! ## Batches -/

/-- The removals and the writes of a batch, each in a call of its own. -/
def oneByOne (root : FactIndexRoot) (upserts : List FactOccurrence)
    (removals : List OccurrenceKey) : Program Objects ClewError FactIndexRoot := do
  let root ← removals.foldlM removeMembership root
  upserts.foldlM putMembership root

/-- Changes one after the other. -/
theorem makes_foldlM {σ : Type} {f : FactIndexRoot → σ → Program Objects ClewError FactIndexRoot}
    {g : FactPages → σ → FactPages} (hf : ∀ root pages s, Makes root pages (f root s) (g pages s))
    (root : FactIndexRoot) (pages : FactPages) (steps : List σ) :
    Makes root pages (steps.foldlM f root) (steps.foldl g pages) := by
  induction steps generalizing root pages with
  | nil => exact fun base ↦ .pure fun _ ↦ id
  | cons s steps ih => exact fun base ↦ (hf root pages s base).bind fun root' ↦ ih root' _ base

theorem makes_oneByOne (root : FactIndexRoot) (pages : FactPages) (upserts : List FactOccurrence)
    (removals : List OccurrenceKey) :
    Makes root pages (oneByOne root upserts removals)
      (pages.merge FactOccurrence.key OccurrenceKey.bucket upserts removals) := by
  intro base
  rw [Pages.merge_eq]
  have hremovals :=
    makes_foldlM (fun root pages key ↦ Update.makes root pages (.remove key)) root pages
    removals base
  exact hremovals.bind fun root' ↦
    makes_foldlM (fun root pages a ↦ Update.makes root pages (.put a)) root' _ upserts base

/-- The fact index is a finite map. Along any history of updates, each from any root that there was
and whatever failed or was stored in between, every root passes its check, its pages have distinct
keys that belong to their buckets, and it answers every lookup as the map does that the same updates
have made, which earlier roots go on to do. A batch makes the root that its removals and its writes
make one by one, and its pages. -/
theorem factIndex_refines_map {objects : Objects}
    {versions : List (FactIndexRoot × (OccurrenceKey → Option FactOccurrence))}
    (h : Versions objects versions) :
    ∀ version ∈ versions, verifyRoot objects version.1 = .ok () ∧
      (∀ bucket page, readPage objects version.1 bucket = .ok (some page) →
        Distinct FactOccurrence.key page.entries ∧
          ∀ entry ∈ page.entries, entry.key.bucket = bucket) ∧
      (∀ key, lookup objects version.1 key = .ok (version.2 key)) ∧
      ∀ upserts removals root root' objects' objects'',
        applyDelta version.1 upserts removals objects = (.ok root, objects') →
        oneByOne version.1 upserts removals objects = (.ok root', objects'') →
        root = root' ∧
          ∀ bucket, readPage objects' root bucket = readPage objects'' root' bucket := by
  intro version hversion
  obtain ⟨pages, hholds, hsound, hmap⟩ := h.represented version hversion
  refine ⟨hholds.verifyRoot_eq_ok, fun bucket page hpage ↦ ?_, fun key ↦ ?_,
    fun upserts removals root root' objects' objects'' hdelta hone ↦ ?_⟩
  · have hlt : bucket < bucketCount := (ensure_bind_eq_ok_iff.mp hpage).1.1
    rw [hholds.readPage_eq hlt] at hpage
    obtain ⟨entries, hentries, rfl⟩ := Option.map_eq_some_iff.mp (Except.ok.inj hpage)
    exact ⟨hsound.distinct bucket entries hentries, hsound.placed bucket entries hentries⟩
  · rw [hholds.lookup_eq, ← hmap]
    rfl
  · obtain ⟨-, hroot⟩ := (makes_applyDelta upserts removals objects).of_ok hdelta ⟨.refl _, hholds⟩
    obtain ⟨-, hroot'⟩ := (makes_oneByOne _ pages upserts removals objects).of_ok hone
      ⟨.refl _, hholds⟩
    exact ⟨hroot.root_eq.trans hroot'.root_eq.symm, hroot.readPage_congr hroot'⟩

end

section Examples

attribute [local instance] Sha256.standard

/-- A fact of one source. -/
def exampleFact : FactOccurrence where
  key := ⟨"r", "v", "s", "lib", "d", "f"⟩
  payload := ⟨"p", "sha256:0", 1⟩
  kind := "fn"
  file := "a.rs"
  symbol := "f"

/-- The page that the fact goes to. -/
def examplePage : Bytes := encodeRecord (pageOf exampleFact.key.bucket [exampleFact])

/-- The root that refers to it. -/
def exampleRoot : FactIndexRoot :=
  { emptyRoot with
    buckets := emptyRoot.buckets.set exampleFact.key.bucket (some (.of factPageSchema examplePage))
    bucketCounts := emptyRoot.bucketCounts.set exampleFact.key.bucket
      (UInt64.ofNat [exampleFact].length) }

def exampleObjects : Objects :=
  (∅ : Objects).insert (hashBytes examplePage) ⟨examplePage, examplePage.length⟩

theorem putMembership_exampleFact :
    putMembership emptyRoot exampleFact ∅ = (.ok exampleRoot, exampleObjects) := by
  decide +kernel

/-- Another fact, in a batch that takes the first one out. -/
def exampleOther : FactOccurrence := { exampleFact with key := ⟨"r", "v", "s", "lib", "d", "g"⟩ }

theorem applyDelta_exampleOther : ∃ root objects,
    applyDelta exampleRoot [exampleOther] [exampleFact.key] exampleObjects =
      (.ok root, objects) := by
  have hok : (applyDelta exampleRoot [exampleOther] [exampleFact.key] exampleObjects).1.isOk =
      true := by
    decide +kernel
  generalize applyDelta exampleRoot [exampleOther] [exampleFact.key] exampleObjects = run at hok ⊢
  obtain ⟨_ | root, objects⟩ := run
  · cases hok
  · exact ⟨root, objects, rfl⟩

/-- After the batch the root of the put still has the first fact, and the new root has the other
one. -/
theorem factIndex_refines_map_example : ∃ root objects,
    putMembership emptyRoot exampleFact ∅ = (.ok exampleRoot, exampleObjects) ∧
      applyDelta exampleRoot [exampleOther] [exampleFact.key] exampleObjects =
        (.ok root, objects) ∧
      verifyRoot objects root = .ok () ∧
      lookup objects root exampleOther.key = .ok (some exampleOther) ∧
      lookup objects root exampleFact.key = .ok none ∧
      lookup objects exampleRoot exampleFact.key = .ok (some exampleFact) := by
  have hput : (Update.put exampleFact).apply emptyRoot ∅ = (.ok exampleRoot, exampleObjects) :=
    putMembership_exampleFact
  obtain ⟨root, objects, hrun⟩ := applyDelta_exampleOther
  have hdelta : (Update.delta [exampleOther] [exampleFact.key]).apply exampleRoot exampleObjects =
      (.ok root, objects) := hrun
  have hversions := ((Versions.start ∅).update (mem_singleton_self _) hput).update mem_cons_self
    hdelta
  obtain ⟨hverify, -, hlookup, -⟩ := factIndex_refines_map hversions _ mem_cons_self
  obtain ⟨-, -, hbefore, -⟩ :=
    factIndex_refines_map hversions _ (mem_cons_of_mem _ mem_cons_self)
  have hne : exampleFact.key ≠ exampleOther.key := by decide
  refine ⟨root, objects, hput, hdelta, hverify, (hlookup _).trans (congrArg _ ?_),
    (hlookup _).trans (congrArg _ ?_), (hbefore _).trans (congrArg _ ?_)⟩
  · simp [Update.map, writes]
  · simp [Update.map, writes, removes, hne]
  · simp [Update.map]

end Examples

end Codeclew.Documentation
