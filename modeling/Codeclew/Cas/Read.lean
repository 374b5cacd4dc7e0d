import Codeclew.Cas.Objects

/-!
# Reading keeps good data

`read` looks in the catalog, then at the loose file, and moves a loose file that does not match the
reference into the quarantine. The file is compared with the reference only, so a reference with the
right digest and a wrong size or schema makes it move a good file. So does the largest budget: with
it nothing is read of the file.

A read that finds nothing brings the catalog up to date. `read_keeps_iff` is about handles that are
up to date already, `Settled`, and says that moving a good file is the one way they lose data.
-/

namespace Codeclew

namespace Cas

open Program

variable [Sha256]

/-! ## Handles that are up to date -/

/-- The catalog in memory is the whole one, and that of the files with this head: there is no
snapshot, no record and no marker that it does not know, and no file that is to be pruned. -/
structure Settled (head : CatalogHead) (w : World) : Prop where
  head_eq : w.disk.catalog.fileExists "head.json" = true ∧ readCatalogHead w.disk.catalog = .ok head
  loaded : w.memory.initialized = true ∧ w.memory.lookup = none
  authority : head.snapshotSequence = w.memory.snapshotSequence →
    w.memory.snapshotDigest = some head.snapshotDigest
  covered : head.snapshotSequence ≤ w.memory.sequence
  records : ∀ name ∈ recordNames w.disk.records, ∃ record digest bytes,
    readCatalogRecord w.disk.records name = .ok (record, digest, bytes) ∧
      record.sequence ≤ w.memory.sequence
  deferred : readDeferred w.disk.catalog head w.memory.sequence =
    .ok (w.memory.deferredSinceSequence, w.memory.deferredSnapshotBytes)
  snapshotFiles : ∀ name ∈ w.disk.snapshots.entries, isTemporary name = false ∧
    (extension name = some "snapshot" → name = head.snapshotName) ∧
    lookupObsolete name head.snapshotName = false
  recordFiles : ∀ name ∈ w.disk.records.entries, isTemporary name = false ∧
    (extension name = some "record" → ∃ sequence ∈ catalogRecordSequence name,
      head.snapshotSequence < sequence)
  packFiles : ∀ dataName ∈ w.memory.packs.keys, ∀ suffix ∈ [".json", ".verified"],
    w.disk.packs.fileExists (fileStem dataName ++ suffix) = false

/-- The directories the catalog has nothing to do with. -/
def Place.isLoose : Place → Bool
  | .shard _ => true
  | .quarantine => true
  | _ => false

/-- Two worlds with one catalog, in memory and on disk. -/
structure SameCatalog (v w : World) : Prop where
  memory : v.memory = w.memory
  files : ∀ place, place.isLoose = false → v.disk.files place = w.disk.files place

variable {head : CatalogHead} {v w : World}

theorem Settled.congr (hsame : SameCatalog v w) (h : Settled head w) : Settled head v := by
  obtain ⟨⟨catalog, snapshots, records, packs, _, _⟩, memory, _⟩ := v
  obtain rfl : memory = w.memory := hsame.memory
  obtain rfl : catalog = w.disk.catalog := hsame.files .catalog rfl
  obtain rfl : snapshots = w.disk.snapshots := hsame.files .snapshots rfl
  obtain rfl : records = w.disk.records := hsame.files .records rfl
  obtain rfl : packs = w.disk.packs := hsame.files .packs rfl
  exact ⟨h.head_eq, h.loaded, h.authority, h.covered, h.records, h.deferred, h.snapshotFiles,
    h.recordFiles, h.packFiles⟩

section Settled

variable (h : Settled head w)
include h

/-- There is nothing to replay. -/
theorem Settled.replay :
    replayCatalogRecordsLocked w.disk.records (recordNames w.disk.records) w.memory =
      (.ok (), w.memory) := by
  have hidle : each (recordNames w.disk.records) (replayRecord w.disk.records)
      ⟨w.memory, false⟩ = (.ok (), ⟨w.memory, false⟩) := by
    refine each_of_idle fun name hname ↦ ?_
    obtain ⟨record, digest, bytes, hread, hknown⟩ := h.records name hname
    rw [replayRecord, hread, lift_ok_bind]
    exact congrFun (if_pos hknown) _
  rw [replayCatalogRecordsLocked, hidle]
  rfl

/-- There is nothing to prune. -/
theorem Settled.pruneSnapshots :
    each w.disk.snapshots.entries (pruneSnapshotFile head.snapshotName) w = (.ok (), w) := by
  refine each_of_idle fun name hname ↦ ?_
  obtain ⟨hplain, hcurrent, hlookup⟩ := h.snapshotFiles name hname
  rw [pruneSnapshotFile, whenever, if_neg]
  · rfl
  · rintro (htemporary | ⟨hsnapshot, hother⟩ | hobsolete)
    · simp [hplain] at htemporary
    · exact hother (hcurrent hsnapshot)
    · simp [hlookup] at hobsolete

theorem Settled.pruneRecords :
    each w.disk.records.entries (pruneRecordFile head.snapshotSequence) w = (.ok (), w) := by
  refine each_of_idle fun name hname ↦ ?_
  obtain ⟨hplain, hcurrent⟩ := h.recordFiles name hname
  rw [pruneRecordFile, if_neg (by simp [hplain])]
  split
  · rfl
  · next hrecord =>
    obtain ⟨sequence, hsequence, hlater⟩ := hcurrent (not_not.mp hrecord)
    rw [Option.mem_def.mp hsequence]
    dsimp only
    rw [whenever, if_neg (UInt64.not_le.mpr hlater)]
    rfl

theorem Settled.prune : pruneCatalogMetadataLocked head.snapshotName head.snapshotSequence w =
    (.ok (), w) := by
  have hsnapshots : entries .snapshots w = (.ok w.disk.snapshots.entries, w) := rfl
  have hrecords : entries .records w = (.ok w.disk.records.entries, w) := rfl
  rw [pruneCatalogMetadataLocked, bind_of_ok hsnapshots, bind_of_ok h.pruneSnapshots,
    bind_of_ok hrecords]
  exact h.pruneRecords

theorem Settled.prunePacks : pruneRedundantPackMetadataLocked w = (.ok (), w) := by
  have habsent : ∀ dataName ∈ w.memory.packs.keys, ∀ suffix ∈ [".json", ".verified"],
      removeIfPresent .packs (fileStem dataName ++ suffix) w = (.ok (), w) := by
    intro dataName hpack suffix hsuffix
    have hfile : fileExists .packs (fileStem dataName ++ suffix) w = (.ok false, w) :=
      congrArg (fun present ↦ (Except.ok present, w)) (h.packFiles dataName hpack suffix hsuffix)
    rw [removeIfPresent, bind_of_ok hfile]
    rfl
  refine each_of_idle fun dataName hpack ↦ ?_
  rw [prunePackMetadata, bind_of_ok (habsent dataName hpack ".json" (by simp))]
  exact habsent dataName hpack ".verified" (by simp)

variable [Host]

/-- There is nothing to bring up to date. -/
theorem Settled.sync : syncCatalogLocked w = (.ok (), w) := by
  have hpresent : fileExists .catalog "head.json" w = (.ok true, w) :=
    congrArg (fun present ↦ (Except.ok present, w)) h.head_eq.1
  have hensure : ensureHeadLocked w = (.ok (), w) := by
    rw [ensureHeadLocked, bind_of_ok hpresent]
    rfl
  have hhead : inspect .catalog readCatalogHead w = (.ok head, w) :=
    congrArg (fun head ↦ (head, w)) h.head_eq.2
  have hmemory : memory w = (.ok w.memory, w) := rfl
  have hrecords : inspect .records .ok w = (.ok w.disk.records, w) := rfl
  have hreplay : replayRecordsLocked w = (.ok (), w) := by
    rw [replayRecordsLocked, bind_of_ok hrecords, onMemory, zoom, h.replay]
  have hmarker : inspect .catalog (readDeferred · head w.memory.sequence) w =
      (.ok (w.memory.deferredSinceSequence, w.memory.deferredSnapshotBytes), w) :=
    congrArg (fun deferred ↦ (deferred, w)) h.deferred
  have hdeferred : loadCatalogDeferredLocked head w = (.ok (), w) := by
    rw [loadCatalogDeferredLocked, bind_of_ok hmemory, bind_of_ok hmarker]
    rfl
  rw [syncCatalogLocked, bind_of_ok hensure, bind_of_ok hhead, bind_of_ok hmemory, require_bind,
    if_pos, whenever, if_neg]
  · change (replayRecordsLocked >>= _) w = _
    rw [bind_of_ok hreplay, bind_of_ok hdeferred, bind_of_ok h.prune]
    exact h.prunePacks
  · simp [h.loaded, h.covered]
  · rintro ⟨-, hsame, hother⟩
    exact hother (h.authority hsame)

end Settled

/-! ## What a world holds -/

/-- What the catalog has for a reference. -/
def World.packed (w : World) (object : CasObject) (maxBytes : ℕ) :
    Except ClewError (Option Bytes) :=
  match w.memory.locations[object.digest]? with
  | none => .ok none
  | some location => (readPacked w.disk.packs object maxBytes location).map some

/-- The loose file of a digest. -/
def World.loose (w : World) (digest : String) : Option File :=
  match objectLocation digest with
  | .ok (shard, name) => (w.disk.files (.shard shard))[name]?
  | .error _ => none

/-- What the loose file has for a reference. -/
def World.loosely (w : World) (object : CasObject) (maxBytes : ℕ) : Except ClewError Bytes := do
  let (shard, name) ← objectLocation object.digest
  readPath object (w.disk.files (.shard shard)) name maxBytes

variable {object : CasObject} {maxBytes : ℕ}

theorem SameCatalog.packed (h : SameCatalog v w) (object : CasObject) (maxBytes : ℕ) :
    v.packed object maxBytes = w.packed object maxBytes := by
  have hpacks : v.disk.packs = w.disk.packs := h.files .packs rfl
  rw [World.packed, World.packed, h.memory, hpacks]

/-- Whether the catalog has a digest does not depend on the rest of a reference. -/
theorem packed_eq_none {reference : CasObject} {budget : ℕ}
    (h : w.packed reference budget = .ok none) (hdigest : object.digest = reference.digest) :
    w.packed object maxBytes = .ok none := by
  rw [World.packed] at h ⊢
  rw [hdigest]
  rcases hlocation : w.memory.locations[reference.digest]? with _ | location
  · rfl
  · rw [hlocation] at h
    dsimp only at h
    rcases hread : readPacked w.disk.packs reference budget location with _ | _ <;>
      rw [hread] at h <;> cases h

theorem Settled.readFromCatalog (h : Settled head w) (object : CasObject) (maxBytes : ℕ) :
    readFromCatalog object maxBytes w = (w.packed object maxBytes, w) := by
  have hlocation : onMemory (catalogLocation object.digest) w =
      (.ok w.memory.locations[object.digest]?, w) := by
    rw [onMemory, zoom, catalogLocation, h.loaded.2]
  rw [Cas.readFromCatalog, bind_of_ok hlocation, World.packed]
  rcases w.memory.locations[object.digest]? with _ | location
  · rfl
  · have hinspect : inspect .packs (readPacked · object maxBytes location) w
        = (readPacked w.disk.packs object maxBytes location, w) := rfl
    dsimp only
    rw [bind_apply, hinspect]
    rcases readPacked w.disk.packs object maxBytes location with e | bytes <;> rfl

/-! ## Loose files -/

omit [Sha256] in
/-- A reference that passes its check names a loose file. -/
theorem objectLocation_of_validateReference (h : validateReference object = .ok ()) :
    ∃ location, objectLocation object.digest = .ok location := by
  rw [validateReference] at h
  split at h
  · cases h
  · obtain ⟨_, -, h⟩ := bind_eq_ok_iff.mp h
    rcases hd : digestComponent object.digest with e | component
    · rw [hd] at h
      cases h
    · exact ⟨_, by rw [objectLocation, hd]; rfl⟩

omit [Sha256] in
theorem digestComponent_of_objectLocation {digest shard name : String}
    (h : objectLocation digest = .ok (shard, name)) :
    digestComponent digest = .ok (String.ofList (shard.toList ++ name.toList)) := by
  obtain ⟨component, hc, hpair⟩ := bind_eq_ok_iff.mp h
  obtain ⟨rfl, rfl⟩ := Prod.mk.inj (Except.ok.inj hpair)
  rw [hc, chars_eq_toList, String.toList_ofList, String.toList_ofList, List.take_append_drop,
    String.ofList_toList]

omit [Sha256] in
/-- Different digests have different files. -/
theorem objectLocation_injective {a b : String} {location : String × String}
    (ha : objectLocation a = .ok location) (hb : objectLocation b = .ok location) : a = b := by
  obtain ⟨da, rfl, hda⟩ := exists_digestText (digestComponent_of_objectLocation ha)
  obtain ⟨db, rfl, hdb⟩ := exists_digestText (digestComponent_of_objectLocation hb)
  rw [digestHex_injective (hda.trans hdb.symm)]

theorem loosely_congr (h : v.loose object.digest = w.loose object.digest) (maxBytes : ℕ) :
    v.loosely object maxBytes = w.loosely object maxBytes := by
  rw [World.loose, World.loose] at h
  rw [World.loosely, World.loosely]
  rcases hloc : objectLocation object.digest with e | ⟨shard, name⟩
  · rfl
  · rw [hloc] at h
    rw [ok_bind, ok_bind]
    dsimp only at h ⊢
    rw [readPath, readPath, Directory.openFile, Directory.openFile, h]

theorem loosely_of_loose_eq_none (h : w.loose object.digest = none) (maxBytes : ℕ) (bytes : Bytes) :
    w.loosely object maxBytes ≠ .ok bytes := by
  rw [World.loose] at h
  rw [World.loosely]
  rcases hloc : objectLocation object.digest with e | ⟨shard, name⟩
  · nofun
  · rw [hloc] at h
    dsimp only at h
    rw [ok_bind]
    dsimp only
    rw [readPath, Directory.openFile, h]
    nofun

/-! ## What a read finds -/

section Find

variable [Host] (object : CasObject) (maxBytes : ℕ)

/-- A reference that a read with this budget does not refuse. -/
def Admissible : Prop := validateReference object = .ok () ∧ object.size.toNat ≤ maxBytes

/-- Neither the catalog in memory nor the loose file has the object. -/
structure Missed (w : World) : Prop where
  admissible : Admissible object maxBytes
  packed : w.packed object maxBytes = .ok none
  loosely : ∀ bytes, w.loosely object maxBytes ≠ .ok bytes

variable {object maxBytes}

/-- What an admissible read does first. -/
theorem Settled.read_of_admissible (h : Settled head w) (hadm : Admissible object maxBytes) :
    read object maxBytes w = match w.packed object maxBytes, w.loosely object maxBytes with
      | .error error, _ => (.error error, w)
      | .ok (some bytes), _ => (.ok bytes, w)
      | .ok none, .ok bytes => (.ok bytes, w)
      | .ok none, .error error =>
        (Program.lift (objectLocation object.digest) >>= fun location ↦
          recoverObject object maxBytes location.1 location.2 error) w := by
  obtain ⟨⟨shard, name⟩, hloc⟩ := objectLocation_of_validateReference hadm.1
  have hloosely : w.loosely object maxBytes
      = readPath object (w.disk.files (.shard shard)) name maxBytes := by
    rw [World.loosely, hloc, ok_bind]
  rw [read, hadm.1, lift_ok_bind, require_bind, if_pos hadm.2, hloosely, bind_apply,
    h.readFromCatalog]
  rcases w.packed object maxBytes with e | _ | bytes
  · rfl
  · dsimp only
    rw [hloc, lift_ok_bind]
    have hinspect : inspect (.shard shard) (.ok <| readPath object · name maxBytes) w
        = (.ok (readPath object (w.disk.files (.shard shard)) name maxBytes), w) := rfl
    dsimp only
    rw [bind_of_ok hinspect]
    rcases readPath object (w.disk.files (.shard shard)) name maxBytes with e | bytes <;> rfl
  · rfl

theorem read_of_not_admissible (h : ¬Admissible object maxBytes) (w : World) :
    ∃ error, read object maxBytes w = (.error error, w) := by
  rw [read]
  rcases hvalid : validateReference object with e | _
  · exact ⟨e, rfl⟩
  · rw [lift_ok_bind, require, if_neg fun hsize ↦ h ⟨hvalid, hsize⟩]
    exact ⟨_, rfl⟩

variable {shard name digest : String}

/-- Moving the loose file of a digest away. -/
theorem quarantineLocked_apply {file : File} (hloc : objectLocation digest = .ok (shard, name))
    (hfile : (w.disk.files (.shard shard))[name]? = some file) :
    ∃ u, quarantineLocked shard name digest w = (.ok (), u) ∧ u.memory = w.memory ∧
      ∀ place, place ≠ .quarantine → u.disk.files place = if place = .shard shard then
        (w.disk.files (.shard shard)).erase name else w.disk.files place := by
  obtain ⟨bytes, rfl, -⟩ := exists_digestText (digestComponent_of_objectLocation hloc)
  have huuid : uuid w = (.ok (Host.uuid w.clock), w) := rfl
  rw [quarantineLocked, bind_of_ok huuid, stripPrefix_digestText]
  dsimp only
  rw [renameTo, hfile]
  refine ⟨_, rfl, rfl, fun place hplace ↦ ?_⟩
  dsimp only
  rw [Disk.files_put, if_neg hplace, Disk.files_erase]

/-- The world without the loose file of a digest. -/
structure Without (digest : String) (w u : World) : Prop where
  catalog : SameCatalog u w
  gone : u.loose digest = none
  others : ∀ other, other ≠ digest → u.loose other = w.loose other

/-- Before the catalog is asked again the loose file is gone, and nothing else has changed. -/
theorem whenever_quarantineLocked (hloc : objectLocation digest = .ok (shard, name)) (w : World) :
    ∃ u, whenever ((w.disk.files (.shard shard)).fileExists name = true)
        (quarantineLocked shard name digest) w = (.ok (), u) ∧ Without digest w u := by
  rw [whenever]
  split
  · next hpresent =>
    obtain ⟨file, hfile⟩ := Option.isSome_iff_exists.mp
      (Std.ExtTreeMap.mem_iff_isSome_getElem?.mp (Std.ExtTreeMap.contains_iff_mem.mp hpresent))
    obtain ⟨u, hrun, hmemory, hfiles⟩ := quarantineLocked_apply hloc hfile
    refine ⟨u, hrun, ⟨hmemory, fun place hplace ↦ ?_⟩, ?_, fun other hother ↦ ?_⟩
    · rw [hfiles place (by rintro rfl; cases hplace), if_neg (by rintro rfl; cases hplace)]
    · rw [World.loose, hloc]
      dsimp only
      rw [hfiles (.shard shard) (by simp), if_pos rfl, Std.ExtTreeMap.getElem?_erase,
        if_pos (by simp)]
    · rw [World.loose, World.loose]
      rcases hother' : objectLocation other with e | ⟨shard', name'⟩
      · rfl
      · dsimp only
        rw [hfiles (.shard shard') (by simp)]
        split
        · next hshard =>
          obtain rfl := Place.shard.inj hshard
          rw [Std.ExtTreeMap.getElem?_erase, if_neg]
          intro hname
          obtain rfl : name = name' := compare_eq_iff_eq.mp hname
          exact hother (objectLocation_injective hother' hloc)
        · rfl
  · next habsent =>
    refine ⟨w, rfl, ⟨rfl, fun _ _ ↦ rfl⟩, ?_, fun _ _ ↦ rfl⟩
    rw [World.loose, hloc]
    dsimp only
    exact Std.ExtTreeMap.getElem?_eq_none fun hmem ↦
      habsent (Std.ExtTreeMap.contains_iff_mem.mpr hmem)

variable (h : Settled head w)
include h

/-- A read that finds neither a packed object nor a matching file fails, and the file is gone. -/
theorem Settled.read_of_missed (hmissed : Missed object maxBytes w) :
    ∃ error u, read object maxBytes w = (.error error, u) ∧ Without object.digest w u := by
  obtain ⟨⟨shard, name⟩, hloc⟩ := objectLocation_of_validateReference hmissed.admissible.1
  obtain ⟨u, hrun, hwithout⟩ := whenever_quarantineLocked hloc w
  have hsettled := h.congr hwithout.catalog
  have hnone : u.packed object maxBytes = .ok none :=
    (hwithout.catalog.packed _ _).trans hmissed.packed
  rcases hloosely : w.loosely object maxBytes with error | bytes
  · refine ⟨error, u, ?_, hwithout⟩
    rw [h.read_of_admissible hmissed.admissible, hmissed.packed, hloosely, hloc]
    dsimp only
    rw [lift_ok_bind]
    have hexists : fileExists (.shard shard) name w
        = (.ok ((w.disk.files (.shard shard)).fileExists name), w) := rfl
    have hcatalog := hsettled.readFromCatalog object maxBytes
    rw [hnone] at hcatalog
    rw [recoverObject, bind_of_ok hexists, bind_of_ok hrun, bind_of_ok hsettled.sync,
      bind_of_ok hcatalog]
    rfl
  · exact absurd hloosely (hmissed.loosely bytes)

/-- When a read succeeds; if it does not miss, it changes nothing. -/
theorem Settled.read_cases :
    (Missed object maxBytes w ∨ (read object maxBytes w).2 = w) ∧
    ∀ bytes, (read object maxBytes w).1 = .ok bytes ↔ Admissible object maxBytes ∧
      (w.packed object maxBytes = .ok (some bytes) ∨
        w.packed object maxBytes = .ok none ∧ w.loosely object maxBytes = .ok bytes) := by
  by_cases hadm : Admissible object maxBytes
  · rcases hpacked : w.packed object maxBytes with e | _ | bytes
    · rw [h.read_of_admissible hadm, hpacked]
      simp
    · rcases hloosely : w.loosely object maxBytes with e | bytes
      · have hmissed : Missed object maxBytes w :=
          ⟨hadm, hpacked, fun _ ↦ by rw [hloosely]; nofun⟩
        obtain ⟨error, u, hread, -⟩ := h.read_of_missed hmissed
        simp [hmissed, hread]
      · rw [h.read_of_admissible hadm, hpacked, hloosely]
        simp [hadm]
    · rw [h.read_of_admissible hadm, hpacked]
      simp [hadm]
  · obtain ⟨error, hread⟩ := read_of_not_admissible hadm w
    simp [hread, hadm]

end Find

/-! ## What a read loses -/

section Lose

variable [Host]

/-- Whatever could be read can still be read. -/
def StillReads (w w' : World) : Prop :=
  ∀ object maxBytes bytes, (read object maxBytes w).1 = .ok bytes →
    (read object maxBytes w').1 = .ok bytes

/-- The loose file of a digest is an intact object: some reference with this digest, of the right
size and schema, can be read from it. -/
def Intact (digest : String) (w : World) : Prop :=
  ∃ object maxBytes bytes, object.digest = digest ∧ Admissible object maxBytes ∧
    w.loosely object maxBytes = .ok bytes

end Lose

end Cas

/-! ## A reference with a wrong size -/

namespace Cas

section Example

attribute [local instance] Sha256.standard

/-- A host on which one thing is like the other. -/
@[reducible] def exampleHost : Host where
  metadata _ := default
  uuid _ := "00000000-0000-4000-8000-000000000000"
  threadPool := false

attribute [local instance] exampleHost

/-- A store into which one byte has been put. -/
def exampleStore : World := (put "example" [97] { disk := {} }).2

/-- The reference of the byte. -/
def exampleObject : CasObject :=
  ⟨objectDigest "example" [97], "example", casObjectSchema, 1⟩

/-- The store once its catalog has been written. -/
def settledStore : World := (syncCatalogLocked exampleStore).2

/-- The reference of the byte with a wrong size. -/
def wrongObject : CasObject := { exampleObject with size := 2 }

/-- The reference of a byte that is not there. -/
def absentObject : CasObject := { exampleObject with digest := objectDigest "example" [98] }

/-- What is in the store. -/
theorem settledStore_contents :
    (recordNames settledStore.disk.records = [] ∧ settledStore.disk.records.entries = [] ∧
      settledStore.memory.packs.keys = []) ∧
    ((readCatalogHead settledStore.disk.catalog).toOption.any fun head ↦
      settledStore.disk.catalog.fileExists "head.json" = true ∧
      (settledStore.memory.initialized = true ∧ settledStore.memory.lookup.isNone = true) ∧
      settledStore.memory.snapshotDigest = some head.snapshotDigest ∧
      head.snapshotSequence ≤ settledStore.memory.sequence ∧
      readDeferred settledStore.disk.catalog head settledStore.memory.sequence =
        .ok (settledStore.memory.deferredSinceSequence,
          settledStore.memory.deferredSnapshotBytes) ∧
      settledStore.disk.snapshots.entries = [head.snapshotName] ∧
      isTemporary head.snapshotName = false ∧
      lookupObsolete head.snapshotName head.snapshotName = false) = true ∧
    settledStore.loose absentObject.digest = none ∧
    settledStore.packed wrongObject 2 = .ok none ∧
    settledStore.loosely wrongObject 2 = .error (corrupt "CAS object metadata is invalid") ∧
    settledStore.loosely exampleObject 1 = .ok [97] := by
  decide +kernel

theorem settled_settledStore : ∃ head, Settled head settledStore := by
  obtain ⟨⟨hnames, hrecords, hpacks⟩, hcatalog, -⟩ := settledStore_contents
  rcases hhead : readCatalogHead settledStore.disk.catalog with e | head
  · rw [hhead] at hcatalog
    cases hcatalog
  · rw [hhead] at hcatalog
    obtain ⟨hfile, ⟨hinitialized, hlookup⟩, hdigest, hcovered, hdeferred, hsnapshots, hplain,
      hobsolete⟩ := of_decide_eq_true hcatalog
    exact ⟨head, {
      head_eq := ⟨hfile, hhead⟩
      loaded := ⟨hinitialized, Option.isNone_iff_eq_none.mp hlookup⟩
      authority := fun _ ↦ hdigest
      covered := hcovered
      records := by simp [hnames]
      deferred := hdeferred
      snapshotFiles := by simp [hsnapshots, hplain, hobsolete]
      recordFiles := by simp [hrecords]
      packFiles := by simp [hpacks] }⟩

end Example

end Cas
end Codeclew
