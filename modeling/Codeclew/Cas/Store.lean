import Codeclew.Cas.World

/-!
# The catalog on disk

The operations that load the catalog from its files, append records to its journal, publish
snapshots and prune what they cover. Each runs under the batch lock, so no other process takes a
step in between; the locks themselves are not modelled.

The catalog's files are a head, which names a snapshot, the snapshot, the records after it, a marker
when a snapshot was put off because it is too large, and the derived lookup of the snapshot.
-/

namespace Codeclew.Cas

variable [Sha256] [Host]

/-! ## Files -/

/-- Whether a name begins as those of temporary files do. -/
def isTemporary (name : String) : Bool := (stripPrefix ".tmp-" name).isSome

/-- `if file_exists(name)? { remove_file(name)? }`. -/
def removeIfPresent (place : Place) (name : String) : Action Unit := do
  let present ← fileExists place name
  Program.whenever (present = true) (removeFile place name)

/-- Install a file once; if there is one already it has to be the same. -/
def installOnce (place : Place) (name : String) (bytes : Bytes) (maxBytes : ℕ)
    (error : ClewError) : Action Unit := do
  let installed ← atomicCreate place name bytes
  Program.whenever (installed = false) do
    let existing ← readFile place name maxBytes
    Program.require (existing = bytes) error

/-- The names of the records, which are in the order of their sequence numbers. -/
def recordNames (records : Directory) : List String :=
  records.entries.filter fun name ↦ extension name = some "record"

/-! ## Pruning -/

def pruneSnapshotFile (currentSnapshot name : String) : Action Unit :=
  Program.whenever (isTemporary name ∨
      (extension name = some "snapshot" ∧ name ≠ currentSnapshot) ∨
      lookupObsolete name currentSnapshot)
    (removeFile .snapshots name)

def pruneRecordFile (coveredSequence : UInt64) (name : String) : Action Unit :=
  if isTemporary name then removeFile .records name
  else if extension name ≠ some "record" then pure ()
  else
    match catalogRecordSequence name with
    | none => Program.fail (corrupt "CAS catalog record name is invalid")
    | some sequence =>
      Program.whenever (sequence ≤ coveredSequence) (removeFile .records name)

def pruneCatalogMetadataLocked (currentSnapshot : String) (coveredSequence : UInt64) :
    Action Unit := do
  let snapshots ← entries .snapshots
  Program.each snapshots (pruneSnapshotFile currentSnapshot)
  let records ← entries .records
  Program.each records (pruneRecordFile coveredSequence)

/-- The index and the receipt of a pack are not needed once the catalog has it. -/
def prunePackMetadata (dataName : String) : Action Unit := do
  removeIfPresent .packs (fileStem dataName ++ ".json")
  removeIfPresent .packs (fileStem dataName ++ ".verified")

def pruneRedundantPackMetadataLocked : Action Unit := do
  let state ← memory
  Program.each state.packs.keys prunePackMetadata

/-! ## The lookup's files -/

def publishLookupFiles (names : String × String × String) (digest : String)
    (snapshot : Fingerprint) (manifest : LookupManifest) (data : Bytes) : Action Unit := do
  -- without its receipt the lookup does not count, so a crash in between selects the snapshot
  removeIfPresent .snapshots names.2.2
  atomicWrite .snapshots names.1 data
  atomicWrite .snapshots names.2.1 (Json.encode manifest)
  let file ← openFile .snapshots names.1
  let receipt : Receipt := {
    schema := lookupReceiptSchema
    snapshotDigest := digest
    snapshot
    manifestDigest := hashBytes (Json.encode manifest)
    data := Fingerprint.read file }
  atomicWrite .snapshots names.2.2 (Json.encode receipt)

/-- `lookup::publish`. Small snapshots have no lookup, and neither have those too large for one. -/
def publishLookup (snapshot : CatalogSnapshot) (digest : String) : Action Unit := do
  let count := (snapshot.packs.map fun pack ↦ pack.manifest.objects.length).sum
  Program.whenever (minObjects ≤ count ∧ count ≤ maxDataBytes / rowBytes) do
    let names ← Program.lift (lookupNames digest)
    let component ← Program.lift (digestComponent digest)
    let snapshotFile ← openFile .snapshots (component ++ ".snapshot")
    let (manifest, data) ← Program.lift (buildLookup snapshot digest)
    Program.whenever ((Json.encode manifest).length ≤ maxManifestBytes)
      (publishLookupFiles names digest (Fingerprint.read snapshotFile) manifest data)

/-! ## Snapshots -/

def parallelCatalogMinObjects : ℕ := 32 * 1024

/-- Large snapshots are checked by a thread pool where there can be one. -/
def catalogStateFromSnapshot (snapshot : CatalogSnapshot) (snapshotDigest : String) :
    Except ClewError CatalogState :=
  let large := 1 < snapshot.packs.length ∧
    parallelCatalogMinObjects ≤ (snapshot.packs.map fun pack ↦ pack.manifest.objects.length).sum
  catalogStateFromSnapshotInPool snapshot snapshotDigest (decide large && Host.threadPool)

def publishCatalogSnapshotLocked (snapshot : CatalogSnapshot) : Action Unit := do
  let bytes := Json.encode snapshot
  Program.require (bytes.length ≤ maxCatalogSnapshotBytes)
    ⟨.resourceLimit, "CAS catalog snapshot exceeds its bounded size"⟩
  let digest := hashBytes bytes
  let component ← Program.lift (digestComponent digest)
  let snapshotName := component ++ ".snapshot"
  installOnce .snapshots snapshotName bytes maxCatalogSnapshotBytes
    (corrupt "CAS catalog snapshot has another authority")
  let head : CatalogHead := {
    schema := catalogHeadSchema
    snapshotName
    snapshotDigest := digest
    snapshotSequence := snapshot.sequence
    lastRecordDigest := snapshot.lastRecordDigest }
  atomicWrite .catalog "head.json" (Json.encode head)
  let state ← memory
  Program.whenever (state.initialized = false ∨ state.sequence ≤ snapshot.sequence) do
    setMemory (← Program.lift (catalogStateFromSnapshot snapshot digest))
  (publishLookup snapshot digest).ignore
  pruneCatalogMetadataLocked snapshotName snapshot.sequence
  pruneRedundantPackMetadataLocked
  -- a marker that stays is ignored from now on, because the head covers it
  (removeIfPresent .catalog "deferred.json").ignore

/-! ## Loading -/

def readCatalogHead (catalog : Directory) : Except ClewError CatalogHead := do
  let headBytes ← (catalog.readFile "head.json" maxCatalogHeadBytes).mapError fun _ ↦
    corrupt "CAS catalog head is missing or unsafe"
  match Json.decode headBytes with
  | none => throw (corrupt "CAS catalog head is invalid")
  | some (head : CatalogHead) =>
    if head.schema ≠ catalogHeadSchema ∨ Json.encode head ≠ headBytes ∨
        extension head.snapshotName ≠ some "snapshot" ∨
        (digestComponent head.snapshotDigest).map (· ++ ".snapshot") ≠ .ok head.snapshotName then
      throw (corrupt "CAS catalog head authority mismatch")
    else return head

/-- The snapshot the head names. -/
def readSnapshot (snapshots : Directory) (head : CatalogHead) :
    Except ClewError CatalogSnapshot := do
  let bytes ← (snapshots.readFile head.snapshotName maxCatalogSnapshotBytes).mapError fun _ ↦
    corrupt "CAS catalog snapshot is missing or unsafe"
  if hashBytes bytes ≠ head.snapshotDigest then
    throw (corrupt "CAS catalog snapshot digest mismatch")
  match Json.decode bytes with
  | none => throw (corrupt "CAS catalog snapshot is invalid")
  | some (snapshot : CatalogSnapshot) =>
    if snapshot.schema ≠ catalogSnapshotSchema ∨ Json.encode snapshot ≠ bytes ∨
        snapshot.sequence ≠ head.snapshotSequence ∨
        snapshot.lastRecordDigest ≠ head.lastRecordDigest then
      throw (corrupt "CAS catalog snapshot authority mismatch")
    else return snapshot

def loadSnapshotLocked (head : CatalogHead) : Action Unit := do
  let snapshot ← inspect .snapshots (readSnapshot · head)
  setMemory (← Program.lift (catalogStateFromSnapshot snapshot head.snapshotDigest))
  (publishLookup snapshot head.snapshotDigest).ignore

/-- What the marker says to a handle at a sequence number: the number of the snapshot that was put
off, if there is one after the head's, and its length. -/
def readDeferred (catalog : Directory) (head : CatalogHead) (sequence : UInt64) :
    Except ClewError (Option UInt64 × UInt64) := do
  if catalog.fileExists "deferred.json" = false then return (none, 0)
  let bytes ← (catalog.readFile "deferred.json" maxCatalogDeferredBytes).mapError fun _ ↦
    corrupt "CAS deferred catalog marker is unsafe"
  match Json.decode bytes with
  | none => throw (corrupt "CAS deferred catalog marker is invalid")
  | some (marker : CatalogDeferred) =>
    if marker.schema ≠ catalogDeferredSchema ∨ Json.encode marker ≠ bytes ∨
        ¬(digestComponent marker.baseSnapshotDigest).isOk ∨ marker.snapshotBytes = 0 then
      throw (corrupt "CAS deferred catalog marker authority mismatch")
    -- a crash can leave the marker of an older head behind
    else if marker.deferredSequence ≤ head.snapshotSequence then return (none, 0)
    else if marker.baseSnapshotDigest ≠ head.snapshotDigest ∨
        marker.baseSnapshotSequence ≠ head.snapshotSequence ∨
        sequence < marker.deferredSequence then
      throw (corrupt "CAS deferred catalog marker differs from its journal")
    else return (some marker.deferredSequence, marker.snapshotBytes)

def setDeferred (since : Option UInt64) (bytes : UInt64) : Action Unit :=
  onMemory (Program.modify fun state ↦ { state with
    deferredSinceSequence := since, deferredSnapshotBytes := bytes })

def loadCatalogDeferredLocked (head : CatalogHead) : Action Unit := do
  let state ← memory
  let deferred ← inspect .catalog (readDeferred · head state.sequence)
  setDeferred deferred.1 deferred.2

/-! ## Packs -/

def packVerificationReceipt (manifestDigest : String) (manifest : PackManifest) (file : File) :
    PackVerificationReceipt where
  schema := packVerificationSchema
  manifestDigest := manifestDigest
  dataSha256 := manifest.dataSha256
  dataSize := UInt64.ofNat file.bytes.length
  metadata := file.metadata

/-- The receipt of an earlier verification, if it is there and canonical. -/
def cachedReceipt (packs : Directory) (name : String) : Option PackVerificationReceipt := do
  let bytes ← (packs.readFile name maxPackVerificationBytes).toOption
  let cached ← Json.decode bytes
  if Json.encode cached = bytes then some cached else none

def verifyPackData (dataName component manifestDigest : String) (manifest : PackManifest) :
    Action Unit := do
  let file ← (openFile .packs dataName).mapError fun _ ↦
    corrupt "CAS pack data is missing or unsafe"
  Program.require (file.bytes.length = manifest.dataSize.toNat)
    (corrupt "CAS pack data size differs from its manifest")
  let receipt := packVerificationReceipt manifestDigest manifest file
  let cached ← inspect .packs fun packs ↦ .ok (cachedReceipt packs (component ++ ".verified"))
  Program.whenever (cached ≠ some receipt) do
    Program.require (hashBytes file.bytes = manifest.dataSha256)
      (corrupt "CAS pack data digest differs from its manifest")
    atomicWrite .packs (component ++ ".verified") (Json.encode receipt)

def verifyPackPair (dataName indexName : String) (expected : Option PackManifest) :
    Action PackManifest := do
  let bytes ← (readFile .packs indexName maxPackIndexBytes).mapError fun _ ↦
    corrupt "CAS pack index is missing or unsafe"
  match Json.decode bytes with
  | none => Program.fail (corrupt "CAS pack index is invalid")
  | some (manifest : PackManifest) =>
    Program.require (Json.encode manifest = bytes ∧ expected.all (· = manifest))
      (corrupt "CAS pack authority mismatch")
    let manifestDigest := hashBytes bytes
    let component ← Program.lift (digestComponent manifestDigest)
    Program.lift (validatePackManifest dataName manifest)
    verifyPackData dataName component manifestDigest manifest
    return manifest

/-- The first snapshot of a store whose packs were written before there was a catalog. -/
def bootstrapCatalogSnapshot : Action CatalogSnapshot := do
  let names ← entries .packs
  let indexes := names.filter fun name ↦ extension name = some "json"
  let verified ← Program.collect indexes fun indexName ↦ do
    let dataName := fileStem indexName ++ ".pack"
    let manifest ← verifyPackPair dataName indexName none
    return ({ dataName, manifest } : CatalogPack)
  return {
    schema := catalogSnapshotSchema
    sequence := 0
    lastRecordDigest := none
    packs := verified.mergeSort fun a b ↦ a.dataName ≤ b.dataName }

/-! ## Synchronizing -/

/-- Without a head the catalog is made from the packs; but not where there once was one. -/
def ensureHeadLocked : Action Unit := do
  let present ← fileExists .catalog "head.json"
  Program.whenever (present = false) do
    let snapshots ← entries .snapshots
    let records ← entries .records
    Program.require ((∀ name ∈ snapshots, extension name ≠ some "snapshot") ∧
        ∀ name ∈ records, extension name ≠ some "record")
      (corrupt "CAS catalog head is missing from non-empty metadata")
    let snapshot ← bootstrapCatalogSnapshot
    publishCatalogSnapshotLocked snapshot

def replayRecordsLocked : Action Unit := do
  let records ← inspect .records .ok
  onMemory (replayCatalogRecordsLocked records (recordNames records))

def syncCatalogLocked : Action Unit := do
  ensureHeadLocked
  let head ← inspect .catalog readCatalogHead
  let state ← memory
  Program.require (¬(state.initialized = true ∧ head.snapshotSequence = state.snapshotSequence ∧
      state.snapshotDigest ≠ some head.snapshotDigest))
    (corrupt "CAS catalog head changed snapshot authority")
  Program.whenever (state.initialized = false ∨ state.lookup.isSome ∨
      state.sequence < head.snapshotSequence)
    (loadSnapshotLocked head)
  replayRecordsLocked
  loadCatalogDeferredLocked head
  pruneCatalogMetadataLocked head.snapshotName head.snapshotSequence
  pruneRedundantPackMetadataLocked

end Codeclew.Cas
