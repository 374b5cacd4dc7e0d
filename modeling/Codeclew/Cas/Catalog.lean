import Codeclew.Cas.Lookup

/-!
# The pack catalog in memory

The catalog is the set of packs by name, and from it the `locations`: for each object digest the
entry to read it from. This file has the functions that change a catalog in memory: applying one
journal record, replaying a list of record files, and turning a catalog into a snapshot and back.

A failing function keeps what it has changed, as the original does with its mutable references.
-/

namespace Codeclew.Cas

variable [Sha256]

/-! ## State -/

abbrev Packs := Std.ExtTreeMap String PackManifest compare

abbrev Locations := Std.ExtTreeMap String PackLocation compare

/-- A catalog as a process holds it. When `lookup` is present, `packs` and `locations` hold the
additions of the journal only. -/
structure CatalogState where
  initialized : Bool := false
  sequence : UInt64 := 0
  snapshotSequence : UInt64 := 0
  lastRecordDigest : Option String := none
  snapshotDigest : Option String := none
  tailBytes : UInt64 := 0
  deferredSinceSequence : Option UInt64 := none
  deferredSnapshotBytes : UInt64 := 0
  packs : Packs := ∅
  locations : Locations := ∅
  lookup : Option Lookup := none

/-- Addition that stops at the largest number. -/
def saturatingAdd (a b : UInt64) : UInt64 :=
  if a.toNat + b.toNat < 2 ^ 64 then a + b else UInt64.ofNat (2 ^ 64 - 1)

/-! ## Locations -/

/-- Offer one entry of a pack. The smallest pack name wins; within a pack the first entry does. -/
def addEntryToCatalog (dataName : String) (entry : PackEntry) :
    Program Locations ClewError Unit := do
  let catalog ← Program.get
  match catalog[entry.object.digest]? with
  | some existing =>
    if existing.entry.object ≠ entry.object then
      Program.fail (corrupt "CAS pack catalog has a digest collision")
    else if existing.dataName ≤ dataName then pure ()
    else Program.modify (·.insert entry.object.digest { dataName, entry })
  | none => Program.modify (·.insert entry.object.digest { dataName, entry })

def addPackToCatalog (dataName : String) (manifest : PackManifest) :
    Program Locations ClewError Unit :=
  Program.each manifest.objects (addEntryToCatalog dataName)

def locationsFromPacks (packs : Packs) : Except ClewError Locations :=
  match Program.each packs.toList (fun pack ↦ addPackToCatalog pack.1 pack.2) ∅ with
  | (.ok (), locations) => .ok locations
  | (.error e, _) => .error e

/-! ## Records -/

def onLocations (m : Program Locations ClewError Unit) : Program CatalogState ClewError Unit :=
  m.zoom CatalogState.locations fun locations state ↦ { state with locations }

def removeCatalogPack (pack : CatalogPack) : Program CatalogState ClewError Unit := do
  let state ← Program.get
  if state.packs[pack.dataName]? ≠ some pack.manifest then
    Program.fail (corrupt "CAS catalog removes a different or missing pack")
  else Program.modify fun state ↦ { state with packs := state.packs.erase pack.dataName }

/-- `state.locations = locations_from_packs(&state.packs)?`. -/
def rebuildLocations : Program CatalogState ClewError Unit := do
  let state ← Program.get
  let locations ← Program.lift (locationsFromPacks state.packs)
  Program.modify fun state ↦ { state with locations }

def applyCatalogRecord (record : CatalogRecord) : Program CatalogState ClewError Unit := do
  Program.lift (validatePackManifest record.pack.dataName record.pack.manifest)
  match record.operation with
  | .add =>
    let state ← Program.get
    Program.modify fun state ↦
      { state with packs := state.packs.insert record.pack.dataName record.pack.manifest }
    -- the insertion stands even when it replaced a pack and is then refused
    if state.packs.contains record.pack.dataName then
      Program.fail (corrupt "CAS catalog adds an existing pack")
    else onLocations (addPackToCatalog record.pack.dataName record.pack.manifest)
  | .remove =>
    removeCatalogPack record.pack
    rebuildLocations

/-- What follows an applied record: its number, its digest and its length go into the state. -/
def CatalogState.advance (state : CatalogState) (record : CatalogRecord) (digest : String)
    (length : ℕ) : CatalogState :=
  { state with
    sequence := record.sequence
    lastRecordDigest := some digest
    tailBytes := saturatingAdd state.tailBytes (UInt64.ofNat length) }

/-! ## Snapshots -/

def snapshotFromCatalogState (state : CatalogState) : CatalogSnapshot where
  schema := catalogSnapshotSchema
  sequence := state.sequence
  lastRecordDigest := state.lastRecordDigest
  packs := state.packs.toList.map fun pack ↦ { dataName := pack.1, manifest := pack.2 }

/-- Admit the packs of a snapshot in order. A thread pool has made its `checks` beforehand; without
one each manifest is checked in turn. -/
def admitPacks : List CatalogPack → (checks : Option (List (Except ClewError Unit))) →
    (previous : Option String) → Packs → Except ClewError Packs
  | [], _, _, packs => .ok packs
  | pack :: rest, checks, previous, packs => do
    if previous.any (pack.dataName ≤ ·) then
      throw (corrupt "CAS catalog snapshot packs are not strictly sorted")
    match checks with
    | some checks => checks.headD (.error (internal "one check per catalog pack"))
    | none => validatePackManifest pack.dataName pack.manifest
    if packs.contains pack.dataName then
      throw (corrupt "CAS catalog snapshot repeats a pack")
    admitPacks rest (checks.map List.tail) (some pack.dataName)
      (packs.insert pack.dataName pack.manifest)

def catalogStateFromSnapshotInPool (snapshot : CatalogSnapshot) (snapshotDigest : String)
    (pool : Bool) : Except ClewError CatalogState := do
  let checks := if pool then
      some (snapshot.packs.map fun pack ↦ validatePackManifest pack.dataName pack.manifest)
    else none
  let packs ← admitPacks snapshot.packs checks none ∅
  let locations ← locationsFromPacks packs
  return {
    initialized := true
    sequence := snapshot.sequence
    snapshotSequence := snapshot.sequence
    lastRecordDigest := snapshot.lastRecordDigest
    snapshotDigest := some snapshotDigest
    packs
    locations }

/-! ## Replay -/

/-- Read a record file and check that it is what its name says: the record, its digest and its
bytes. -/
def readCatalogRecord (records : Directory) (name : String) :
    Except ClewError (CatalogRecord × String × Bytes) := do
  let bytes ← match records.readFile name maxCatalogRecordBytes with
    | .ok bytes => .ok bytes
    | .error _ => .error (corrupt "CAS catalog record is missing or unsafe")
  let record : CatalogRecord ← match Json.decode bytes with
    | some record => .ok record
    | none => .error (corrupt "CAS catalog record is invalid")
  let digest := hashBytes (Json.encode record)
  let expected ← catalogRecordName record.sequence digest
  if record.schema ≠ catalogRecordSchema ∨ Json.encode record ≠ bytes ∨ expected ≠ name then
    throw (corrupt "CAS catalog record authority mismatch")
  return (record, digest, bytes)

/-- A replay under way: the state, and whether removals wait for the locations to be rebuilt. -/
structure Replay where
  state : CatalogState
  removalsPending : Bool

def onState (m : Program CatalogState ClewError Unit) : Program Replay ClewError Unit :=
  m.zoom Replay.state fun state replay ↦ { replay with state }

/-- The change a record makes in a replay. A removal only takes the pack out; an addition needs
the locations first, because a removal can expose a shadowed duplicate. -/
def replayOperation (record : CatalogRecord) (removalsPending : Bool) :
    Program Replay ClewError Unit :=
  match record.operation with
  | .remove => do
    Program.lift (validatePackManifest record.pack.dataName record.pack.manifest)
    onState (removeCatalogPack record.pack)
    Program.modify ({ · with removalsPending := true })
  | .add => do
    if removalsPending then
      onState rebuildLocations
      Program.modify ({ · with removalsPending := false })
    onState (applyCatalogRecord record)

def replayRecord (records : Directory) (name : String) : Program Replay ClewError Unit := do
  let (record, digest, bytes) ← Program.lift (readCatalogRecord records name)
  let replay ← Program.get
  if record.sequence ≤ replay.state.sequence then pure ()
  else if record.sequence ≠ replay.state.sequence + 1 ∨
      record.previousRecordDigest ≠ replay.state.lastRecordDigest then
    Program.fail (corrupt "CAS catalog record chain is discontinuous")
  else do
    replayOperation record replay.removalsPending
    onState (Program.modify (·.advance record digest bytes.length))

def replayCatalogRecordsLocked (records : Directory) (recordNames : List String) :
    Program CatalogState ClewError Unit := fun state ↦
  match Program.each recordNames (replayRecord records) { state, removalsPending := false } with
  | (outcome, replay) =>
    -- a valid prefix of removals is completed even when a later record is invalid
    if replay.removalsPending ∨ ¬outcome.isOk then
      match locationsFromPacks replay.state.packs with
      | .ok locations => (outcome, { replay.state with locations })
      | .error error => (outcome.bind fun _ ↦ .error error, {})
    else (outcome, replay.state)

end Codeclew.Cas
