import Codeclew.Cas.Store

/-!
# Objects

Reading an object, storing one as a loose file, and storing a batch as one pack.

An object is looked for in the catalog first and then among the loose files. A loose file that does
not match the reference is moved to the quarantine; after that the catalog is synchronized and asked
once more.
-/

namespace Codeclew.Cas

variable [Sha256] [Host]

def CasObject.forBytes (objectSchema : String) (bytes : Bytes) : Except ClewError CasObject := do
  validateObjectSchema objectSchema
  return {
    schema := casObjectSchema
    objectSchema
    digest := objectDigest objectSchema bytes
    size := UInt64.ofNat bytes.length }

/-! ## The catalog -/

/-- One location out of what the journal added and what the lookup has: the smaller pack. -/
def selectLocation (added base : Option PackLocation) : Except ClewError (Option PackLocation) :=
  match base with
  | none => .ok added
  | some base =>
    if added.any fun added ↦ added.entry.object ≠ base.entry.object then
      .error (corrupt "CAS pack catalog has a digest collision")
    else if added.all fun added ↦ base.dataName < added.dataName then .ok (some base)
    else .ok added

/-- The location of a digest in the catalog of a handle. -/
def catalogLocation (digest : String) : Program CatalogState ClewError (Option PackLocation) :=
  fun state ↦
    match state.lookup with
    | none => (.ok state.locations[digest]?, state)
    | some lookup =>
      match Lookup.find digest lookup with
      | (.ok base, lookup) =>
        (selectLocation state.locations[digest]? base, { state with lookup := some lookup })
      | (.error error, lookup) => (.error error, { state with lookup := some lookup })

/-- The bytes of an object in a pack's data. -/
def readPacked (packs : Directory) (object : CasObject) (maxBytes : ℕ) (location : PackLocation) :
    Except ClewError Bytes := do
  if location.entry.object ≠ object ∨ object.size.toNat > maxBytes then
    throw (corrupt "CAS pack reference differs from requested object")
  let file ← (packs.openFile location.dataName).mapError fun _ ↦
    corrupt "CAS packed data is missing or unsafe"
  if location.entry.offset.toNat ≥ 2 ^ 63 then
    throw (corrupt "CAS packed object offset is unreadable")
  if object.size ≠ 0 ∧ file.bytes.length < location.entry.offset.toNat + object.size.toNat then
    throw (corrupt "CAS packed object is truncated")
  let bytes := (file.bytes.drop location.entry.offset.toNat).take object.size.toNat
  if objectDigest object.objectSchema bytes ≠ object.digest then
    throw (corrupt "CAS packed object digest mismatch")
  return bytes

def readFromCatalog (object : CasObject) (maxBytes : ℕ) : Action (Option Bytes) := do
  match ← onMemory (catalogLocation object.digest) with
  | none => return none
  | some location =>
    let bytes ← inspect .packs (readPacked · object maxBytes location)
    return some bytes

/-! ## Loose objects -/

/-- The shard of a digest and the name of its file there. -/
def objectLocation (digest : String) : Except ClewError (String × String) := do
  let component ← digestComponent digest
  return (String.ofList ((chars component).take 2), String.ofList ((chars component).drop 2))

/-- The bytes of a loose file, if they are those of the object. -/
def readPath (object : CasObject) (directory : Directory) (name : String) (maxBytes : ℕ) :
    Except ClewError Bytes := do
  let file ← (directory.openFile name).mapError fun _ ↦ corrupt "CAS object is missing or unsafe"
  if file.bytes.length ≠ object.size.toNat ∨ file.bytes.length > maxBytes then
    throw (corrupt "CAS object metadata is invalid")
  -- `max_bytes as u64 + 1` wraps
  let bytes := file.bytes.take ((maxBytes + 1) % 2 ^ 64)
  if bytes.length ≠ object.size.toNat ∨ objectDigest object.objectSchema bytes ≠ object.digest then
    throw (corrupt "CAS object digest mismatch")
  return bytes

def quarantineLocked (shard name digest : String) : Action Unit := do
  let random ← uuid
  match stripPrefix "sha256:" digest with
  | none => Program.fail (corrupt "CAS digest prefix is invalid")
  | some component =>
    renameTo (.shard shard) name .quarantine ("cas-" ++ component ++ "-" ++ random)

/-! ## Reading -/

/-- After a failure to read the loose file: it is moved away, and the catalog, brought up to date,
is the last to be asked. -/
def recoverObject (object : CasObject) (maxBytes : ℕ) (shard name : String) (error : ClewError) :
    Action Bytes := do
  let present ← fileExists (.shard shard) name
  Program.whenever (present = true) (quarantineLocked shard name object.digest)
  syncCatalogLocked
  match ← readFromCatalog object maxBytes with
  | some bytes => return bytes
  | none => Program.fail error

def read (object : CasObject) (maxBytes : ℕ) : Action Bytes := do
  Program.lift (validateReference object)
  Program.require (object.size.toNat ≤ maxBytes)
    ⟨.resourceLimit, "CAS object exceeds the caller's read budget"⟩
  match ← readFromCatalog object maxBytes with
  | some bytes => return bytes
  | none =>
    let (shard, name) ← Program.lift (objectLocation object.digest)
    match ← inspect (.shard shard) (.ok <| readPath object · name maxBytes) with
    | .ok bytes => return bytes
    | .error error => recoverObject object maxBytes shard name error

/-! ## Writing -/

def put (objectSchema : String) (bytes : Bytes) : Action CasObject := do
  let object ← Program.lift (CasObject.forBytes objectSchema bytes)
  let (shard, name) ← Program.lift (objectLocation object.digest)
  let existing ← inspect (.shard shard) (.ok <| readPath object · name bytes.length)
  if existing = .ok bytes then return object
  else
    let present ← fileExists (.shard shard) name
    Program.whenever (present = true) (quarantineLocked shard name object.digest)
    atomicWrite (.shard shard) name bytes
    let persisted ← inspect (.shard shard) (readPath object · name bytes.length)
    Program.require (persisted = bytes) (corrupt "CAS object changed during atomic publication")
    return object

end Codeclew.Cas
