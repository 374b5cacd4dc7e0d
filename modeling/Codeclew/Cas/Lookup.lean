import Codeclew.BinarySearch
import Codeclew.Chunks
import Codeclew.Cas.Reference

/-!
# The paged lookup

A derived form of a snapshot's locations that need not be loaded as a whole. Each object digest has
a row of fixed width that names its pack, schema, size and offset; the rows are sorted by digest and
cut into pages. The manifest of a lookup lists the packs, the schemas and the pages with the range
and the digest of each. To find an object is to search the pages, then the rows of one page.
-/

namespace Codeclew.Cas

open BinarySearch

/-! ## Constants -/

def lookupSchema : String := "codeclew-catalog-lookup/1.0"
def lookupReceiptSchema : String := "codeclew-catalog-lookup-receipt/1.0"
def minObjects : ℕ := 1024
def rowBytes : ℕ := 56
def pageRows : ℕ := 256
def cachePages : ℕ := 32
def maxManifestBytes : ℕ := 16 * 1024 * 1024
def maxDataBytes : ℕ := 256 * 1024 * 1024
def lookupSuffixes : List String := [".lookup-v1", ".lookup-v1.json", ".lookup-v1.receipt"]

/-! ## Rows -/

/-- The bytes of a number, the lowest first. -/
def littleEndian : (width n : ℕ) → Bytes
  | 0, _ => []
  | width + 1, n => UInt8.ofNat (n % 256) :: littleEndian width (n / 256)

def ofLittleEndian : Bytes → ℕ
  | [] => 0
  | b :: bytes => b.toNat + 256 * ofLittleEndian bytes

def Row.encode (row : Row) : Bytes :=
  row.digest.toList ++ littleEndian 4 row.pack.toNat ++ littleEndian 4 row.schema.toNat ++
    littleEndian 8 row.size.toNat ++ littleEndian 8 row.offset.toNat

def Row.decode (bytes : Bytes) : Row where
  digest := Vector.ofFn fun i ↦ bytes.getD i 0
  pack := UInt32.ofNat (ofLittleEndian ((bytes.drop 32).take 4))
  schema := UInt32.ofNat (ofLittleEndian ((bytes.drop 36).take 4))
  size := UInt64.ofNat (ofLittleEndian ((bytes.drop 40).take 8))
  offset := UInt64.ofNat (ofLittleEndian ((bytes.drop 48).take 8))

/-- What rows are sorted by: the digest. -/
def Row.key (row : Row) : List ℕ := digestKey row.digest

/-- `read_exact_at`: exactly `length` bytes from a position. -/
def readExactAt (data : Bytes) (offset length : ℕ) : Except ClewError Bytes :=
  if length ≠ 0 ∧ data.length < offset + length then
    .error (corrupt "catalog lookup page is truncated")
  else .ok ((data.drop offset).take length)

/-- The checks of one row, after the row before it. -/
def LookupManifest.admitRow (manifest : LookupManifest) (previous : Option Row) (row : Row) :
    Except ClewError Unit :=
  match manifest.packs[row.pack.toNat]? with
  | none => .error (corrupt "catalog lookup pack ordinal is invalid")
  | some pack =>
    if row.schema.toNat ≥ manifest.objectSchemas.length ∨
        row.offset.toNat + row.size.toNat ≥ 2 ^ 64 ∨
        row.offset.toNat + row.size.toNat > pack.dataSize.toNat ∨
        previous.any (fun last ↦ row.key ≤ last.key) then
      .error (corrupt "catalog lookup row authority is invalid")
    else .ok ()

def LookupManifest.admitRows (manifest : LookupManifest) :
    (previous : Option Row) → List Row → Except ClewError Unit
  | _, [] => .ok ()
  | previous, row :: rows => do
    manifest.admitRow previous row
    manifest.admitRows (some row) rows

section Pages

variable [Sha256]

/-! ## Pages -/

/-- The rows of a page, read from the data and checked. -/
def LookupManifest.readRows (manifest : LookupManifest) (data : Bytes) (page : Page) :
    Except ClewError (List Row) := do
  let bytes ← readExactAt data page.offset.toNat (page.rows.toNat * rowBytes)
  if hashBytes bytes ≠ page.digest then
    throw (corrupt "catalog lookup page digest mismatch")
  let rows := (List.range page.rows.toNat).map fun i ↦
    Row.decode ((bytes.drop (i * rowBytes)).take rowBytes)
  manifest.admitRows none rows
  let first ← binaryDigest page.first
  if rows.head?.map Row.digest ≠ some first then
    throw (corrupt "catalog lookup page range is invalid")
  let last ← binaryDigest page.last
  if rows.getLast?.map Row.digest ≠ some last then
    throw (corrupt "catalog lookup page range is invalid")
  return rows

/-- The rows of the page with this number. The number is always one of a page. -/
def LookupManifest.loadPage (manifest : LookupManifest) (data : Bytes) (index : ℕ) :
    Except ClewError (List Row) :=
  match manifest.pages[index]? with
  | none => .error (internal "index out of bounds")
  | some page => manifest.readRows data page

/-- An opened lookup: its manifest, the contents of its data file, and the pages read last. -/
structure Lookup where
  manifest : LookupManifest
  data : Bytes
  cache : List (ℕ × List Row) := []
  /-- A cached page is as the file has it. -/
  cached : ∀ entry ∈ cache, manifest.loadPage data entry.1 = .ok entry.2 := by nofun

/-- Put a page into the cache; a full cache drops its oldest page. -/
def Lookup.remember (lookup : Lookup) (index : ℕ) (rows : List Row)
    (h : lookup.manifest.loadPage lookup.data index = .ok rows) : Lookup where
  manifest := lookup.manifest
  data := lookup.data
  cache := (if lookup.cache.length = cachePages then lookup.cache.tail else lookup.cache)
    ++ [(index, rows)]
  cached := by
    intro entry hentry
    rcases List.mem_append.mp hentry with hold | hnew
    · refine lookup.cached entry ?_
      split at hold
      · exact List.mem_of_mem_tail hold
      · exact hold
    · rw [List.mem_singleton.mp hnew]
      exact h

def Lookup.readPage (index : ℕ) : Program Lookup ClewError (List Row) := fun lookup ↦
  match lookup.cache.find? (·.1 = index) with
  | some entry => (.ok entry.2, lookup)
  | none =>
    match h : lookup.manifest.loadPage lookup.data index with
    | .ok rows => (.ok rows, lookup.remember index rows h)
    | .error error => (.error error, lookup)

/-! ## Search -/

/-- The location a row stands for. The ordinals of an admitted row are in range. -/
def LookupManifest.location (manifest : LookupManifest) (digest : String) (row : Row) :
    Option PackLocation := do
  let pack ← manifest.packs[row.pack.toNat]?
  let objectSchema ← manifest.objectSchemas[row.schema.toNat]?
  return {
    dataName := pack.dataName
    entry := {
      object := { schema := casObjectSchema, objectSchema, digest, size := row.size }
      offset := row.offset } }

/-- The page whose range covers a digest. -/
def LookupManifest.pageOf (manifest : LookupManifest) (digest : String) : Option ℕ :=
  let page := partitionPoint manifest.pages fun page ↦ page.last < digest
  match manifest.pages[page]? with
  | none => none
  | some reference => if digest < reference.first then none else some page

def Lookup.find (digest : String) : Program Lookup ClewError (Option PackLocation) := do
  let wanted ← Program.lift (binaryDigest digest)
  let lookup ← Program.get
  match lookup.manifest.pageOf digest with
  | none => pure none
  | some page =>
    let rows ← readPage page
    match (binarySearchByKey rows Row.key (digestKey wanted)).bind (rows[·]?) with
    | none => pure none
    | some row => pure (lookup.manifest.location digest row)

end Pages

/-! ## Files -/

/-- The names of a lookup's files: its data, its manifest and its receipt. -/
def lookupNames (digest : String) : Except ClewError (String × String × String) := do
  let component ← digestComponent digest
  return (component ++ ".lookup-v1", component ++ ".lookup-v1.json",
    component ++ ".lookup-v1.receipt")

/-- A file of the lookup of another snapshot. -/
def lookupObsolete (name currentSnapshot : String) : Bool :=
  lookupSuffixes.any fun suffix ↦
    (stripSuffix suffix name).any fun component ↦
      isLowerHex component 64 && component ++ ".snapshot" != currentSnapshot

def Fingerprint.read (file : File) : Fingerprint where
  bytes := UInt64.ofNat file.bytes.length
  metadata := file.metadata

/-! ## Building -/

/-- The object schemas of a snapshot, each once and in order. -/
def lookupSchemas (snapshot : CatalogSnapshot) : List String :=
  (Std.ExtTreeSet.ofList (snapshot.packs.flatMap fun pack ↦
    pack.manifest.objects.map fun entry ↦ entry.object.objectSchema) compare).toList

def lookupRow (schemas : List String) (packIndex : ℕ) (entry : PackEntry) :
    Except ClewError Row := do
  let digest ← binaryDigest entry.object.digest
  if packIndex ≥ 2 ^ 32 then
    throw (internal "out of range integral type conversion attempted")
  match binarySearchByKey schemas id entry.object.objectSchema with
  | none => throw (internal "collected schema")
  | some schema =>
    return {
      digest
      pack := UInt32.ofNat packIndex
      schema := UInt32.ofNat schema
      size := entry.object.size
      offset := entry.offset }

/-- A row for each entry of each pack. -/
def lookupRows (schemas : List String) : (packIndex : ℕ) → List CatalogPack →
    Except ClewError (List Row)
  | _, [] => .ok []
  | packIndex, pack :: packs => do
    let rows ← pack.manifest.objects.mapM (lookupRow schemas packIndex)
    return rows ++ (← lookupRows schemas (packIndex + 1) packs)

/-- The order rows are sorted in: by digest, and for one digest by pack. -/
def Row.order (row : Row) : List ℕ ×ₗ ℕ := toLex (row.key, row.pack.toNat)

/-- Two neighbouring rows that would be one object with two schemas or sizes. -/
def rowCollision (a b : Row) : Bool :=
  a.digest = b.digest && (a.schema != b.schema || a.size != b.size)

/-- The rows of a snapshot, sorted, one for each digest. -/
def sortedRows (rows : List Row) : Except ClewError (List Row) :=
  let rows := rows.mergeSort fun a b ↦ a.order ≤ b.order
  if (rows.zip rows.tail).any fun pair ↦ rowCollision pair.1 pair.2 then
    .error (corrupt "catalog lookup contains a digest collision")
  else .ok (rows.destutter fun a b ↦ a.digest ≠ b.digest)

/-- The directory entry of a page, the `index`-th one. -/
def pageEntry [Sha256] (rows : List Row) (index : ℕ) : Page where
  first := (rows.head?.map fun row ↦ digestText row.digest).getD ""
  last := (rows.getLast?.map fun row ↦ digestText row.digest).getD ""
  digest := hashBytes (rows.flatMap Row.encode)
  offset := UInt64.ofNat (index * pageRows * rowBytes)
  rows := UInt32.ofNat rows.length

/-- The manifest and the data of a snapshot's lookup. -/
def buildLookup [Sha256] (snapshot : CatalogSnapshot) (digest : String) :
    Except ClewError (LookupManifest × Bytes) := do
  let schemas := lookupSchemas snapshot
  let rows ← sortedRows (← lookupRows schemas 0 snapshot.packs)
  let data := rows.flatMap Row.encode
  let manifest := {
    schema := lookupSchema
    snapshotDigest := digest
    sequence := snapshot.sequence
    lastRecordDigest := snapshot.lastRecordDigest
    objectCount := UInt64.ofNat rows.length
    dataBytes := UInt64.ofNat data.length
    packs := snapshot.packs.map fun pack ↦
      { dataName := pack.dataName, dataSize := pack.manifest.dataSize }
    objectSchemas := schemas
    pages := (chunks pageRows rows).mapIdx fun index page ↦ pageEntry page index }
  return (manifest, data)

end Codeclew.Cas
