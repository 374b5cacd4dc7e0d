import Codeclew.Json.Format

/-!
# Data of the content-addressed store

The documents of the store and their wire forms. Objects are stored in packs; a pack's manifest
lists what it holds and where. The catalog of packs is kept as a snapshot, a head that names the
snapshot, a journal of records after it, and an optional marker that a snapshot was put off. The
derived lookup has a manifest of its pages and a receipt that binds it to the snapshot.

Every document is written in one canonical form, its members in key order.
-/

namespace Codeclew.Cas

/-! ## Constants -/

def casObjectSchema : String := "codeclew-cas-object/2.0"
def casPackSchema : String := "codeclew-cas-pack/3.0"
def packVerificationSchema : String := "codeclew-cas-pack-verification/1.0"
def catalogHeadSchema : String := "codeclew-cas-catalog-head/1.0"
def catalogSnapshotSchema : String := "codeclew-cas-catalog-snapshot/1.0"
def catalogRecordSchema : String := "codeclew-cas-catalog-record/1.0"
def catalogDeferredSchema : String := "codeclew-cas-catalog-deferred/1.0"
def maxPackIndexBytes : ℕ := 64 * 1024 * 1024
def maxPackVerificationBytes : ℕ := 4096
def maxCatalogHeadBytes : ℕ := 4096
def maxCatalogDeferredBytes : ℕ := 4096
def maxCatalogSnapshotBytes : ℕ := 256 * 1024 * 1024
def maxCatalogRecordBytes : ℕ := maxPackIndexBytes + 4096

/-! ## Objects and packs -/

/-- A reference to an object. -/
structure CasObject where
  digest : String
  objectSchema : String
  schema : String
  size : UInt64
  deriving DecidableEq, Repr

structure PackEntry where
  object : CasObject
  offset : UInt64
  deriving DecidableEq, Repr

structure PackManifest where
  dataSha256 : String
  dataSize : UInt64
  objects : List PackEntry
  schema : String
  deriving DecidableEq, Repr

/-- Where to read an object: an entry of a pack. -/
structure PackLocation where
  dataName : String
  entry : PackEntry
  deriving DecidableEq, Repr

structure PackVerificationReceipt where
  schema : String
  manifestDigest : String
  dataSha256 : String
  dataSize : UInt64
  metadata : Metadata
  deriving DecidableEq

/-! ## The catalog on disk -/

structure CatalogPack where
  dataName : String
  manifest : PackManifest
  deriving DecidableEq, Repr

structure CatalogSnapshot where
  lastRecordDigest : Option String
  packs : List CatalogPack
  schema : String
  sequence : UInt64
  deriving DecidableEq, Repr

structure CatalogHead where
  schema : String
  snapshotName : String
  snapshotDigest : String
  snapshotSequence : UInt64
  lastRecordDigest : Option String
  deriving DecidableEq, Repr

structure CatalogDeferred where
  schema : String
  baseSnapshotDigest : String
  baseSnapshotSequence : UInt64
  deferredSequence : UInt64
  snapshotBytes : UInt64
  deriving DecidableEq, Repr

inductive CatalogOperation where
  | add
  | remove
  deriving DecidableEq, Repr

structure CatalogRecord where
  operation : CatalogOperation
  pack : CatalogPack
  previousRecordDigest : Option String
  schema : String
  sequence : UInt64
  deriving DecidableEq, Repr

/-! ## The derived lookup -/

structure LookupPack where
  dataName : String
  dataSize : UInt64
  deriving DecidableEq, Repr

/-- A page of rows: the range of its digests, its own digest and its place in the data. -/
structure Page where
  first : String
  last : String
  digest : String
  offset : UInt64
  rows : UInt32
  deriving DecidableEq, Repr

structure LookupManifest where
  schema : String
  snapshotDigest : String
  sequence : UInt64
  lastRecordDigest : Option String
  objectCount : UInt64
  dataBytes : UInt64
  packs : List LookupPack
  objectSchemas : List String
  pages : List Page
  deriving DecidableEq, Repr

/-- A file's metadata together with its length. -/
structure Fingerprint where
  bytes : UInt64
  metadata : Metadata
  deriving DecidableEq

structure Receipt where
  schema : String
  snapshotDigest : String
  snapshot : Fingerprint
  manifestDigest : String
  data : Fingerprint
  deriving DecidableEq

/-- A fixed-width record of the lookup. -/
structure Row where
  digest : Vector UInt8 32
  pack : UInt32
  schema : UInt32
  size : UInt64
  offset : UInt64
  deriving DecidableEq

/-! ## Wire forms -/

section Wire

open Json

instance : Codec CasObject where
  toJson c := .obj [("digest", toJson c.digest), ("objectSchema", toJson c.objectSchema),
    ("schema", toJson c.schema), ("size", toJson c.size)]
  ofJson? j := do
    guard (j.onlyFields ["digest", "objectSchema", "schema", "size"])
    let digest ← field j "digest"
    let objectSchema ← field j "objectSchema"
    let schema ← field j "schema"
    let size ← field j "size"
    return { digest, objectSchema, schema, size }
  levels := 1

instance : Codec PackEntry where
  toJson p := .obj [("object", toJson p.object), ("offset", toJson p.offset)]
  ofJson? j := do
    guard (j.onlyFields ["object", "offset"])
    let object ← field j "object"
    let offset ← field j "offset"
    return { object, offset }
  levels := 2

instance : Codec PackManifest where
  toJson p := .obj [("dataSha256", toJson p.dataSha256), ("dataSize", toJson p.dataSize),
    ("objects", toJson p.objects), ("schema", toJson p.schema)]
  ofJson? j := do
    guard (j.onlyFields ["dataSha256", "dataSize", "objects", "schema"])
    let dataSha256 ← field j "dataSha256"
    let dataSize ← field j "dataSize"
    let objects ← field j "objects"
    let schema ← field j "schema"
    return { dataSha256, dataSize, objects, schema }
  levels := 4

instance : Codec CatalogPack where
  toJson c := .obj [("dataName", toJson c.dataName), ("manifest", toJson c.manifest)]
  ofJson? j := do
    guard (j.onlyFields ["dataName", "manifest"])
    let dataName ← field j "dataName"
    let manifest ← field j "manifest"
    return { dataName, manifest }
  levels := 5

instance : Codec CatalogSnapshot where
  toJson c := .obj [("lastRecordDigest", optionToJson c.lastRecordDigest),
    ("packs", toJson c.packs), ("schema", toJson c.schema), ("sequence", toJson c.sequence)]
  ofJson? j := do
    guard (j.onlyFields ["lastRecordDigest", "packs", "schema", "sequence"])
    let lastRecordDigest ← optionalField j "lastRecordDigest"
    let packs ← field j "packs"
    let schema ← field j "schema"
    let sequence ← field j "sequence"
    return { lastRecordDigest, packs, schema, sequence }
  levels := 7

instance : Codec CatalogHead where
  toJson c := .obj [("lastRecordDigest", optionToJson c.lastRecordDigest),
    ("schema", toJson c.schema), ("snapshotDigest", toJson c.snapshotDigest),
    ("snapshotName", toJson c.snapshotName), ("snapshotSequence", toJson c.snapshotSequence)]
  ofJson? j := do
    guard (j.onlyFields ["lastRecordDigest", "schema", "snapshotDigest", "snapshotName",
      "snapshotSequence"])
    let lastRecordDigest ← optionalField j "lastRecordDigest"
    let schema ← field j "schema"
    let snapshotDigest ← field j "snapshotDigest"
    let snapshotName ← field j "snapshotName"
    let snapshotSequence ← field j "snapshotSequence"
    return { lastRecordDigest, schema, snapshotDigest, snapshotName, snapshotSequence }
  levels := 1

instance : Codec CatalogDeferred where
  toJson c := .obj [("baseSnapshotDigest", toJson c.baseSnapshotDigest),
    ("baseSnapshotSequence", toJson c.baseSnapshotSequence),
    ("deferredSequence", toJson c.deferredSequence), ("schema", toJson c.schema),
    ("snapshotBytes", toJson c.snapshotBytes)]
  ofJson? j := do
    guard (j.onlyFields ["baseSnapshotDigest", "baseSnapshotSequence", "deferredSequence",
      "schema", "snapshotBytes"])
    let baseSnapshotDigest ← field j "baseSnapshotDigest"
    let baseSnapshotSequence ← field j "baseSnapshotSequence"
    let deferredSequence ← field j "deferredSequence"
    let schema ← field j "schema"
    let snapshotBytes ← field j "snapshotBytes"
    return { baseSnapshotDigest, baseSnapshotSequence, deferredSequence, schema, snapshotBytes }
  levels := 1

instance : Codec CatalogOperation where
  toJson
    | .add => .str "ADD"
    | .remove => .str "REMOVE"
  ofJson? j :=
    if j = .str "ADD" then some .add else if j = .str "REMOVE" then some .remove else none
  levels := 0
  ofJson?_toJson o := by cases o <;> simp
  valid_toJson o := by cases o <;> trivial
  depth_toJson o := by cases o <;> exact le_rfl

instance : Codec CatalogRecord where
  toJson c := .obj [("operation", toJson c.operation), ("pack", toJson c.pack),
    ("previousRecordDigest", optionToJson c.previousRecordDigest), ("schema", toJson c.schema),
    ("sequence", toJson c.sequence)]
  ofJson? j := do
    guard (j.onlyFields ["operation", "pack", "previousRecordDigest", "schema", "sequence"])
    let operation ← field j "operation"
    let pack ← field j "pack"
    let previousRecordDigest ← optionalField j "previousRecordDigest"
    let schema ← field j "schema"
    let sequence ← field j "sequence"
    return { operation, pack, previousRecordDigest, schema, sequence }
  levels := 6

instance : Codec LookupPack where
  toJson l := .obj [("dataName", toJson l.dataName), ("dataSize", toJson l.dataSize)]
  ofJson? j := do
    guard (j.onlyFields ["dataName", "dataSize"])
    let dataName ← field j "dataName"
    let dataSize ← field j "dataSize"
    return { dataName, dataSize }
  levels := 1

instance : Codec Page where
  toJson p := .obj [("digest", toJson p.digest), ("first", toJson p.first),
    ("last", toJson p.last), ("offset", toJson p.offset), ("rows", toJson p.rows)]
  ofJson? j := do
    guard (j.onlyFields ["digest", "first", "last", "offset", "rows"])
    let digest ← field j "digest"
    let first ← field j "first"
    let last ← field j "last"
    let offset ← field j "offset"
    let rows ← field j "rows"
    return { digest, first, last, offset, rows }
  levels := 1

instance : Codec LookupManifest where
  toJson l := .obj [("dataBytes", toJson l.dataBytes),
    ("lastRecordDigest", optionToJson l.lastRecordDigest), ("objectCount", toJson l.objectCount),
    ("objectSchemas", toJson l.objectSchemas), ("packs", toJson l.packs),
    ("pages", toJson l.pages), ("schema", toJson l.schema), ("sequence", toJson l.sequence),
    ("snapshotDigest", toJson l.snapshotDigest)]
  ofJson? j := do
    guard (j.onlyFields ["dataBytes", "lastRecordDigest", "objectCount", "objectSchemas", "packs",
      "pages", "schema", "sequence", "snapshotDigest"])
    let dataBytes ← field j "dataBytes"
    let lastRecordDigest ← optionalField j "lastRecordDigest"
    let objectCount ← field j "objectCount"
    let objectSchemas ← field j "objectSchemas"
    let packs ← field j "packs"
    let pages ← field j "pages"
    let schema ← field j "schema"
    let sequence ← field j "sequence"
    let snapshotDigest ← field j "snapshotDigest"
    return { schema, snapshotDigest, sequence, lastRecordDigest, objectCount, dataBytes, packs,
             objectSchemas, pages }
  levels := 3

instance : Codec Fingerprint where
  toJson f := .obj [("bytes", toJson f.bytes),
    ("changedNanoseconds", toJson f.metadata.changedNanoseconds),
    ("changedSeconds", toJson f.metadata.changedSeconds), ("device", toJson f.metadata.device),
    ("inode", toJson f.metadata.inode),
    ("modifiedNanoseconds", toJson f.metadata.modifiedNanoseconds),
    ("modifiedSeconds", toJson f.metadata.modifiedSeconds)]
  ofJson? j := do
    guard (j.onlyFields ["bytes", "changedNanoseconds", "changedSeconds", "device", "inode",
      "modifiedNanoseconds", "modifiedSeconds"])
    let bytes ← field j "bytes"
    let changedNanoseconds ← field j "changedNanoseconds"
    let changedSeconds ← field j "changedSeconds"
    let device ← field j "device"
    let inode ← field j "inode"
    let modifiedNanoseconds ← field j "modifiedNanoseconds"
    let modifiedSeconds ← field j "modifiedSeconds"
    let metadata := { device, inode, modifiedSeconds, modifiedNanoseconds, changedSeconds,
                      changedNanoseconds }
    return { bytes, metadata }
  levels := 1

instance : Codec Receipt where
  toJson r := .obj [("data", toJson r.data), ("manifestDigest", toJson r.manifestDigest),
    ("schema", toJson r.schema), ("snapshot", toJson r.snapshot),
    ("snapshotDigest", toJson r.snapshotDigest)]
  ofJson? j := do
    guard (j.onlyFields ["data", "manifestDigest", "schema", "snapshot", "snapshotDigest"])
    let data ← field j "data"
    let manifestDigest ← field j "manifestDigest"
    let schema ← field j "schema"
    let snapshot ← field j "snapshot"
    let snapshotDigest ← field j "snapshotDigest"
    return { data, manifestDigest, schema, snapshot, snapshotDigest }
  levels := 2

instance : Codec PackVerificationReceipt where
  toJson p := .obj [("changedNanoseconds", toJson p.metadata.changedNanoseconds),
    ("changedSeconds", toJson p.metadata.changedSeconds), ("dataSha256", toJson p.dataSha256),
    ("dataSize", toJson p.dataSize), ("device", toJson p.metadata.device),
    ("inode", toJson p.metadata.inode), ("manifestDigest", toJson p.manifestDigest),
    ("modifiedNanoseconds", toJson p.metadata.modifiedNanoseconds),
    ("modifiedSeconds", toJson p.metadata.modifiedSeconds), ("schema", toJson p.schema)]
  ofJson? j := do
    guard (j.onlyFields ["changedNanoseconds", "changedSeconds", "dataSha256", "dataSize",
      "device", "inode", "manifestDigest", "modifiedNanoseconds", "modifiedSeconds", "schema"])
    let changedNanoseconds ← field j "changedNanoseconds"
    let changedSeconds ← field j "changedSeconds"
    let dataSha256 ← field j "dataSha256"
    let dataSize ← field j "dataSize"
    let device ← field j "device"
    let inode ← field j "inode"
    let manifestDigest ← field j "manifestDigest"
    let modifiedNanoseconds ← field j "modifiedNanoseconds"
    let modifiedSeconds ← field j "modifiedSeconds"
    let schema ← field j "schema"
    let metadata := { device, inode, modifiedSeconds, modifiedNanoseconds, changedSeconds,
                      changedNanoseconds }
    return { schema, manifestDigest, dataSha256, dataSize, metadata }
  levels := 1

end Wire

end Codeclew.Cas
