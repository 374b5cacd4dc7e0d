import Codeclew.Association
import Codeclew.Documentation.Objects
import Codeclew.Json.Record

/-!
# The fact index

A fact occurs in a context: a repository at a revision, the state of its sources, a compilation
scope and a domain. The index maps these contextual keys to the payloads of the facts. Its entries
are distributed over 64 pages by a hash of the key; a page is an immutable object of the store, and
a root refers to one version of each page. An update writes the pages it is about and returns a new
root, and the old root goes on to refer to the old pages.
-/

namespace Codeclew.Documentation

open Json

def factIndexSchema : String := "codeclew-documentation-fact-index/1.0"
def factPageSchema : String := "codeclew-documentation-fact-page/1.0"

/-- `BUCKETS`. -/
def bucketCount : ℕ := 64

/-! ## Records -/

structure OccurrenceKey where
  repository : String
  revision : String
  sourceState : String
  scope : String
  domain : String
  semantic : String
  deriving DecidableEq

structure FactOccurrence where
  key : OccurrenceKey
  payload : ObjectRef
  kind : String
  file : String
  symbol : String
  deriving DecidableEq

structure FactPage where
  schema : String
  protocol : String
  bucket : UInt64
  entries : List FactOccurrence
  deriving DecidableEq

structure FactIndexRoot where
  schema : String
  protocol : String
  buckets : List (Option ObjectRef)
  bucketCounts : List UInt64
  deriving DecidableEq

instance : Record ObjectRef where
  toJson x := .obj [("digest", toJson x.digest), ("schema", toJson x.schema),
    ("size", toJson x.size)]
  fields x := .obj [("schema", toJson x.schema), ("digest", toJson x.digest),
    ("size", toJson x.size)]
  ofJson? j := do
    guard (j.onlyFields ["digest", "schema", "size"])
    let schema ← field j "schema"
    let digest ← field j "digest"
    let size ← field j "size"
    return { schema, digest, size }
  levels := 1

instance : Record OccurrenceKey where
  toJson x := .obj [("domain", toJson x.domain), ("repository", toJson x.repository),
    ("revision", toJson x.revision), ("scope", toJson x.scope), ("semantic", toJson x.semantic),
    ("sourceState", toJson x.sourceState)]
  fields x := .obj [("repository", toJson x.repository), ("revision", toJson x.revision),
    ("sourceState", toJson x.sourceState), ("scope", toJson x.scope), ("domain", toJson x.domain),
    ("semantic", toJson x.semantic)]
  ofJson? j := do
    guard (j.onlyFields ["domain", "repository", "revision", "scope", "semantic", "sourceState"])
    let repository ← field j "repository"
    let revision ← field j "revision"
    let sourceState ← field j "sourceState"
    let scope ← field j "scope"
    let domain ← field j "domain"
    let semantic ← field j "semantic"
    return { repository, revision, sourceState, scope, domain, semantic }
  levels := 1

instance : Record FactOccurrence where
  toJson x := .obj [("file", toJson x.file), ("key", toJson x.key), ("kind", toJson x.kind),
    ("payload", toJson x.payload), ("symbol", toJson x.symbol)]
  fields x := .obj [("key", fields x.key), ("payload", fields x.payload), ("kind", toJson x.kind),
    ("file", toJson x.file), ("symbol", toJson x.symbol)]
  ofJson? j := do
    guard (j.onlyFields ["file", "key", "kind", "payload", "symbol"])
    let key ← field j "key"
    let payload ← field j "payload"
    let kind ← field j "kind"
    let file ← field j "file"
    let symbol ← field j "symbol"
    return { key, payload, kind, file, symbol }
  levels := 2

instance : Record FactPage where
  toJson x := .obj [("bucket", toJson x.bucket), ("entries", toJson x.entries),
    ("protocol", toJson x.protocol), ("schema", toJson x.schema)]
  fields x := .obj [("schema", toJson x.schema), ("protocol", toJson x.protocol),
    ("bucket", toJson x.bucket), ("entries", fields x.entries)]
  ofJson? j := do
    guard (j.onlyFields ["bucket", "entries", "protocol", "schema"])
    let schema ← field j "schema"
    let protocol ← field j "protocol"
    let bucket ← field j "bucket"
    let entries ← field j "entries"
    return { schema, protocol, bucket, entries }
  levels := 4

/-! ## Buckets -/

/-- The identity of a key as text. -/
def OccurrenceKey.canonical (key : OccurrenceKey) : String := String.ofList (fields key).render

section

variable [Sha256]

/-- The first byte of the hash, from its hexadecimal digits. -/
def bucketOf (canonicalKey : String) : ℕ :=
  let hash := hashBytes (encodeUtf8 (chars canonicalKey))
  match Hex.decode (((chars hash).drop 7).take 2) with
  | some [byte] => byte.toNat % bucketCount
  | _ => 0

def OccurrenceKey.bucket (key : OccurrenceKey) : ℕ := bucketOf key.canonical

theorem OccurrenceKey.bucket_lt (key : OccurrenceKey) : key.bucket < bucketCount := by
  rw [bucket, bucketOf]
  split
  · exact Nat.mod_lt _ (by decide)
  · decide

end

def emptyRoot : FactIndexRoot where
  schema := factIndexSchema
  protocol := factIndexSchema
  buckets := List.replicate bucketCount none
  bucketCounts := List.replicate bucketCount 0

/-! ## Reading -/

/-- `serde_json` describes what it cannot read; the text is not modelled. -/
def unreadablePage : ClewError := invalid "fact index page is not a document"

variable [Sha256]

def readPage (objects : Objects) (root : FactIndexRoot) (bucket : ℕ) :
    Except ClewError (Option FactPage) := do
  ensure (bucket < bucketCount ∧ root.buckets.length = bucketCount ∧
      root.bucketCounts.length = bucketCount)
    (invalid "fact index root has an invalid bucket shape")
  match root.buckets[bucket]? with
  | some (some reference) =>
    match ← get objects reference portableCacheMaxBytes with
    | none => throw (corrupt "fact index page reference is missing from the store")
    | some payload =>
      match decode payload with
      | none => throw unreadablePage
      | some page => do
        ensure (page.schema = factPageSchema ∧ page.protocol = factIndexSchema ∧
            page.bucket.toNat = bucket)
          (corrupt "fact index page identity is inconsistent")
        return some page
  | _ => return none

/-- One bucket of a root. -/
def verifyBucket (objects : Objects) (root : FactIndexRoot) (bucket : ℕ) :
    Except ClewError Unit := do
  match ← readPage objects root bucket with
  | none =>
    ensure (root.bucketCounts[bucket]? = some 0)
      (corrupt "fact index bucket count disagrees with a missing page")
  | some page =>
    ensure (root.bucketCounts[bucket]? = some (UInt64.ofNat page.entries.length))
      (corrupt "fact index page entry count disagrees with the root")

def verifyRoot (objects : Objects) (root : FactIndexRoot) : Except ClewError Unit := do
  ensure (root.schema = factIndexSchema ∧ root.protocol = factIndexSchema)
    (invalid "fact index root schema or protocol is invalid")
  (List.range bucketCount).forM (verifyBucket objects root)

def lookup (objects : Objects) (root : FactIndexRoot) (key : OccurrenceKey) :
    Except ClewError (Option FactOccurrence) := do
  match ← readPage objects root key.bucket with
  | none => return none
  | some page => return Association.find FactOccurrence.key key page.entries

/-! ## Writing -/

/-- The entries of a page that may not be there. -/
def readEntries (objects : Objects) (root : FactIndexRoot) (bucket : ℕ) :
    Except ClewError (List FactOccurrence) := do
  return ((← readPage objects root bucket).map (·.entries)).getD []

def pageOf (bucket : ℕ) (entries : List FactOccurrence) : FactPage where
  schema := factPageSchema
  protocol := factIndexSchema
  bucket := UInt64.ofNat bucket
  entries := entries

/-- Store a page, and refer to it. -/
def writePage (root : FactIndexRoot) (bucket : ℕ) (entries : List FactOccurrence) :
    Program Objects ClewError FactIndexRoot := do
  let reference ← put factPageSchema (encodeRecord (pageOf bucket entries))
  pure { root with buckets := root.buckets.set bucket (some reference),
                   bucketCounts := root.bucketCounts.set bucket (UInt64.ofNat entries.length) }

def withBucket (root : FactIndexRoot) (key : OccurrenceKey)
    (change : List FactOccurrence → List FactOccurrence) :
    Program Objects ClewError FactIndexRoot := do
  let existing ← Program.inspect fun objects ↦ readEntries objects root key.bucket
  writePage root key.bucket (change existing)

def putMembership (root : FactIndexRoot) (membership : FactOccurrence) :
    Program Objects ClewError FactIndexRoot :=
  withBucket root membership.key (Association.upsert FactOccurrence.key membership)

def removeMembership (root : FactIndexRoot) (key : OccurrenceKey) :
    Program Objects ClewError FactIndexRoot :=
  withBucket root key (Association.erase FactOccurrence.key key)

/-- One bucket of a batch. The page is read through the root as it was before the batch. -/
def applyBucket (root : FactIndexRoot) (upserts : List FactOccurrence)
    (removals : List OccurrenceKey) (next : FactIndexRoot) (bucket : ℕ) :
    Program Objects ClewError FactIndexRoot := do
  let existing ← Program.inspect fun objects ↦ readEntries objects root bucket
  writePage next bucket (Association.merge FactOccurrence.key existing
    (upserts.filter (·.key.bucket = bucket)) (removals.filter (·.bucket = bucket)))

/-- The buckets of a batch, in order. -/
def touched (upserts : List FactOccurrence) (removals : List OccurrenceKey) : List ℕ :=
  (List.range bucketCount).filter fun bucket ↦
    Association.Pages.Touched FactOccurrence.key OccurrenceKey.bucket upserts removals bucket

def applyDelta (root : FactIndexRoot) (upserts : List FactOccurrence)
    (removals : List OccurrenceKey) : Program Objects ClewError FactIndexRoot :=
  (touched upserts removals).foldlM (applyBucket root upserts removals) root

/-- The keys of a scope. -/
def scopeKeys (objects : Objects) (root : FactIndexRoot) (scope : String) :
    Except ClewError (List OccurrenceKey) := do
  let pages ← (List.range bucketCount).mapM (readEntries objects root)
  return (pages.flatten.filter (·.key.scope = scope)).map (·.key)

def replaceScope (root : FactIndexRoot) (scope : String) (complete : List FactOccurrence)
    (completeAnalysis : Bool) : Program Objects ClewError FactIndexRoot :=
  if completeAnalysis then do
    let removals ← Program.inspect fun objects ↦ scopeKeys objects root scope
    applyDelta root complete removals
  else applyDelta root complete []

end Codeclew.Documentation
