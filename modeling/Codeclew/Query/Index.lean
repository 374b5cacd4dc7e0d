import Codeclew.Query.Terms

/-!
# The documents of a query index

A query index lists, for every term, the facts that have it. It is cut into shards. A term belongs
to the bucket that its hash names, and the shards of a bucket hold the terms of the bucket in order.
A shard is bounded, so the facts of one term can lie in several shards.

The manifest of an index refers to its shards, with the range of the terms of each.
-/

namespace Codeclew.Query

open Json Cas Generation

def queryIndexSchema : String := "codeclew-query-index/6.0"
def queryShardSchema : String := "codeclew-query-shard/2.0"
def queryContextSchema : String := "codeclew-query-context/2.0"
def maxQueryShardBytes : ℕ := 8 * 1024 * 1024
def maxQueryTerms : ℕ := 256
def maxContextFacts : ℕ := 4096
def maxQueryFactsPerTerm : ℕ := 1024

/-! ## Documents -/

structure FactHit where
  factKey : String
  domainUri : CapabilityUri
  payload : CasObject
  deriving DecidableEq

/-- What hits are ordered by, and told apart by in a set. -/
def FactHit.key (hit : FactHit) : String ×ₗ String ×ₗ String ×ₗ String ×ₗ ℕ :=
  toLex (hit.factKey, toLex (hit.domainUri.text, toLex (hit.payload.objectSchema,
    toLex (hit.payload.digest, hit.payload.size.toNat))))

structure TermPosting where
  term : String
  facts : List FactHit
  deriving DecidableEq

structure QueryShard where
  schema : String
  bucket : String
  sequence : UInt32
  firstTerm : String
  lastTerm : String
  postings : List TermPosting
  deriving DecidableEq

structure QueryShardReference where
  bucket : String
  sequence : UInt32
  firstTerm : String
  lastTerm : String
  object : CasObject
  deriving DecidableEq

structure QueryIndexManifest where
  schema : String
  indexId : String
  generation : CasObject
  shards : List QueryShardReference
  termCount : ℕ
  postingCount : ℕ
  overflowTerms : List String
  deriving DecidableEq

/-- What shards, and references to them, are ordered by. -/
abbrev ShardOrder := String ×ₗ String ×ₗ String ×ₗ ℕ

def QueryShard.order (shard : QueryShard) : ShardOrder :=
  toLex (shard.bucket, toLex (shard.firstTerm, toLex (shard.lastTerm, shard.sequence.toNat)))

def QueryShardReference.order (reference : QueryShardReference) : ShardOrder :=
  toLex (reference.bucket, toLex (reference.firstTerm,
    toLex (reference.lastTerm, reference.sequence.toNat)))

/-! ## Wire forms -/

instance : Codec FactHit where
  toJson x := .obj [("domainUri", toJson x.domainUri), ("factKey", toJson x.factKey),
    ("payload", toJson x.payload)]
  ofJson? j := do
    guard (j.onlyFields ["domainUri", "factKey", "payload"])
    let domainUri ← field j "domainUri"
    let factKey ← field j "factKey"
    let payload ← field j "payload"
    return { factKey, domainUri, payload }
  levels := 2

instance : Codec TermPosting where
  toJson x := .obj [("facts", toJson x.facts), ("term", toJson x.term)]
  ofJson? j := do
    guard (j.onlyFields ["facts", "term"])
    let facts ← field j "facts"
    let term ← field j "term"
    return { term, facts }
  levels := 4

instance : Codec QueryShard where
  toJson x := .obj [("bucket", toJson x.bucket), ("firstTerm", toJson x.firstTerm),
    ("lastTerm", toJson x.lastTerm), ("postings", toJson x.postings), ("schema", toJson x.schema),
    ("sequence", toJson x.sequence)]
  ofJson? j := do
    guard (j.onlyFields ["bucket", "firstTerm", "lastTerm", "postings", "schema", "sequence"])
    let bucket ← field j "bucket"
    let firstTerm ← field j "firstTerm"
    let lastTerm ← field j "lastTerm"
    let postings ← field j "postings"
    let schema ← field j "schema"
    let sequence ← field j "sequence"
    return { schema, bucket, sequence, firstTerm, lastTerm, postings }
  levels := 6

def QueryShardReference.json (x : QueryShardReference) : Json :=
  .obj [("bucket", toJson x.bucket), ("firstTerm", toJson x.firstTerm),
    ("lastTerm", toJson x.lastTerm), ("object", toJson x.object), ("sequence", toJson x.sequence)]

def QueryIndexManifest.json (x : QueryIndexManifest) : Json :=
  .obj [("generation", toJson x.generation), ("indexId", toJson x.indexId),
    ("overflowTerms", toJson x.overflowTerms), ("postingCount", .num x.postingCount),
    ("schema", toJson x.schema), ("shards", .arr (x.shards.map (·.json))),
    ("termCount", .num x.termCount)]

/-- The bucket of a term. -/
def bucket [Sha256] (term : String) : String :=
  String.ofList (Hex.encode ((Sha256.digest (encodeUtf8 (chars term))).toList.take 1))

/-! ## Packing -/

/-- A shard of these postings, of which there is at least one. -/
def shard (bucket : String) (sequence : UInt32) (postings : List TermPosting) : QueryShard where
  schema := queryShardSchema
  bucket
  sequence
  firstTerm := (postings.head?.map (·.term)).getD ""
  lastTerm := (postings.getLast?.map (·.term)).getD ""
  postings

def nextSequence (sequence : UInt32) : Except ClewError UInt32 := do
  ensure (sequence.toNat + 1 < 2 ^ 32) (invalid "query shard sequence overflow")
  return sequence + 1

/-- The length of a shard with `count` postings of so many bytes. -/
def encodedQueryShardLen (bucket : String) (sequence : UInt32) (firstTerm lastTerm : String)
    (postingsBytes count : ℕ) : Except ClewError ℕ := do
  let header : QueryShard :=
    { schema := queryShardSchema, bucket, sequence, firstTerm, lastTerm, postings := [] }
  let size := (encode header).length + postingsBytes + (count - 1)
  ensure (size ≤ usizeMax) (invalid "query shard size overflow")
  return size

/-- The length of a shard with some facts of one term. -/
def chunkLen (bucket : String) (sequence : UInt32) (term : String) (facts : List FactHit) :
    Except ClewError ℕ :=
  let empty : TermPosting := { term, facts := [] }
  encodedQueryShardLen bucket sequence term term
    ((encode empty).length + (facts.map fun fact ↦ (encode fact).length).sum + (facts.length - 1)) 1

/-- Halve the range from `low` to `high` for the largest number whose size is within the limit. The
range has at most `fuel` numbers. -/
def searchFitting (size : ℕ → Except ClewError ℕ) (limit : ℕ) :
    (fuel low high fitting : ℕ) → Except ClewError ℕ
  | 0, _, _, fitting => .ok fitting
  | fuel + 1, low, high, fitting =>
    if low ≤ high then do
      let middle := low + (high - low) / 2
      let bytes ← size middle
      if bytes ≤ limit then searchFitting size limit fuel (middle + 1) high middle
      else searchFitting size limit fuel low (middle - 1) fitting
    else .ok fitting

set_option linter.unusedVariables false in
/-- Cut the facts of one term into shards from a sequence number on: the shards and the number after
them. -/
def splitFacts (bucket term : String) (limit : ℕ) (sequence : UInt32) (facts : List FactHit) :
    Except ClewError (List QueryShard × UInt32) :=
  if hfacts : facts = [] then .ok ([], sequence)
  else do
    let fitting ← searchFitting (fun count ↦ chunkLen bucket sequence term (facts.take count)) limit
      facts.length 1 facts.length 0
    if hfitting : fitting = 0 then
      throw ⟨.resourceLimit, "one query fact reference exceeds the shard limit"⟩
    else
      let next ← nextSequence sequence
      let (shards, last) ← splitFacts bucket term limit next (facts.drop fitting)
      return (shard bucket sequence [{ term, facts := facts.take fitting }] :: shards, last)
termination_by facts.length
decreasing_by
  have := List.length_pos_iff.mpr hfacts
  rw [List.length_drop]
  omega

def buildSplitPosting (bucket : String) (sequence : UInt32) (posting : TermPosting) (limit : ℕ) :
    Except ClewError (List QueryShard × UInt32) := do
  ensure ((posting.facts.map fun fact ↦ (encode fact).length).sum ≤ usizeMax)
    (invalid "query posting size overflow")
  splitFacts bucket posting.term limit sequence posting.facts

/-- A bucket that is being packed: the shards so far, and the postings of the next one. -/
structure Packing where
  current : List TermPosting
  currentBytes : ℕ
  shards : List QueryShard
  sequence : UInt32

namespace Packing

def empty : Packing := { current := [], currentBytes := 0, shards := [], sequence := 0 }

/-- Finish the shard that is being filled. -/
def flush (bucket : String) (packing : Packing) : Except ClewError Packing := do
  let next ← nextSequence packing.sequence
  return {
    current := []
    currentBytes := 0
    shards := packing.shards ++ [shard bucket packing.sequence packing.current]
    sequence := next }

/-- Finish the shard that is being filled, if there is one. -/
def settle (bucket : String) (packing : Packing) : Except ClewError Packing :=
  if packing.current = [] then .ok packing else packing.flush bucket

/-- Cut a posting into shards of its own. -/
def split (bucket : String) (limit : ℕ) (packing : Packing) (posting : TermPosting) :
    Except ClewError Packing := do
  let (shards, next) ← buildSplitPosting bucket packing.sequence posting limit
  return { packing with shards := packing.shards ++ shards, sequence := next }

def push (packing : Packing) (posting : TermPosting) : Packing :=
  { packing with
    current := packing.current ++ [posting]
    currentBytes := packing.currentBytes + (encode posting).length }

/-- Finish the current shard if the posting does not fit into it. -/
def makeRoom (bucket : String) (limit : ℕ) (packing : Packing) (posting : TermPosting) :
    Except ClewError Packing :=
  match packing.current with
  | [] => .ok packing
  | first :: _ => do
    let size ← encodedQueryShardLen bucket packing.sequence first.term posting.term
      (packing.currentBytes + (encode posting).length) (packing.current.length + 1)
    if size > limit then packing.flush bucket else return packing

/-- The length of a shard with this posting alone. -/
def aloneLen (bucket : String) (packing : Packing) (posting : TermPosting) : Except ClewError ℕ :=
  encodedQueryShardLen bucket packing.sequence posting.term posting.term (encode posting).length 1

/-- Add a posting. After a shard was finished the sequence number can have one more digit, so
whether the posting fits is asked again. -/
def add (bucket : String) (limit : ℕ) (packing : Packing) (posting : TermPosting) :
    Except ClewError Packing := do
  let alone ← packing.aloneLen bucket posting
  if alone > limit then
    let packing ← packing.settle bucket
    packing.split bucket limit posting
  else
    let packing ← packing.makeRoom bucket limit posting
    if packing.current = [] then
      let alone ← packing.aloneLen bucket posting
      if alone > limit then packing.split bucket limit posting else return packing.push posting
    else return packing.push posting

end Packing

def buildBucketWithLimit (bucket : String) (postings : List TermPosting) (limit : ℕ) :
    Except ClewError (List QueryShard) := do
  let packing ← postings.foldlM (Packing.add bucket limit) .empty
  if packing.current = [] then return packing.shards
  else return packing.shards ++ [shard bucket packing.sequence packing.current]

def buildBucket (bucket : String) (postings : List TermPosting) :
    Except ClewError (List QueryShard) :=
  buildBucketWithLimit bucket postings maxQueryShardBytes

end Codeclew.Query
