import Codeclew.Query.Index
import Codeclew.RoundRobin

/-!
# Queries

A manifest is checked by itself before every query: that its references are in order, and that each
can lead to a shard. A shard is checked when it is opened.

A query looks its terms up in the shards of their buckets: each term, the name of a declaration it
could be, and the same two without underscores. What is found is selected from in turn, so that
every term contributes, and within a term every family of facts.
-/

namespace Codeclew.Query

open Json Cas Generation BinarySearch

theorem mem_sortDedup {text : String} {texts : List String} :
    text ∈ sortDedup texts ↔ text ∈ texts :=
  KeyedSet.mem_ofList_of_injOn Function.injective_id.injOn

variable [Sha256]

def QueryShard.reference (shard : QueryShard) (object : CasObject) : QueryShardReference where
  bucket := shard.bucket
  sequence := shard.sequence
  firstTerm := shard.firstTerm
  lastTerm := shard.lastTerm
  object := object

/-- A manifest with its identity, the hash of the rest of it. -/
def QueryIndexManifest.sign (manifest : QueryIndexManifest) : QueryIndexManifest :=
  { manifest with indexId := hashBytes { manifest with indexId := "" }.json.bytes }

/-! ## The checks -/

def verifyShard (reference : QueryShardReference) (shard : QueryShard) (bytes : Bytes) :
    Except ClewError Unit :=
  ensure (encode shard = bytes ∧ shard.schema = queryShardSchema ∧
      shard.bucket = reference.bucket ∧ shard.sequence = reference.sequence ∧
      shard.firstTerm = reference.firstTerm ∧ shard.lastTerm = reference.lastTerm ∧
      shard.postings.head?.map (·.term) = some shard.firstTerm ∧
      shard.postings.getLast?.map (·.term) = some shard.lastTerm ∧
      shard.postings.IsChain (·.term < ·.term) ∧
      ∀ posting ∈ shard.postings, posting.term ≠ "" ∧ bucket posting.term = shard.bucket ∧
        posting.facts ≠ [] ∧ posting.facts.IsChain (·.key < ·.key))
    (corrupt "query shard authority is invalid")

/-- The shard that a reference leads to. -/
def openShard (store : ObjectStore) (reference : QueryShardReference) :
    Except ClewError QueryShard := do
  let bytes ← store.read reference.object maxQueryShardBytes
  match decode bytes with
  | none => throw (corrupt "query shard is not a closed object")
  | some shard =>
    verifyShard reference shard bytes
    return shard

/-- References in order, to objects that can be shards. -/
def verifyReferences : List QueryShardReference → (previous : Option ShardOrder) →
    Except ClewError Unit
  | [], _ => .ok ()
  | reference :: references, previous => do
    ensure (∀ value ∈ previous, value < reference.order)
      (corrupt "query shard reference order is invalid")
    ensure (reference.object.objectSchema = queryShardSchema)
      (corrupt "query shard reference schema is invalid")
    ensure (reference.object.size.toNat ≤ maxQueryShardBytes)
      (corrupt "query shard reference size is invalid")
    verifyReferences references (some reference.order)

/-- What a whole index is checked for: the terms, the last fact of each so far, and how many facts
there were. -/
structure Tally where
  terms : List String
  lastFactByTerm : Std.ExtTreeMap String FactHit
  postings : ℕ
  postingsByTerm : Std.ExtTreeMap String ℕ

namespace Tally

def empty : Tally := { terms := [], lastFactByTerm := ∅, postings := 0, postingsByTerm := ∅ }

def count (tally : Tally) (posting : TermPosting) : Except ClewError Tally := do
  ensure (∀ last ∈ tally.lastFactByTerm[posting.term]?, ∀ first ∈ posting.facts.head?,
    last.key < first.key) (corrupt "query posting chunks overlap or are out of order")
  return {
    terms := KeyedSet.insert id posting.term tally.terms
    lastFactByTerm := match posting.facts.getLast? with
      | some last => tally.lastFactByTerm.insert posting.term last
      | none => tally.lastFactByTerm
    postings := tally.postings + posting.facts.length
    postingsByTerm := tally.postingsByTerm.insert posting.term
      (tally.postingsByTerm[posting.term]?.getD 0 + posting.facts.length) }

end Tally

def tallyShards (store : ObjectStore) : List QueryShardReference →
    (previous : Option ShardOrder) → Tally → Except ClewError Tally
  | [], _, tally => .ok tally
  | reference :: references, previous, tally => do
    ensure (∀ value ∈ previous, value < reference.order)
      (corrupt "query shard reference order is invalid")
    let shard ← openShard store reference
    let tally ← shard.postings.foldlM Tally.count tally
    tallyShards store references (some reference.order) tally

section Checks

variable [Unicode]

def verifyIndexManifest (store : ObjectStore) (index : QueryIndexManifest) :
    Except ClewError Unit := do
  ensure (index.schema = queryIndexSchema ∧ index.generation.objectSchema = generationSchema ∧
      index.indexId = hashBytes { index with indexId := "" }.json.bytes ∧ index.shards ≠ [] ∧
      index.termCount ≠ 0 ∧ index.postingCount ≠ 0 ∧
      ∀ term ∈ index.overflowTerms, term ≠ "" ∧ normalizeTerms [term] = [term])
    (corrupt "query index identity is invalid")
  let _ ← store.read index.generation index.generation.size.toNat
  verifyReferences index.shards none

def verifyIndex (store : ObjectStore) (index : QueryIndexManifest) : Except ClewError Unit := do
  verifyIndexManifest store index
  let tally ← tallyShards store index.shards none .empty
  ensure (tally.terms.length = index.termCount ∧ tally.postings = index.postingCount ∧
      ∀ term ∈ index.overflowTerms, tally.postingsByTerm[term]? = some maxQueryFactsPerTerm)
    (corrupt "query index counts are incomplete")

end Checks

/-! ## Looking up -/

/-- The facts of a term in a shard. -/
def shardMatches (shard : QueryShard) (term : String) : List FactHit :=
  match binarySearchByKey shard.postings (·.term) term with
  | some position => (shard.postings[position]?.map (·.facts)).getD []
  | none => []

/-- Whether a reference can lead to a term. -/
def QueryShardReference.covers (reference : QueryShardReference) (term : String) : Bool :=
  reference.bucket = Query.bucket term ∧ reference.firstTerm ≤ term ∧ term ≤ reference.lastTerm

/-- Read the shards that references lead to, and collect the facts of a term and the digests of what
was read. -/
def readMatches (store : ObjectStore) (term : String) : List QueryShardReference →
    (found : List FactHit) → (shardsRead : List String) →
      Except ClewError (List FactHit × List String)
  | [], found, shardsRead => .ok (found, shardsRead)
  | reference :: references, found, shardsRead => do
    let shard ← openShard store reference
    readMatches store term references (KeyedSet.extend FactHit.key found (shardMatches shard term))
      (KeyedSet.insert id reference.object.digest shardsRead)

def readTermMatches (store : ObjectStore) (index : QueryIndexManifest) (term : String)
    (shardsRead : List String) : Except ClewError (List FactHit × List String) :=
  readMatches store term (index.shards.filter (·.covers term)) [] shardsRead

/-! ## Selecting -/

/-- Facts in turn from their families. -/
def diversifyFactFamilies (found : List FactHit) : List FactHit :=
  let families := Grouping.group (fun hit : FactHit ↦ semanticFactKey hit.factKey)
    (fun family hit ↦ KeyedSet.insert FactHit.key hit family) [] found
  RoundRobin.interleave (families.toList.map (·.2)) 0

def fairFactSelection (lanes : List (List FactHit)) (limit : ℕ) : List FactHit :=
  RoundRobin.select FactHit.key limit [] (lanes.map diversifyFactFamilies)

/-! ## Queries -/

/-- What a query finds for one of its terms. -/
structure Consulted where
  term : String
  exactDirect : List FactHit
  exactMatches : List FactHit
  aliasDirect : List FactHit
  aliasMatches : List FactHit
  overflow : Bool

/-- Add what was found for another spelling. -/
def Consulted.addAlias (consulted : Consulted) (index : QueryIndexManifest) (name : String)
    (direct found : List FactHit) : Consulted :=
  { consulted with
    aliasDirect := KeyedSet.extend FactHit.key consulted.aliasDirect direct
    aliasMatches := KeyedSet.extend FactHit.key consulted.aliasMatches found
    overflow := consulted.overflow || decide (name ∈ index.overflowTerms) ||
      decide (directNameTerm name ∈ index.overflowTerms) }

/-- The spellings of a term without underscores are looked up after the others. -/
def consultAliases (store : ObjectStore) (index : QueryIndexManifest) : List String → Consulted →
    (shardsRead : List String) → Except ClewError (Consulted × List String)
  | [], consulted, shardsRead => .ok (consulted, shardsRead)
  | name :: names, consulted, shardsRead => do
    let (direct, shardsRead) ← readTermMatches store index (directNameTerm name) shardsRead
    let (found, shardsRead) ← readTermMatches store index name shardsRead
    consultAliases store index names (consulted.addAlias index name direct found) shardsRead

def consult (store : ObjectStore) (index : QueryIndexManifest) (term : String)
    (shardsRead : List String) : Except ClewError (Consulted × List String) := do
  let (exactDirect, shardsRead) ← readTermMatches store index (directNameTerm term) shardsRead
  let (exactMatches, shardsRead) ← readTermMatches store index term shardsRead
  consultAliases store index (queryAliases term) {
    term, exactDirect, exactMatches
    aliasDirect := []
    aliasMatches := []
    overflow := decide (term ∈ index.overflowTerms) ||
      decide (directNameTerm term ∈ index.overflowTerms) } shardsRead

def consultAll (store : ObjectStore) (index : QueryIndexManifest) : List String →
    (shardsRead : List String) → Except ClewError (List Consulted × List String)
  | [], shardsRead => .ok ([], shardsRead)
  | term :: terms, shardsRead => do
    let (consulted, shardsRead) ← consult store index term shardsRead
    let (others, shardsRead) ← consultAll store index terms shardsRead
    return (consulted :: others, shardsRead)

/-- What was found, as the lanes that facts are selected from. -/
def lanes (consulted : List Consulted) : List (List FactHit) :=
  consulted.map (·.exactDirect) ++ consulted.map (·.exactMatches) ++
    consulted.map (·.aliasDirect) ++ consulted.map (·.aliasMatches)

structure QueryContext where
  schema : String
  indexId : String
  requestedTerms : List String
  unmatchedTerms : List String
  facts : List FactHit
  queryShardsRead : ℕ
  truncated : Bool
  deriving DecidableEq

variable [Unicode]

def query (store : ObjectStore) (index : QueryIndexManifest) (terms : List String)
    (maxFacts : ℕ) : Except ClewError QueryContext := do
  verifyIndexManifest store index
  ensure (terms ≠ [] ∧ terms.length ≤ maxQueryTerms ∧ maxFacts ≠ 0)
    (invalid "query term or result limit is invalid")
  let limit := min maxFacts maxContextFacts
  let requestedTerms := normalizeTerms terms
  ensure (requestedTerms ≠ []) (invalid "query has no normalized terms")
  let (consulted, shardsRead) ← consultAll store index requestedTerms []
  let unique := KeyedSet.ofList FactHit.key (lanes consulted).flatten
  let facts := fairFactSelection (lanes consulted) limit
  return {
    schema := queryContextSchema
    indexId := index.indexId
    requestedTerms
    unmatchedTerms := (consulted.filter fun c ↦ c.exactMatches = [] ∧ c.aliasMatches = []).map
      (·.term)
    facts
    queryShardsRead := shardsRead.length
    truncated := decide (unique.length > facts.length) || consulted.any (·.overflow) }

end Codeclew.Query
