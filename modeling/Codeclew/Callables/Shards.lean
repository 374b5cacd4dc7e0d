import Codeclew.Cas.Contents
import Codeclew.Json.Size
import Codeclew.Outcome

/-!
# Shards of callable facts

The facts about callables and the records of their index are written in shards. A shard takes rows
as long as its document stays within a bound. Whether one more row fits is computed from the lengths
of the rows, which are known from the start, so that no document is written twice.

The two kinds of shards are built by one loop with a `Profile`.
-/

namespace Codeclew.Callables

open Json Cas

def callableFactShardSchema : String := "codeclew-kotlin-callable-fact-shard/1.0"
def callableQueryShardSchema : String := "codeclew-kotlin-callable-query-shard/1.0"

def budget (message : String) : ClewError := ⟨.sliceBudgetExceeded, message⟩

structure CallableBudgets where
  maxShardBytes : ℕ

/-- The bytes of a document with the members of its objects in order. -/
def canonicalBytes (j : Json) : Bytes := j.sortValue.bytes

/-! ## Lengths of documents -/

def encodedArrayLen (encodedItems itemCount : ℕ) : Except ClewError ℕ := do
  ensure (encodedItems + 2 + (itemCount - 1) ≤ usizeMax) (budget "canonical array size overflowed")
  return encodedItems + 2 + (itemCount - 1)

/-- Every character is ASCII and stands for itself in a string literal. -/
def literalSafe (value : String) : Bool :=
  (chars value).all fun c ↦ 0x20 ≤ c.toNat && c.toNat < 0x7f && c ≠ '\x22' && c ≠ '\\'

def encodedAsciiStringLen (value : String) : Except ClewError ℕ := do
  ensure (literalSafe value) (invalid "canonical shard header contains a non-literal-safe identity")
  ensure (utf8Length (chars value) + 2 ≤ usizeMax) (budget "canonical string size overflowed")
  return utf8Length (chars value) + 2

def encodedClosedObjectLen (fields : List (String × ℕ)) : Except ClewError ℕ :=
  fields.zipIdx.foldlM (fun length (field, index) ↦ do
    let keyLen ← encodedAsciiStringLen field.1
    let next := length + (if index > 0 then 1 else 0) + keyLen + 1 + field.2
    ensure (next ≤ usizeMax) (budget "canonical object size overflowed")
    return next) 2

/-! ## The loop -/

/-- What the loop is told about a kind of rows: how long they are, how long the document of a shard
is with rows of so many bytes, how a shard is published, and its texts. -/
structure Profile (ρ π : Type) where
  rowLen : ρ → ℕ
  shardLen : (sequence : UInt32) → (first last : ρ) → (encodedRows rowCount : ℕ) →
    Except ClewError ℕ
  publish : UInt32 → List ρ → Except ClewError π
  sizeOverflow : String
  sequenceOverflow : String
  oneExceeds : String

/-- The shards that are published, and the rows of the next one with their length. -/
structure Cutting (ρ π : Type) where
  sequence : UInt32
  current : List ρ
  encodedRows : ℕ
  published : List π

variable {ρ π : Type}

def Cutting.add (k : Profile ρ π) (limit : ℕ) (c : Cutting ρ π) (row : ρ) :
    Except ClewError (Cutting ρ π) := do
  let candidateRows := c.encodedRows + k.rowLen row
  ensure (candidateRows ≤ usizeMax) (budget k.sizeOverflow)
  let size ← k.shardLen c.sequence (c.current.headD row) row candidateRows (c.current.length + 1)
  if size ≤ limit then
    return { c with current := c.current ++ [row], encodedRows := candidateRows }
  else if c.current = [] then throw (budget k.oneExceeds)
  else
    let shard ← k.publish c.sequence c.current
    ensure (c.sequence.toNat + 1 < 2 ^ 32) (budget k.sequenceOverflow)
    -- the next number may have one more digit
    let alone ← k.shardLen (c.sequence + 1) row row (k.rowLen row) 1
    ensure (alone ≤ limit) (budget k.oneExceeds)
    return {
      sequence := c.sequence + 1
      current := [row]
      encodedRows := k.rowLen row
      published := c.published ++ [shard] }

def Profile.build (k : Profile ρ π) (limit : ℕ) (rows : List ρ) : Except ClewError (List π) := do
  let c ← rows.foldlM (Cutting.add k limit) ⟨0, [], 0, []⟩
  if c.current = [] then return c.published
  else
    let last ← k.publish c.sequence c.current
    return c.published ++ [last]

structure PreparedCasObject where
  reference : CasObject
  bytes : Bytes
  deriving DecidableEq

/-! ## Facts -/

/-- A fact with its id and its document, of which the id is a part. -/
structure CallableFact where
  factId : String
  json : Json

structure CallableFactShard where
  schema : String
  sequence : UInt32
  firstFactId : String
  lastFactId : String
  facts : List CallableFact

def CallableFactShard.json (shard : CallableFactShard) : Json :=
  .obj [("schema", .str shard.schema), ("sequence", .num shard.sequence.toNat),
    ("firstFactId", .str shard.firstFactId), ("lastFactId", .str shard.lastFactId),
    ("facts", .arr (shard.facts.map (·.json)))]

structure CallableFactShardReference where
  sequence : UInt32
  firstFactId : String
  lastFactId : String
  object : CasObject
  deriving DecidableEq

def encodedFactShardLen (sequence : UInt32) (firstFactId lastFactId : String)
    (encodedRows rowCount : ℕ) : Except ClewError ℕ := do
  let facts ← encodedArrayLen encodedRows rowCount
  let first ← encodedAsciiStringLen firstFactId
  let last ← encodedAsciiStringLen lastFactId
  let schema ← encodedAsciiStringLen callableFactShardSchema
  encodedClosedObjectLen [("facts", facts), ("firstFactId", first), ("lastFactId", last),
    ("schema", schema), ("sequence", (Nat.toDigits 10 sequence.toNat).length)]

def callableFactShard (sequence : UInt32) (facts : List CallableFact) :
    Except ClewError CallableFactShard :=
  match facts.head?, facts.getLast? with
  | some first, some last => .ok {
      schema := callableFactShardSchema
      sequence
      firstFactId := first.factId
      lastFactId := last.factId
      facts }
  | _, _ => .error (invalid "callable fact shard is empty")

variable [Sha256]

def publishPreparedFactShard (budgets : CallableBudgets) (sequence : UInt32)
    (facts : List CallableFact) :
    Except ClewError (PreparedCasObject × CallableFactShardReference) := do
  let shard ← callableFactShard sequence facts
  let bytes := canonicalBytes shard.json
  ensure (bytes.length ≤ budgets.maxShardBytes) (budget "callable fact shard exceeds 8 MiB")
  let object ← CasObject.forBytes callableFactShardSchema bytes
  return (⟨object, bytes⟩, ⟨sequence, shard.firstFactId, shard.lastFactId, object⟩)

def factProfile (budgets : CallableBudgets) :
    Profile CallableFact (PreparedCasObject × CallableFactShardReference) where
  rowLen fact := (canonicalBytes fact.json).length
  shardLen sequence first last := encodedFactShardLen sequence first.factId last.factId
  publish := publishPreparedFactShard budgets
  sizeOverflow := "callable fact shard size overflowed"
  sequenceOverflow := "callable fact shard sequence overflowed"
  oneExceeds := "one normalized callable fact exceeds the 8 MiB shard bound"

def buildFactShards (facts : List CallableFact) (budgets : CallableBudgets) :
    Except ClewError (List PreparedCasObject × List CallableFactShardReference) := do
  let shards ← (factProfile budgets).build budgets.maxShardBytes facts
  return (shards.map (·.1), shards.map (·.2))

/-! ## Records of the index -/

inductive CallableLookupKind where
  | fullSymbol
  | callableFamily
  | token
  deriving DecidableEq, Repr

structure CallableIndexKey where
  kind : CallableLookupKind
  repositoryNamespace : Option String
  value : String
  deriving DecidableEq, Repr

inductive CallableFactKind where
  | declaration
  | use
  | boundary
  deriving DecidableEq, Repr

structure CallablePosting where
  factId : String
  factKind : CallableFactKind
  memberAlias : String
  repositoryNamespace : String
  symbolIdentity : Option String
  callableId : Option String
  sourcePath : Option String
  sourceStart : Option UInt64
  sourceEnd : Option UInt64
  exactEligible : Bool
  uncertaintyReasons : List String
  deriving DecidableEq, Repr

structure CallableIndexRecord where
  key : CallableIndexKey
  posting : CallablePosting
  deriving DecidableEq, Repr

structure CallableQueryShard where
  schema : String
  bindingDigest : String
  sequence : UInt32
  firstKey : CallableIndexKey
  lastKey : CallableIndexKey
  records : List CallableIndexRecord

structure CallableQueryShardReference where
  sequence : UInt32
  firstKey : CallableIndexKey
  lastKey : CallableIndexKey
  object : CasObject
  deriving DecidableEq

def CallableLookupKind.text : CallableLookupKind → String
  | fullSymbol => "FULL_SYMBOL"
  | callableFamily => "CALLABLE_FAMILY"
  | token => "TOKEN"

def CallableFactKind.text : CallableFactKind → String
  | declaration => "DECLARATION"
  | use => "USE"
  | boundary => "BOUNDARY"

/-- A member that is left out when there is no value. -/
def optional (name : String) (value : Option Json) : List (String × Json) :=
  (value.map (name, ·)).toList

def CallableIndexKey.json (key : CallableIndexKey) : Json :=
  .obj (("kind", .str key.kind.text) ::
    optional "repositoryNamespace" (key.repositoryNamespace.map .str) ++
    [("value", .str key.value)])

def CallablePosting.json (posting : CallablePosting) : Json :=
  .obj ([("factId", .str posting.factId), ("factKind", .str posting.factKind.text),
      ("memberAlias", .str posting.memberAlias),
      ("repositoryNamespace", .str posting.repositoryNamespace)] ++
    optional "symbolIdentity" (posting.symbolIdentity.map .str) ++
    optional "callableId" (posting.callableId.map .str) ++
    optional "sourcePath" (posting.sourcePath.map .str) ++
    optional "sourceStart" (posting.sourceStart.map fun n ↦ .num n.toNat) ++
    optional "sourceEnd" (posting.sourceEnd.map fun n ↦ .num n.toNat) ++
    [("exactEligible", .bool posting.exactEligible),
      ("uncertaintyReasons", .arr (posting.uncertaintyReasons.map .str))])

def CallableIndexRecord.json (record : CallableIndexRecord) : Json :=
  .obj [("key", record.key.json), ("posting", record.posting.json)]

def CallableQueryShard.json (shard : CallableQueryShard) : Json :=
  .obj [("schema", .str shard.schema), ("bindingDigest", .str shard.bindingDigest),
    ("sequence", .num shard.sequence.toNat), ("firstKey", shard.firstKey.json),
    ("lastKey", shard.lastKey.json), ("records", .arr (shard.records.map (·.json)))]

def encodedQueryShardLen (bindingDigest : String) (sequence : UInt32)
    (firstKeyLen lastKeyLen encodedRows rowCount : ℕ) : Except ClewError ℕ := do
  let digest ← encodedAsciiStringLen bindingDigest
  let records ← encodedArrayLen encodedRows rowCount
  let schema ← encodedAsciiStringLen callableQueryShardSchema
  encodedClosedObjectLen [("bindingDigest", digest), ("firstKey", firstKeyLen),
    ("lastKey", lastKeyLen), ("records", records), ("schema", schema),
    ("sequence", (Nat.toDigits 10 sequence.toNat).length)]

def callableQueryShard (bindingDigest : String) (sequence : UInt32)
    (records : List CallableIndexRecord) : Except ClewError CallableQueryShard :=
  match records.head?, records.getLast? with
  | some first, some last => .ok {
      schema := callableQueryShardSchema
      bindingDigest
      sequence
      firstKey := first.key
      lastKey := last.key
      records }
  | _, _ => .error (invalid "callable query shard is empty")

def publishPreparedQueryShard (bindingDigest : String) (budgets : CallableBudgets)
    (sequence : UInt32) (records : List CallableIndexRecord) :
    Except ClewError (PreparedCasObject × CallableQueryShardReference) := do
  let shard ← callableQueryShard bindingDigest sequence records
  let bytes := canonicalBytes shard.json
  ensure (bytes.length ≤ budgets.maxShardBytes) (budget "callable query shard exceeds 8 MiB")
  let object ← CasObject.forBytes callableQueryShardSchema bytes
  return (⟨object, bytes⟩, ⟨sequence, shard.firstKey, shard.lastKey, object⟩)

def queryProfile (bindingDigest : String) (budgets : CallableBudgets) :
    Profile CallableIndexRecord (PreparedCasObject × CallableQueryShardReference) where
  rowLen record := (canonicalBytes record.json).length
  shardLen sequence first last := encodedQueryShardLen bindingDigest sequence
    (canonicalBytes first.key.json).length (canonicalBytes last.key.json).length
  publish := publishPreparedQueryShard bindingDigest budgets
  sizeOverflow := "callable query shard size overflowed"
  sequenceOverflow := "callable query shard sequence overflowed"
  oneExceeds := "one callable query posting exceeds the 8 MiB shard bound"

def buildQueryShards (bindingDigest : String) (records : List CallableIndexRecord)
    (budgets : CallableBudgets) :
    Except ClewError (List PreparedCasObject × List CallableQueryShardReference) := do
  ensure (records ≠ []) (invalid "callable query index has no records")
  let shards ← (queryProfile bindingDigest budgets).build budgets.maxShardBytes records
  return (shards.map (·.1), shards.map (·.2))

end Codeclew.Callables
