import Codeclew.Cas.Reference
import Codeclew.Durable
import Codeclew.Json.Size

/-!
# Retiring an incremental head

The head of an incremental analysis is one file. To retire it, its bytes are archived under the
digest of a plan, a receipt is put next to them, the head is removed and the receipt is marked. A
crash may come between any two of these writes, and the same plan may then be applied again. The
plan names the head by its bytes and by the identities of the file and of the directories on the way
to it.

From whatever state the cache is in, a plan that can be applied at all is applied in the end: the
states between two writes are among those it can be applied to (`Applicable`).
-/

namespace Codeclew.Retirement

open Json Program Machine Cas List

def planSchema : String := "codeclew-incremental-retirement-plan/1.0"

def receiptSchema : String := "codeclew-incremental-retirement-receipt/1.0"

def incrementalHeadSchema : String := "codeclew-incremental-head/2.0"

def readyGenerationSchema : String := "codeclew-ready-generation/2.0"

def incrementalReceiptSchema : String := "codeclew-incremental-receipt/2.0"

def maxHeadBytes : ℕ := 64 * 1024

/-! ## Records -/

structure IncrementalHead where
  schema : String
  compilerStoreKey : String
  receipt : CasObject
  ready : CasObject

structure Plan where
  schema : String
  repositoryKey : String
  headKey : String
  repositoryIdentity : UInt64 × UInt64
  directoryIdentity : UInt64 × UInt64
  fileIdentity : UInt64 × UInt64
  fileChangeTime : Int64 × Int64
  headDigest : String
  headBytes : UInt64
  compilerStoreKey : String

structure Receipt where
  schema : String
  plan : Plan
  planDigest : String
  phase : String

theorem depth_pair {α β : Type} [Codec α] [Codec β] (p : α × β) :
    (arr [toJson p.1, toJson p.2]).depth ≤ Codec.levels α + Codec.levels β + 1 := by
  have hfst := Codec.depth_toJson p.1
  have hsnd := Codec.depth_toJson p.2
  simp only [depth, depthElems]
  omega

instance {α β : Type} [Codec α] [Codec β] : Codec (α × β) where
  toJson p := .arr [toJson p.1, toJson p.2]
  ofJson?
    | .arr [a, b] => do return (← ofJson? a, ← ofJson? b)
    | _ => none
  levels := Codec.levels α + Codec.levels β + 1
  ofJson?_toJson p := by simp
  valid_toJson p := ⟨Codec.valid_toJson p.1, Codec.valid_toJson p.2, trivial⟩
  depth_toJson := depth_pair

instance : Codec IncrementalHead where
  toJson x := .obj [("compilerStoreKey", toJson x.compilerStoreKey), ("ready", toJson x.ready),
    ("receipt", toJson x.receipt), ("schema", toJson x.schema)]
  ofJson? j := do
    guard (j.onlyFields ["compilerStoreKey", "ready", "receipt", "schema"])
    let compilerStoreKey ← field j "compilerStoreKey"
    let ready ← field j "ready"
    let receipt ← field j "receipt"
    let schema ← field j "schema"
    return { schema, compilerStoreKey, receipt, ready }
  levels := 2

instance : Codec Plan where
  toJson x := .obj [("compilerStoreKey", toJson x.compilerStoreKey),
    ("directoryIdentity", toJson x.directoryIdentity), ("fileChangeTime", toJson x.fileChangeTime),
    ("fileIdentity", toJson x.fileIdentity), ("headBytes", toJson x.headBytes),
    ("headDigest", toJson x.headDigest), ("headKey", toJson x.headKey),
    ("repositoryIdentity", toJson x.repositoryIdentity), ("repositoryKey", toJson x.repositoryKey),
    ("schema", toJson x.schema)]
  ofJson? j := do
    guard (j.onlyFields ["compilerStoreKey", "directoryIdentity", "fileChangeTime", "fileIdentity",
      "headBytes", "headDigest", "headKey", "repositoryIdentity", "repositoryKey", "schema"])
    let compilerStoreKey ← field j "compilerStoreKey"
    let directoryIdentity ← field j "directoryIdentity"
    let fileChangeTime ← field j "fileChangeTime"
    let fileIdentity ← field j "fileIdentity"
    let headBytes ← field j "headBytes"
    let headDigest ← field j "headDigest"
    let headKey ← field j "headKey"
    let repositoryIdentity ← field j "repositoryIdentity"
    let repositoryKey ← field j "repositoryKey"
    let schema ← field j "schema"
    return {
      schema, repositoryKey, headKey, repositoryIdentity, directoryIdentity, fileIdentity,
      fileChangeTime, headDigest, headBytes, compilerStoreKey }
  levels := 2

instance : Codec Receipt where
  toJson x := .obj [("phase", toJson x.phase), ("plan", toJson x.plan),
    ("planDigest", toJson x.planDigest), ("schema", toJson x.schema)]
  ofJson? j := do
    guard (j.onlyFields ["phase", "plan", "planDigest", "schema"])
    let phase ← field j "phase"
    let plan ← field j "plan"
    let planDigest ← field j "planDigest"
    let schema ← field j "schema"
    return { schema, plan, planDigest, phase }
  levels := 3

/-- `canonical::hash` of a plan. -/
def Plan.digest [Sha256] (plan : Plan) : String := hashBytes (encode plan)

/-- The receipt a plan is prepared with. -/
def Plan.receipt [Sha256] (plan : Plan) : Receipt :=
  ⟨receiptSchema, plan, plan.digest, "PREPARED"⟩

/-! ## The managed state -/

/-- What there is under the digest of a plan: the bytes of the head, and the receipt. -/
structure Archive where
  head : Option Bytes
  receipt : Option Bytes

/-- The keys of a repository and of a head, and the digits of a plan. -/
abbrev Place := String × String × String

/-- The managed state, as far as it is read and written here: the device and inode of the
directories that there are, the heads, and the archives, each under the keys in its path. -/
structure Cache where
  identity : String → Option (UInt64 × UInt64)
  heads : String × String → Option File
  archives : Place → Archive

def opened {α : Type} : Option α → Except ClewError α
  | some file => .ok file
  | none => .error (internal "No such file or directory (os error 2)")

def readPrivateFile (file : Option Bytes) : Except ClewError Bytes := do
  let bytes ← opened file
  ensure (bytes.length ≤ maxHeadBytes) (invalid "managed state file exceeds its read bound")
  return bytes

def Cache.withArchive (cache : Cache) (place : Place) (archive : Archive) : Cache :=
  { cache with archives := Function.update cache.archives place archive }

/-- The digits of a digest. -/
abbrev Key := { text : String // isLowerHex text 64 = true }

/-- The scheme is put before the text and taken off again, so only the digits are checked. -/
def component (value : String) : Except ClewError Key :=
  if h : isLowerHex value 64 = true then .ok ⟨value, h⟩
  else .error (corrupt "generation digest is invalid")

/-- `generation_service::digest_component`. -/
def digestComponent (value : String) : Except ClewError Key :=
  match stripPrefix "sha256:" value with
  | none => .error (corrupt "generation digest prefix is invalid")
  | some digits => component digits

def validateHead (bytes : Bytes) : Except ClewError IncrementalHead :=
  match (decode bytes : Option IncrementalHead) with
  | none => .error (corrupt "incremental retirement head is invalid")
  | some head => do
    ensure (encode head = bytes ∧ head.schema = incrementalHeadSchema ∧
        head.ready.objectSchema = readyGenerationSchema ∧
        head.receipt.objectSchema = incrementalReceiptSchema)
      (corrupt "incremental retirement head authority is invalid")
    let _ ← digestComponent head.compilerStoreKey
    validateReference head.ready
    validateReference head.receipt
    return head

/-- An addressed head: its keys, and the directories on the way to it as they were opened. -/
structure Address where
  repositoryKey : Key
  headKey : Key
  repository : UInt64 × UInt64
  directory : UInt64 × UInt64

/-- What a call returns. -/
inductive Action where
  | dryRun
  | applied
  deriving DecidableEq

structure Outcome where
  action : Action
  planDigest : String
  plan : Plan
  alreadyAbsent : Bool
  /-- Where the archive and the receipt are. -/
  archive : Place

/-- The machine has stopped. -/
def stopped : ClewError := internal "interrupted"

namespace Address

variable (a : Address)

def head (cache : Cache) : Option File := cache.heads (a.repositoryKey, a.headKey)

/-- `archive_paths`. -/
def archivePath (digest : String) : Except ClewError (Place) := do
  let digits ← digestComponent digest
  return (a.repositoryKey, a.headKey, digits)

variable [Sha256]

def planOf (file : File) (head : IncrementalHead) : Plan where
  schema := planSchema
  repositoryKey := a.repositoryKey
  headKey := a.headKey
  repositoryIdentity := a.repository
  directoryIdentity := a.directory
  fileIdentity := (file.metadata.device, file.metadata.inode)
  fileChangeTime := (file.metadata.changedSeconds, file.metadata.changedNanoseconds)
  headDigest := hashBytes file.bytes
  headBytes := .ofNat file.bytes.length
  compilerStoreKey := head.compilerStoreKey

def snapshot (cache : Cache) : Except ClewError (Plan × Bytes) := do
  let file ← opened (a.head cache)
  ensure (file.bytes.length ≤ maxHeadBytes)
    ⟨.resourceLimit, "incremental retirement head exceeds 64 KiB"⟩
  let head ← validateHead file.bytes
  return (a.planOf file head, file.bytes)

/-- What a receipt must say. -/
abbrev Binds (receipt : Receipt) (expected : String) : Prop :=
  receipt.schema = receiptSchema ∧ receipt.plan.schema = planSchema ∧
    receipt.plan.repositoryKey = a.repositoryKey ∧ receipt.plan.headKey = a.headKey ∧
    receipt.planDigest = expected ∧ receipt.plan.digest = expected ∧
    (receipt.phase = "PREPARED" ∨ receipt.phase = "APPLIED")

def verifyReceipt (expected : String) (cache : Cache) :
    Except ClewError (Receipt × Place) := do
  let path ← a.archivePath expected
  let bytes ← readPrivateFile (cache.archives path).receipt
  match (decode bytes : Option Receipt) with
  | none => throw (corrupt "incremental retirement receipt is invalid")
  | some receipt =>
    ensure (encode receipt = bytes ∧ a.Binds receipt expected)
      (corrupt "incremental retirement receipt binding is invalid")
    ensure (a.repository = receipt.plan.repositoryIdentity ∧
      a.directory = receipt.plan.directoryIdentity)
      (corrupt "incremental retirement directory identity changed")
    let archived ← readPrivateFile (cache.archives path).head
    let head ← validateHead archived
    ensure (hashBytes archived = receipt.plan.headDigest ∧
        archived.length = receipt.plan.headBytes.toNat ∧
        head.compilerStoreKey = receipt.plan.compilerStoreKey)
      (corrupt "incremental retirement archive binding is invalid")
    return (receipt, path)

end Address

def writeReceipt (path : Place) (receipt : Receipt) (cache : Cache) : Cache :=
  cache.withArchive path { cache.archives path with receipt := some (encode receipt) }

/-- The receipt, marked and written again. -/
def markApplied (receipt : Receipt) (path : Place) : Cache → Cache :=
  writeReceipt path { receipt with phase := "APPLIED" }

namespace Address

variable (a : Address) [Sha256]

/-- The head was removed before. -/
def retireAbsent (expectedPlan : Option String) (apply : Bool) :
    Program (Machine Cache) ClewError Outcome :=
  match expectedPlan with
  | none => fail (corrupt "addressed incremental head is absent")
  | some expected => do
    let (receipt, path) ← read (a.verifyReceipt expected)
    let outcome : Outcome :=
      ⟨if apply then .applied else .dryRun, expected, receipt.plan, true, path⟩
    if apply = true ∧ receipt.phase = "PREPARED" then
      write (markApplied receipt path) stopped
      return outcome
    else return outcome

def removeFile (cache : Cache) : Cache :=
  { cache with heads := Function.update cache.heads (a.repositoryKey.1, a.headKey.1) none }

/-- The head and the archive are checked once more, then the head is removed. -/
def remove (path : Place) (bytes : Bytes) (outcome : Outcome) :
    Program (Machine Cache) ClewError Outcome := do
  let (receipt, _) ← read (a.verifyReceipt outcome.planDigest)
  let (current, now) ← read a.snapshot
  require (current.digest = outcome.planDigest ∧ now = bytes)
    (corrupt "incremental head changed before retirement")
  write a.removeFile stopped
  write (markApplied receipt path) stopped
  return outcome

/-- The head is there. -/
def retirePresent (expectedPlan : Option String) (apply : Bool) :
    Program (Machine Cache) ClewError Outcome := do
  let (plan, bytes) ← read a.snapshot
  require (∀ expected ∈ expectedPlan, expected = plan.digest)
    (corrupt "incremental retirement dry-run plan is stale")
  let path ← read fun _ ↦ a.archivePath plan.digest
  let outcome : Outcome := ⟨if apply then .applied else .dryRun, plan.digest, plan, false, path⟩
  if apply then
    let prepared ← read fun cache ↦ .ok (cache.archives path).receipt
    if prepared ≠ none then
      let (receipt, _) ← read (a.verifyReceipt plan.digest)
      require (receipt.phase ≠ "APPLIED")
        (corrupt "incremental head reappeared after retirement; require a fresh plan")
      a.remove path bytes outcome
    else
      let archived ← read fun cache ↦
        if (cache.archives path).head ≠ none then readPrivateFile (cache.archives path).head
        else .ok bytes
      require (archived = bytes) (corrupt "incremental retirement archive changed")
      write
        (fun cache ↦ cache.withArchive path { cache.archives path with head := some bytes }) stopped
      write (writeReceipt path plan.receipt) stopped
      a.remove path bytes outcome
  else return outcome

end Address

/-- The checks of the arguments, and the directories. -/
def openAddress (repositoryKey headKey : String) (expectedPlan : Option String) (apply : Bool)
    (cache : Cache) : Except ClewError Address := do
  let repositoryKey ← component repositoryKey
  let headKey ← component headKey
  let _ ← expectedPlan.mapM digestComponent
  ensure (apply = true → expectedPlan.isSome = true)
    (corrupt "incremental retirement apply requires an exact dry-run plan")
  let repository ← opened (cache.identity ("repos/" ++ repositoryKey))
  let directory ← opened (cache.identity ("repos/" ++ repositoryKey ++ "/incremental"))
  return { repositoryKey, headKey, repository, directory }

/-- Retire a head, under the exclusive lease. -/
def retireWithState [Sha256] (repositoryKey headKey : String) (expectedPlan : Option String)
    (apply : Bool) : Program (Machine Cache) ClewError Outcome := do
  let a ← read (openAddress repositoryKey headKey expectedPlan apply)
  let head ← read fun cache ↦ .ok (a.head cache)
  if head = none then a.retireAbsent expectedPlan apply
  else a.retirePresent expectedPlan apply

/-! ## What is read -/

theorem opened_eq_ok_iff {α : Type} {x : Option α} {a : α} : opened x = .ok a ↔ x = some a := by
  cases x with
  | none => exact ⟨nofun, nofun⟩
  | some b => exact Except.ok.injEq b a ▸ Option.some.injEq b a ▸ Iff.rfl

theorem readPrivateFile_eq_ok_iff {file : Option Bytes} {bytes : Bytes} :
    readPrivateFile file = .ok bytes ↔ file = some bytes ∧ bytes.length ≤ maxHeadBytes := by
  rw [readPrivateFile, bind_eq_ok_iff]
  simp only [opened_eq_ok_iff, ensure_bind_eq_ok_iff]
  constructor
  · rintro ⟨_, hfile, hsize, h⟩
    obtain rfl := Except.ok.inj h
    exact ⟨hfile, hsize⟩
  · rintro ⟨hfile, hsize⟩
    exact ⟨bytes, hfile, hsize, rfl⟩

theorem archives_withArchive (cache : Cache) (path : Place) (archive : Archive) :
    (cache.withArchive path archive).archives path = archive :=
  Function.update_self ..

namespace Address

variable {a : Address} {expected : String} {path : Place} {cache cache' : Cache}

variable [Sha256] {receipt : Receipt} {plan : Plan} {bytes : Bytes}

/-- The archive of a plan. -/
def Archives (plan : Plan) (file : Option Bytes) (archived : Bytes) : Prop :=
  readPrivateFile file = .ok archived ∧ ∃ head, validateHead archived = .ok head ∧
    hashBytes archived = plan.headDigest ∧ archived.length = plan.headBytes.toNat ∧
      head.compilerStoreKey = plan.compilerStoreKey

/-- A receipt and an archive that are accepted. -/
structure Verified (a : Address) (expected : String) (archive : Archive) (receipt : Receipt) :
    Prop where
  read : readPrivateFile archive.receipt = .ok (encode receipt)
  binds : a.Binds receipt expected
  opened : a.repository = receipt.plan.repositoryIdentity ∧
    a.directory = receipt.plan.directoryIdentity
  archives : ∃ archived, Archives receipt.plan archive.head archived

theorem verifyReceipt_eq_ok_iff : a.verifyReceipt expected cache = .ok (receipt, path) ↔
    a.archivePath expected = .ok path ∧ a.Verified expected (cache.archives path) receipt := by
  constructor
  · intro h
    obtain ⟨path', hpath, h⟩ := bind_eq_ok_iff.mp h
    obtain ⟨bytes, hread, h⟩ := bind_eq_ok_iff.mp h
    split at h
    · cases h
    · obtain ⟨⟨hencode, hbinds⟩, h⟩ := ensure_bind_eq_ok_iff.mp h
      obtain ⟨hopened, h⟩ := ensure_bind_eq_ok_iff.mp h
      obtain ⟨archived, harchived, h⟩ := bind_eq_ok_iff.mp h
      obtain ⟨head, hhead, h⟩ := bind_eq_ok_iff.mp h
      obtain ⟨hfacts, h⟩ := ensure_bind_eq_ok_iff.mp h
      obtain ⟨rfl, rfl⟩ := Prod.mk.inj (Except.ok.inj h)
      exact ⟨hpath, hencode ▸ hread, hbinds, hopened, archived, harchived, head, hhead, hfacts⟩
  · rintro ⟨hpath, hread, hbinds, hopened, archived, harchived, head, hhead, hfacts⟩
    rw [verifyReceipt, hpath, ok_bind, hread, ok_bind, decode_encode (by decide)]
    dsimp only
    rw [ensure_bind_eq_ok_iff, ensure_bind_eq_ok_iff, harchived, ok_bind, hhead, ok_bind,
      ensure_bind_eq_ok_iff]
    exact ⟨⟨rfl, hbinds⟩, hopened, hfacts, rfl⟩

theorem snapshot_eq_ok (h : a.snapshot cache = .ok (plan, bytes)) : ∃ file head,
    a.head cache = some file ∧ file.bytes.length ≤ maxHeadBytes ∧
      validateHead file.bytes = .ok head ∧
      plan = a.planOf file head ∧ bytes = file.bytes := by
  obtain ⟨file, hfile, h⟩ := bind_eq_ok_iff.mp h
  obtain ⟨hsize, h⟩ := ensure_bind_eq_ok_iff.mp h
  obtain ⟨head, hhead, h⟩ := bind_eq_ok_iff.mp h
  obtain ⟨rfl, rfl⟩ := Prod.mk.inj (Except.ok.inj h)
  exact ⟨file, head, opened_eq_ok_iff.mp hfile, hsize, hhead, rfl, rfl⟩

omit [Sha256] in
theorem utf8Length_of_digestComponent {value : String} {key : Key}
    (h : digestComponent value = .ok key) : utf8Length (chars value) = 71 := by
  rw [digestComponent] at h
  split at h
  · cases h
  · next digits hdigits =>
    rw [component] at h
    split_ifs at h with hhex
    rw [stripPrefix_eq_some_iff.mp hdigits, chars_eq_toList, String.toList_append,
      utf8Length_append, ← chars_eq_toList digits, utf8Length_of_isLowerHex hhex]
    rfl

theorem digestComponent_hashBytes (bytes : Bytes) :
    digestComponent (hashBytes bytes)
      = .ok ⟨digestHex (Sha256.digest bytes), isLowerHex_digestHex _⟩ := by
  rw [digestComponent, hashBytes, stripPrefix_digestText]
  exact dif_pos (isLowerHex_digestHex _)

variable {file : File} {head : IncrementalHead}

/-- A receipt of a head that was read can be read. -/
theorem size_receipt_le (hvalid : validateHead file.bytes = .ok head) :
    (encode (a.planOf file head).receipt).length ≤ maxHeadBytes := by
  have hstore : utf8Length (chars head.compilerStoreKey) = 71 := by
    rw [validateHead] at hvalid
    split at hvalid
    · cases hvalid
    · obtain ⟨-, hvalid⟩ := ensure_bind_eq_ok_iff.mp hvalid
      obtain ⟨key, hkey, hvalid⟩ := bind_eq_ok_iff.mp hvalid
      obtain ⟨-, hvalid⟩ := check_bind_eq_ok_iff.mp hvalid
      obtain ⟨-, hvalid⟩ := check_bind_eq_ok_iff.mp hvalid
      rw [← Except.ok.inj hvalid]
      exact utf8Length_of_digestComponent hkey
  have hkeySize : ∀ key : Key, stringSize key ≤ 770 := by
    intro key
    have hle := stringSize_le key
    rw [utf8Length_of_isLowerHex key.2] at hle
    omega
  have hdigestSize : ∀ bytes : Bytes, stringSize (hashBytes bytes) ≤ 854 := by
    intro bytes
    have hle := stringSize_le (hashBytes bytes)
    rw [utf8Length_of_digestComponent (digestComponent_hashBytes bytes)] at hle
    omega
  have htime (n : Int64) : (Json.num n.toInt).size ≤ 21 := by
    have hlo := n.le_toInt
    have hhi := n.toInt_lt
    exact size_num_le (by omega)
  have hnames : stringSize "compilerStoreKey" = 18 ∧ stringSize "directoryIdentity" = 19 ∧
      stringSize "fileChangeTime" = 16 ∧ stringSize "fileIdentity" = 14 ∧
      stringSize "headBytes" = 11 ∧ stringSize "headDigest" = 12 ∧ stringSize "headKey" = 9 ∧
      stringSize "repositoryIdentity" = 20 ∧ stringSize "repositoryKey" = 15 ∧
      stringSize "schema" = 8 ∧ stringSize "phase" = 7 ∧ stringSize "plan" = 6 ∧
      stringSize "planDigest" = 12 ∧ stringSize "PREPARED" = 10 ∧ stringSize planSchema = 42 ∧
      stringSize receiptSchema = 45 := by decide
  have hrepositorySize := hkeySize a.repositoryKey
  have hheadSize := hkeySize a.headKey
  have hheadDigest := hdigestSize file.bytes
  have hplanDigest := hdigestSize (encode (a.planOf file head))
  have hstoreSize := stringSize_le head.compilerStoreKey
  have h1 := htime file.metadata.changedSeconds
  have h2 := htime file.metadata.changedNanoseconds
  have h3 := size_toNat_le a.directory.1
  have h4 := size_toNat_le a.directory.2
  have h5 := size_toNat_le file.metadata.device
  have h6 := size_toNat_le file.metadata.inode
  have h7 := size_toNat_le a.repository.1
  have h8 := size_toNat_le a.repository.2
  have h9 := size_toNat_le (.ofNat file.bytes.length)
  rw [encode, length_bytes, Plan.receipt, Plan.digest]
  generalize hashBytes (encode (a.planOf file head)) = digest at hplanDigest ⊢
  simp only [planOf, toJson, size_obj, size_arr, size_str, map_cons, map_nil, sum_cons,
    sum_nil, length_cons, length_nil, hnames, ofU64]
  rw [maxHeadBytes]
  omega

/-- The receipt of a head that was read is accepted beside its archive. -/
theorem Verified.prepared (hsize : file.bytes.length ≤ maxHeadBytes)
    (hvalid : validateHead file.bytes = .ok head) :
    a.Verified (a.planOf file head).digest
      ⟨some file.bytes, some (encode (a.planOf file head).receipt)⟩
        (a.planOf file head).receipt := by
  refine ⟨readPrivateFile_eq_ok_iff.mpr ⟨rfl, size_receipt_le hvalid⟩,
    ⟨rfl, rfl, rfl, rfl, rfl, rfl, .inl rfl⟩, ⟨rfl, rfl⟩, file.bytes,
    readPrivateFile_eq_ok_iff.mpr ⟨rfl, hsize⟩, head, hvalid, rfl, ?_, rfl⟩
  exact (UInt64.toNat_ofNat_of_lt' (hsize.trans_lt (by decide))).symm

/-- A receipt that is accepted is accepted when it is marked. -/
theorem verifyReceipt_markApplied (h : a.verifyReceipt expected cache = .ok (receipt, path))
    (hphase : receipt.phase = "PREPARED") :
    a.verifyReceipt expected (markApplied receipt path cache)
      = .ok ({ receipt with phase := "APPLIED" }, path) := by
  obtain ⟨hpath, hread, ⟨hschema, hplan, hrepository, hhead, hexpected, hdigest, -⟩, hopened,
    archived, harchived, hvalid⟩ := verifyReceipt_eq_ok_iff.mp h
  rw [verifyReceipt_eq_ok_iff, markApplied, writeReceipt, archives_withArchive]
  refine ⟨hpath, readPrivateFile_eq_ok_iff.mpr ⟨rfl, ?_⟩,
    ⟨hschema, hplan, hrepository, hhead, hexpected, hdigest, .inr rfl⟩, hopened, archived,
      harchived,
    hvalid⟩
  have hsize := (readPrivateFile_eq_ok_iff.mp hread).2
  have hphases : stringSize "PREPARED" = 10 ∧ stringSize "APPLIED" = 9 := by decide
  rw [encode, length_bytes] at hsize ⊢
  simp only [toJson, size_obj, size_str, map_cons, map_nil, sum_cons, sum_nil,
    length_cons, length_nil, hphase, hphases] at hsize ⊢
  omega

/-! ## Applying a plan -/

/-- The states of the cache in which a plan can be applied. -/
inductive Applicable (a : Address) (expected : String) (cache : Cache) : Prop
  | absent (receipt : Receipt) (path : Place) (hhead : a.head cache = none)
    (hverify : a.verifyReceipt expected cache = .ok (receipt, path))
  | prepared (plan : Plan) (bytes : Bytes) (receipt : Receipt) (path : Place)
    (hsnapshot : a.snapshot cache = .ok (plan, bytes)) (hdigest : plan.digest = expected)
    (hverify : a.verifyReceipt expected cache = .ok (receipt, path))
    (hphase : receipt.phase = "PREPARED")
  | planned (plan : Plan) (bytes : Bytes) (path : Place)
    (hsnapshot : a.snapshot cache = .ok (plan, bytes)) (hdigest : plan.digest = expected)
    (hpath : a.archivePath expected = .ok path) (hreceipt : (cache.archives path).receipt = none)
    (harchive : (cache.archives path).head = none ∨ (cache.archives path).head = some bytes)

/-- What may have become of a cache: the head is as it was, or it was the plan's and is in an
archive with a receipt that is accepted. -/
structure Kept (a : Address) (expected : String) (before after : Cache) : Prop where
  identity : after.identity = before.identity
  applicable : a.Applicable expected after
  head : a.head after = a.head before ∨ a.head after = none ∧ ∃ plan bytes receipt path,
    a.snapshot before = .ok (plan, bytes) ∧ plan.digest = expected ∧
      a.verifyReceipt expected after = .ok (receipt, path)

theorem finishes_absent {n : ℕ} (hhead : a.head cache = none)
    (hverify : a.verifyReceipt expected cache = .ok (receipt, path)) :
    Finishes cache (n + 1) (a.retireAbsent (some expected) true) (a.Kept expected cache)
      (·.action = .applied) := by
  have hkept : a.Kept expected cache cache := ⟨rfl, .absent receipt path hhead hverify, .inl rfl⟩
  refine .read_bind hverify ?_
  dsimp only
  by_cases hphase : receipt.phase = "PREPARED"
  · rw [if_pos ⟨rfl, hphase⟩]
    exact .write_bind hkept
      (.pure ⟨rfl, .absent _ path hhead (verifyReceipt_markApplied hverify hphase), .inl rfl⟩ rfl)
  · rw [if_neg fun h ↦ hphase h.2]
    exact .pure hkept rfl

variable {before : Cache}

/-- The head is still there, and so is its receipt. -/
theorem finishes_remove {n : ℕ} {outcome : Outcome} (receipt : Receipt)
    (hidentity : cache.identity = before.identity) (hheads : cache.heads = before.heads)
    (hsnapshot : a.snapshot before = .ok (plan, bytes))
    (hverify : a.verifyReceipt plan.digest cache = .ok (receipt, path))
    (hphase : receipt.phase = "PREPARED") (houtcome : outcome.planDigest = plan.digest)
    (happlied : outcome.action = .applied) :
    Finishes cache (n + 2) (a.remove path bytes outcome) (a.Kept plan.digest before)
      (·.action = .applied) := by
  have hhead : a.head cache = a.head before := congrFun hheads _
  have hcurrent : a.snapshot cache = .ok (plan, bytes) := by
    rw [← hsnapshot, snapshot, hhead]
    rfl
  have habsent : a.head (a.removeFile cache) = none := Function.update_self ..
  have hgone : ∀ {after receipt'}, after.identity = cache.identity →
      after.heads = (a.removeFile cache).heads →
      a.verifyReceipt plan.digest after = .ok (receipt', path) →
        a.Kept plan.digest before after := by
    intro after receipt' hidentity' hheads' hverify'
    have hnone : a.head after = none := (congrFun hheads' _).trans habsent
    exact ⟨hidentity'.trans hidentity, .absent receipt' path hnone hverify',
      .inr ⟨hnone, plan, bytes, receipt', path, hsnapshot, rfl, hverify'⟩⟩
  have hverify' : a.verifyReceipt plan.digest (a.removeFile cache) = .ok (receipt, path) := hverify
  rw [remove, houtcome]
  refine .read_bind hverify (.read_bind hcurrent (.require_bind ⟨rfl, rfl⟩ (.write_bind ?_
    (.write_bind (hgone rfl rfl hverify') (.pure ?_ happlied)))))
  · exact ⟨hidentity, .prepared plan bytes receipt path hcurrent rfl hverify hphase, .inl hhead⟩
  · exact hgone rfl rfl (verifyReceipt_markApplied hverify' hphase)

theorem finishes_present (h : a.Applicable expected cache) (hhead : a.head cache ≠ none) :
    Finishes cache 4 (a.retirePresent (some expected) true) (a.Kept expected cache)
      (·.action = .applied) := by
  have hkept : a.Kept expected cache cache := ⟨rfl, h, .inl rfl⟩
  cases h with
  | absent _ _ habsent _ => exact absurd habsent hhead
  | prepared plan bytes receipt path hsnapshot hdigest hverify hphase =>
    subst hdigest
    obtain ⟨hpath, hverified⟩ := verifyReceipt_eq_ok_iff.mp hverify
    have hexists := (readPrivateFile_eq_ok_iff.mp hverified.read).1
    refine .read_bind hsnapshot (.require_bind (by simp) (.read_bind hpath (.read_bind rfl ?_)))
    rw [if_pos rfl, if_pos (by rw [hexists]; nofun)]
    refine .read_bind hverify (.require_bind (by rw [hphase]; decide) ?_)
    exact finishes_remove receipt rfl rfl hsnapshot hverify hphase rfl rfl
  | planned plan bytes path hsnapshot hdigest hpath hreceipt harchive =>
    subst hdigest
    obtain ⟨file, head, -, hsize, hvalid, rfl, rfl⟩ := snapshot_eq_ok hsnapshot
    have harchived : (if (cache.archives path).head ≠ none then
        readPrivateFile (cache.archives path).head else .ok file.bytes) = .ok file.bytes := by
      rcases harchive with hnone | hsome
      · rw [if_neg (not_not.mpr hnone)]
      · rw [hsome, if_pos nofun]
        exact readPrivateFile_eq_ok_iff.mpr ⟨rfl, hsize⟩
    refine .read_bind hsnapshot (.require_bind (by simp) (.read_bind hpath (.read_bind rfl ?_)))
    rw [if_pos rfl, if_neg (not_not.mpr hreceipt)]
    refine .read_bind harchived (.require_bind rfl (.write_bind hkept (.write_bind ?_ ?_)))
    · refine ⟨rfl, .planned _ _ path hsnapshot rfl hpath ?_ (.inr ?_), .inl rfl⟩
      · rw [archives_withArchive]
        exact hreceipt
      · rw [archives_withArchive]
    · refine finishes_remove (a.planOf file head).receipt rfl rfl hsnapshot
        (verifyReceipt_eq_ok_iff.mpr ⟨hpath, ?_⟩) rfl rfl rfl
      rw [writeReceipt, archives_withArchive, archives_withArchive]
      exact .prepared hsize hvalid

/-- Where a plan cannot be applied, nothing is written. -/
theorem refuses {machine : Machine Cache} (h : ¬a.Applicable expected machine.disk) :
    Refuses machine (if a.head machine.disk = none then a.retireAbsent (some expected) true
      else a.retirePresent (some expected) true) := by
  split_ifs with hhead
  · exact .read_bind fun found hverify ↦ absurd (.absent found.1 found.2 hhead hverify) h
  · refine .read_bind fun snapshot hsnapshot ↦ ?_
    obtain ⟨plan, bytes⟩ := snapshot
    refine .require_bind fun hdigest ↦ .read_bind fun path hpath ↦
      .read_bind fun prepared hprepared ↦ ?_
    obtain rfl := hdigest expected rfl
    obtain rfl := Except.ok.inj hprepared
    rw [if_pos rfl]
    split_ifs with hreceipt
    · refine .read_bind fun found hverify ↦ ?_
      obtain ⟨receipt, path'⟩ := found
      refine .require_bind fun hphase ↦ absurd ?_ h
      have hphases := (verifyReceipt_eq_ok_iff.mp hverify).2.binds.2.2.2.2.2.2
      exact .prepared plan bytes receipt path' hsnapshot rfl hverify (hphases.resolve_right hphase)
    · refine .read_bind fun archived harchived ↦ .require_bind fun heq ↦ absurd ?_ h
      subst heq
      refine .planned plan archived path hsnapshot rfl hpath (not_not.mp hreceipt) ?_
      by_cases hnone : (machine.disk.archives path).head = none
      · exact .inl hnone
      · rw [if_pos hnone] at harchived
        exact .inr (readPrivateFile_eq_ok_iff.mp harchived).1

end Address

section Runs

variable {repositoryKey headKey expected : String} {cache cache' : Cache} {a : Address}

theorem component_eq_ok {value : String} {key : Key} (h : component value = .ok key) :
    key.1 = value := by
  rw [component] at h
  split_ifs at h
  rw [← Except.ok.inj h]

theorem openAddress_congr (h : cache'.identity = cache.identity) :
    openAddress repositoryKey headKey (some expected) true cache'
      = openAddress repositoryKey headKey (some expected) true cache := by
  simp only [openAddress, h]

theorem openAddress_eq_ok
    (h : openAddress repositoryKey headKey (some expected) true cache = .ok a) :
    a.repositoryKey.1 = repositoryKey ∧ a.headKey.1 = headKey := by
  obtain ⟨key, hkey, h⟩ := bind_eq_ok_iff.mp h
  obtain ⟨key', hkey', h⟩ := bind_eq_ok_iff.mp h
  obtain ⟨_, -, h⟩ := bind_eq_ok_iff.mp h
  obtain ⟨-, h⟩ := ensure_bind_eq_ok_iff.mp h
  obtain ⟨_, -, h⟩ := bind_eq_ok_iff.mp h
  obtain ⟨_, -, h⟩ := bind_eq_ok_iff.mp h
  rw [← Except.ok.inj h]
  exact ⟨component_eq_ok hkey, component_eq_ok hkey'⟩

variable [Sha256]

theorem finishes_retire
    (hopen : openAddress repositoryKey headKey (some expected) true cache = .ok a)
    (h : a.Applicable expected cache) :
    Finishes cache 4 (retireWithState repositoryKey headKey (some expected) true)
      (a.Kept expected cache) (·.action = .applied) := by
  refine .read_bind hopen (.read_bind rfl ?_)
  split_ifs with hhead
  · rcases h with ⟨receipt, path, -, hverify⟩ | ⟨plan, bytes, _, _, hsnapshot⟩
      | ⟨plan, bytes, _, hsnapshot⟩
    · exact Address.finishes_absent hhead hverify
    · obtain ⟨file, _, hfile, -⟩ := Address.snapshot_eq_ok hsnapshot
      cases hhead.symm.trans hfile
    · obtain ⟨file, _, hfile, -⟩ := Address.snapshot_eq_ok hsnapshot
      cases hhead.symm.trans hfile
  · exact Address.finishes_present h hhead

/-- A plan is refused where it cannot be applied. -/
theorem refuses_retire {machine : Machine Cache}
    (h : ∀ a, openAddress repositoryKey headKey (some expected) true machine.disk = .ok a →
      ¬a.Applicable expected machine.disk) :
    Refuses machine (retireWithState repositoryKey headKey (some expected) true) := by
  refine .read_bind fun a hopen ↦ .read_bind fun head hhead ↦ ?_
  obtain rfl := Except.ok.inj hhead
  exact Address.refuses (h a hopen)

/-- Two different texts with one digest. -/
def Collide (b b' : Bytes) : Prop := b ≠ b' ∧ hashBytes b = hashBytes b'

theorem eq_or_collide {α : Type} [Codec α] (hlevels : Codec.levels α < recursionLimit) {x y : α}
    (h : hashBytes (encode x) = hashBytes (encode y)) : x = y ∨ Collide (encode x) (encode y) := by
  by_cases heq : encode x = encode y
  · have hdecode := congrArg (decode (α := α)) heq
    rw [decode_encode hlevels, decode_encode hlevels] at hdecode
    exact .inl (Option.some.inj hdecode)
  · exact .inr ⟨heq, h⟩

/-- Retiring a head never loses it. A plan is applied, to its end or up to a crash after any number
of writes. The head is there as before, or it was the one of the plan, in its bytes and identities,
and these bytes are in an archive whose receipt is accepted, unless digests collide. If the plan can
be applied, or some write was done, applying it again completes. -/
theorem retire_never_loses (repositoryKey headKey : String) (plan : Plan) (cache : Cache)
    (writes : ℕ) :
    let apply := retireWithState repositoryKey headKey (some plan.digest) true
    let after := (apply ⟨cache, writes⟩).2
    (after.disk.heads (repositoryKey, headKey) = cache.heads (repositoryKey, headKey) ∨
      ∃ (file : File) (a : Address) (current : Plan) (receipt : Receipt)
        (path : Place) (archived : Bytes),
        cache.heads (repositoryKey, headKey) = some file ∧
        openAddress repositoryKey headKey (some plan.digest) true after.disk = .ok a ∧
        a.snapshot cache = .ok (current, file.bytes) ∧
        (current = plan ∨ Collide (encode current) (encode plan)) ∧
        a.verifyReceipt plan.digest after.disk = .ok (receipt, path) ∧
        (after.disk.archives path).head = some archived ∧
        (archived = file.bytes ∨ Collide archived file.bytes ∨
          Collide (encode receipt.plan) (encode current))) ∧
    ((∃ writes' outcome, (apply ⟨cache, writes'⟩).1 = .ok outcome) ∨ after.writes ≠ writes →
      ∀ writes', 4 ≤ writes' → ∃ outcome, (apply ⟨after.disk, writes'⟩).1 = .ok outcome ∧
        outcome.action = .applied) := by
  intro apply after
  by_cases happlicable :
    ∃ a, openAddress repositoryKey headKey (some plan.digest) true cache = .ok a ∧
      a.Applicable plan.digest cache
  · obtain ⟨a, hopen, happlicable⟩ := happlicable
    obtain ⟨⟨hidentity, hagain, hhead⟩, -⟩ := finishes_retire hopen happlicable ⟨cache, writes⟩ rfl
    have hopen' := (openAddress_congr hidentity).trans hopen
    refine ⟨?_, fun _ writes' hwrites' ↦
      (finishes_retire hopen' hagain ⟨_, writes'⟩ rfl).2 hwrites'⟩
    obtain ⟨rfl, rfl⟩ := openAddress_eq_ok hopen
    rcases hhead with hsame | ⟨-, current, bytes, receipt, path, hsnapshot, hdigest, hverify⟩
    · exact .inl hsame
    · obtain ⟨file, head, hfile, -, -, rfl, rfl⟩ := Address.snapshot_eq_ok hsnapshot
      obtain ⟨-, -, ⟨-, -, -, -, -, hreceipt, -⟩, -, archived, hread, -, -, harchived, -⟩ :=
        Address.verifyReceipt_eq_ok_iff.mp hverify
      refine .inr ⟨file, a, _, receipt, path, archived, hfile, hopen', hsnapshot,
        eq_or_collide (by decide) hdigest, hverify, (readPrivateFile_eq_ok_iff.mp hread).1, ?_⟩
      rcases eq_or_collide (by decide) (hreceipt.trans hdigest.symm) with hplan | hcollide
      · by_cases hbytes : archived = file.bytes
        · exact .inl hbytes
        · rw [hplan] at harchived
          exact .inr (.inl ⟨hbytes, harchived⟩)
      · exact .inr (.inr hcollide)
  · have hrefuses (writes : ℕ) : Refuses ⟨cache, writes⟩ apply :=
      refuses_retire fun a hopen h ↦ happlicable ⟨a, hopen, h⟩
    obtain ⟨e, hrun⟩ := hrefuses writes
    have hafter : after = ⟨cache, writes⟩ := congrArg Prod.snd hrun
    rw [hafter]
    refine ⟨.inl rfl, ?_⟩
    rintro (⟨writes', outcome, hok⟩ | hne)
    · obtain ⟨e', hrun'⟩ := hrefuses writes'
      rw [hrun'] at hok
      cases hok
    · exact absurd rfl hne

end Runs

section Example

attribute [local instance] Sha256.standard

def exampleKey : String := String.ofList (List.replicate 64 'a')

def examplePlan : Plan :=
  ⟨planSchema, exampleKey, exampleKey, (1, 1), (1, 2), (1, 3), (0, 0), hashBytes [], 0,
    hashBytes []⟩

/-- The directories are there, but no head and no archive. -/
def exampleCache : Cache := ⟨fun _ ↦ some (1, 1), fun _ ↦ none, fun _ ↦ ⟨none, none⟩⟩

/-- A plan for a head that is not there, and was never retired, is refused every time. -/
theorem retire_missing_refused :
    (∃ a, openAddress exampleKey exampleKey (some examplePlan.digest) true exampleCache = .ok a) ∧
      ∀ writes, ∃ e, retireWithState exampleKey exampleKey (some examplePlan.digest) true
        ⟨exampleCache, writes⟩ = (.error e, ⟨exampleCache, writes⟩) := by
  have hkey : component exampleKey = .ok ⟨exampleKey, by decide⟩ := dif_pos _
  constructor
  · rw [openAddress, hkey, ok_bind, ok_bind, Option.mapM_some, Plan.digest,
      Address.digestComponent_hashBytes]
    exact ⟨_, rfl⟩
  · intro writes
    refine refuses_retire fun a _ happlicable ↦ ?_
    rcases happlicable with ⟨receipt, path, -, hverify⟩ | ⟨_, _, _, _, hsnapshot⟩
      | ⟨_, _, _, hsnapshot⟩
    · cases (Address.verifyReceipt_eq_ok_iff.mp hverify).2.read
    · cases hsnapshot
    · cases hsnapshot

/-- A head whose objects all have one digest. -/
def exampleHead : IncrementalHead :=
  let digest := "sha256:" ++ exampleKey
  ⟨incrementalHeadSchema, digest, ⟨digest, incrementalReceiptSchema, casObjectSchema, 0⟩,
    ⟨digest, readyGenerationSchema, casObjectSchema, 0⟩⟩

/-- The plan of a head that is there is applied when nothing stops it. -/
example : ∃ plan : Plan, ∀ writes, 4 ≤ writes → ∃ outcome,
    (retireWithState exampleKey exampleKey (some plan.digest) true
      ⟨{ exampleCache with heads := fun _ ↦ some ⟨encode exampleHead, default⟩ }, writes⟩).1 =
        .ok outcome ∧ outcome.action = .applied := by
  have hkey : component exampleKey = .ok ⟨exampleKey, by decide⟩ := dif_pos _
  let a : Address := ⟨⟨exampleKey, by decide⟩, ⟨exampleKey, by decide⟩, (1, 1), (1, 1)⟩
  let cache : Cache := { exampleCache with heads := fun _ ↦ some ⟨encode exampleHead, default⟩ }
  let plan := a.planOf ⟨encode exampleHead, default⟩ exampleHead
  have hhead : validateHead (encode exampleHead) = .ok exampleHead := by
    rw [validateHead, decode_encode (by decide)]
    exact ensure_bind_eq_ok_iff.mpr ⟨⟨rfl, rfl, rfl, rfl⟩, rfl⟩
  have hopen : openAddress exampleKey exampleKey (some plan.digest) true cache = .ok a := by
    rw [openAddress, hkey, ok_bind, ok_bind, Option.mapM_some, Plan.digest,
      Address.digestComponent_hashBytes]
    rfl
  have hsnapshot : a.snapshot cache = .ok (plan, encode exampleHead) := by
    have hsize : (encode exampleHead).length ≤ maxHeadBytes := by decide +kernel
    have hfile : a.head cache = some ⟨encode exampleHead, default⟩ := rfl
    rw [Address.snapshot, opened_eq_ok_iff.mpr hfile, ok_bind, ensure_bind_eq_ok_iff]
    exact ⟨hsize, bind_eq_ok_iff.mpr ⟨_, hhead, rfl⟩⟩
  have hpath : ∃ path, a.archivePath plan.digest = .ok path := by
    rw [Address.archivePath, Plan.digest, Address.digestComponent_hashBytes]
    exact ⟨_, rfl⟩
  obtain ⟨path, hpath⟩ := hpath
  have happlicable : a.Applicable plan.digest cache :=
    .planned plan _ _ hsnapshot rfl hpath rfl (.inl rfl)
  exact ⟨plan, fun writes hwrites ↦
    (finishes_retire hopen happlicable ⟨cache, writes⟩ rfl).2 hwrites⟩

end Example

end Codeclew.Retirement
