import Codeclew.Files
import Codeclew.Lines
import Codeclew.Publication.Types

/-!
# The ledger of a publication

Building and checking the authority, reading the chain of events, and the four calls that change a
publication. The lines of the ledger are checked one by one, each against the event before it.

What the calls learn from elsewhere, the prepared workspace and the clock, comes in as an argument.
-/

namespace Codeclew.Publication

open Json Program

def precondition (message : String) : ClewError := ⟨.preconditionFailed, message⟩

def binding (message : String) : ClewError := ⟨.bindingChanged, message⟩

def digest (value : String) : Bool := (stripPrefix "sha256:" value).any (isLowerHex · 64)

def gitOid (value : String) : Bool := isLowerHex value 40

/-- Each text is smaller than the next. -/
def ascending (texts : List String) : Bool := decide (texts.IsChain (· < ·))

/-- `saturating_add(1)`. -/
def saturatingSucc (n : UInt64) : UInt64 := if n.toNat + 1 < 2 ^ 64 then n + 1 else n

variable [Sha256]

/-! ## Authorities -/

def authorityDigest (authority : WorkspacePublicationAuthority) : String :=
  hashBytes (encode { authority with authorityDigest := "" })

def publicationId (authority : WorkspacePublicationAuthority) : String :=
  "workspace-publication:" ++ hashBytes (Json.obj [
    ("afterWorkspaceAuthorityDigest", toJson authority.afterWorkspaceAuthorityDigest),
    ("afterWorkspaceId", toJson authority.afterWorkspaceId),
    ("members", toJson authority.members),
    ("policy", toJson authority.policy),
    ("preparationId", toJson authority.preparationId),
    ("schema", .str "codeclew-workspace-publication-request-authority/1.0"),
    ("workspaceAuthorityDigest", toJson authority.workspaceAuthorityDigest),
    ("workspaceId", toJson authority.workspaceId),
    ("workspaceSemanticDigest", toJson authority.workspaceSemanticDigest)]).bytes

/-- What is asked of a member by itself. -/
def validMember (member : WorkspacePublicationMemberAuthority) : Bool :=
  byteLength member.sessionId ≠ 0 && byteLength member.sessionId ≤ 128 &&
    byteLength member.runId ≠ 0 && byteLength member.runId ≤ 128 &&
    byteLength member.targetRef ≠ 0 && byteLength member.targetRef ≤ 512 &&
    gitOid member.beforeOid && gitOid member.candidateOid &&
    digest member.preparedAuthorityDigest && ascending member.acknowledgeObligations &&
    member.allowConditional != member.acknowledgeObligations.isEmpty

def validateAuthority (authority : WorkspacePublicationAuthority) : Except ClewError Unit :=
  if authority.schema = workspacePublicationAuthoritySchema ∧
      authority.policy = "ROLL_FORWARD_ONLY" ∧
      2 ≤ authority.members.length ∧ authority.members.length ≤ 4 ∧
      authority.publicationId = publicationId authority ∧
      authority.authorityDigest = authorityDigest authority ∧
      digest authority.workspaceAuthorityDigest ∧
      digest authority.workspaceSemanticDigest ∧
      digest authority.afterWorkspaceAuthorityDigest ∧
      (authority.members.map (·.alias_)).Nodup ∧
      authority.members.all validMember then .ok ()
  else .error (corrupt "workspace publication authority is invalid")

def requirePublishableMember (prepared : AfterWorkspaceMember)
    (requested : WorkspacePublishInputMember) : Except ClewError Unit := do
  if requested.preparedAuthorityDigest ≠ prepared.preparedAuthorityDigest then
    throw (binding "publication request differs from prepared member authority")
  match prepared.runStatus with
  | .readyToPublish =>
    if requested.allowConditional = false ∧ requested.acknowledgeObligations = [] then return ()
  | .readyToPublishConditional =>
    if requested.allowConditional ∧
        requested.acknowledgeObligations.length = prepared.obligationCount ∧
        requested.acknowledgeObligations ≠ [] then return ()
  | .validatedConditional =>
    throw ⟨.incompleteSemanticAnalysis,
      "workspace member is conditional but not eligible for publication"⟩
  | _ => pure ()
  throw (precondition "publication mode or obligation count differs from prepared member")

/-- The members in the order of the request; `aliases` are those already seen. -/
def buildMembers (after : AfterWorkspace) : List WorkspacePublishInputMember → List String →
    Except ClewError (List WorkspacePublicationMemberAuthority)
  | [], _ => .ok []
  | requested :: rest, aliases => do
    if requested.alias_ ∈ aliases ∨ requested.acknowledgeObligations.length > 4096 ∨
        ¬ascending requested.acknowledgeObligations then
      throw (invalid "publication aliases and acknowledgements must be unique and ordered")
    match after.members.find? fun member ↦ member.alias_ == requested.alias_ with
    | none => throw (invalid "publication member is unknown")
    | some prepared =>
      requirePublishableMember prepared requested
      let members ← buildMembers after rest (requested.alias_ :: aliases)
      return {
        alias_ := prepared.alias_
        sessionId := prepared.sessionId
        runId := prepared.runId
        targetRef := prepared.targetRef
        beforeOid := prepared.beforeOid
        candidateOid := prepared.candidateOid
        preparedAuthorityDigest := prepared.preparedAuthorityDigest
        allowConditional := requested.allowConditional
        acknowledgeObligations := requested.acknowledgeObligations } :: members

def buildAuthority (after : AfterWorkspace) (input : WorkspacePublishInput) :
    Except ClewError WorkspacePublicationAuthority := do
  if input.schema ≠ workspacePublishInputSchema ∨ input.policy ≠ "ROLL_FORWARD_ONLY" ∨
      input.members.length ≠ after.members.length then
    throw (invalid "workspace publish input authority is invalid")
  let members ← buildMembers after input.members []
  let unnamed : WorkspacePublicationAuthority := {
    schema := workspacePublicationAuthoritySchema
    publicationId := ""
    authorityDigest := ""
    workspaceId := after.workspaceId
    workspaceAuthorityDigest := after.workspaceAuthorityDigest
    workspaceSemanticDigest := after.workspaceSemanticDigest
    preparationId := after.preparationId
    afterWorkspaceId := after.afterWorkspaceId
    afterWorkspaceAuthorityDigest := after.authorityDigest
    policy := input.policy
    members }
  let unsigned := { unnamed with publicationId := publicationId unnamed }
  let authority := { unsigned with authorityDigest := authorityDigest unsigned }
  validateAuthority authority
  return authority

def parseInput (source : Bytes) : Except ClewError WorkspacePublishInput := do
  if source = [] ∨ source.length > maxWorkspacePublishInputBytes then
    throw (invalid "workspace publish input is empty or exceeds 256 KiB")
  match ofBytes source with
  | none => throw (invalid "workspace publish input is not valid JSON")
  | some value =>
    if value.bytes ≠ source then
      throw (invalid "workspace publish input must be canonical compact JSON with NFC strings")
    match ofJson? value with
    | none => throw (invalid "workspace publish input schema is invalid")
    | some input => return input

def loadAuthority (directory : Directory) : Except ClewError WorkspacePublicationAuthority := do
  let bytes ← directory.readFile "authority.json" maxWorkspacePublicationAuthorityBytes
  match decode bytes with
  | none => throw (corrupt "workspace publication authority is not valid JSON")
  | some (authority : WorkspacePublicationAuthority) =>
    if encode authority ≠ bytes then
      throw (corrupt "workspace publication authority is not canonical")
    validateAuthority authority
    return authority

/-! ## Reading the chain -/

def eventHash (event : WorkspacePublicationEvent) : Except ClewError String :=
  (canonical { event with eventHash := "" }).map hashBytes

/-- A line of the ledger. -/
def readEvent (authority : WorkspacePublicationAuthority) (line : Bytes) :
    Except ClewError WorkspacePublicationEvent := do
  match fromSlice line with
  | none => throw (corrupt "workspace publication event is not valid JSON")
  | some (event : WorkspacePublicationEvent) =>
    let bytes ← canonical event
    let hash ← eventHash event
    if bytes ≠ line ∨ event.schema ≠ workspacePublicationEventSchema ∨
        event.publicationId ≠ authority.publicationId ∨
        event.publicationAuthorityDigest ≠ authority.authorityDigest ∨
        event.eventHash ≠ hash then
      throw (corrupt "workspace publication event authority is invalid")
    return event

/-- The event of a publication that has just been resolved. -/
def isOrigin (current : WorkspacePublicationEvent) : Bool :=
  current.sequence = 0 && current.previousEventHash.isNone && current.status = .preparedAll &&
    current.completed.isEmpty && current.activeAlias.isNone && current.lastErrorCode.isNone

/-- Whether an event may follow another, by its status. -/
def follows (authority : WorkspacePublicationAuthority)
    (previous current : WorkspacePublicationEvent) : Bool :=
  match current.status with
  | .publishing =>
    (previous.status = .preparedAll || previous.status = .partiallyPublished ||
        previous.status = .recoveryRequired) &&
      current.completed = previous.completed &&
      current.activeAlias = authority.members[previous.completed.length]?.map (·.alias_) &&
      current.lastErrorCode.isNone
  | .recoveryRequired =>
    previous.status = .publishing && current.completed = previous.completed &&
      current.activeAlias = previous.activeAlias && current.lastErrorCode.isSome
  | .partiallyPublished | .publishedAll =>
    previous.status = .publishing &&
      current.completed.length = previous.completed.length + 1 &&
      current.completed.take previous.completed.length = previous.completed &&
      current.completed.getLast?.any (fun member ↦ some member.alias_ = previous.activeAlias) &&
      current.activeAlias.isNone && current.lastErrorCode.isNone &&
      (current.status = .publishedAll : Bool) =
        (current.completed.length = authority.members.length : Bool)
  | .preparedAll => false

def validateTransition (authority : WorkspacePublicationAuthority)
    (previous : Option WorkspacePublicationEvent) (current : WorkspacePublicationEvent) :
    Except ClewError Unit :=
  if current.updatedUnixMs = 0 ∨ current.completed.length > authority.members.length ∨
      current.completed.zipIdx.any (fun member ↦ authority.members[member.2]?.all fun expected ↦
        expected.alias_ ≠ member.1.alias_ ∨ expected.candidateOid ≠ member.1.candidateOid) then
    .error (corrupt "workspace publication completion prefix is invalid")
  else match previous with
    | none =>
      if isOrigin current then .ok ()
      else .error (corrupt "workspace publication transition is invalid")
    | some previous =>
      if current.sequence ≠ saturatingSucc previous.sequence ∨
          current.previousEventHash ≠ some previous.eventHash ∨
          current.updatedUnixMs < previous.updatedUnixMs then
        .error (corrupt "workspace publication ledger chain is discontinuous")
      else if follows authority previous current then .ok ()
      else .error (corrupt "workspace publication transition is invalid")

def loadEvents (authority : WorkspacePublicationAuthority) :
    List Bytes → Option WorkspacePublicationEvent →
      Except ClewError (Option WorkspacePublicationEvent)
  | [], previous => .ok previous
  | line :: rest, previous => do
    let event ← readEvent authority line
    validateTransition authority previous event
    loadEvents authority rest (some event)

def loadEventChain (authority : WorkspacePublicationAuthority) (directory : Directory) :
    Except ClewError WorkspacePublicationEvent := do
  let bytes ← directory.readFile "ledger.jsonl" maxWorkspacePublicationLedgerBytes
  if bytes.getLast? ≠ some 10 then
    throw (corrupt "workspace publication ledger is missing or incomplete")
  match ← loadEvents authority (lines bytes) none with
  | none => throw (corrupt "workspace publication ledger is empty")
  | some event => return event

/-! ## Writing -/

def appendEvent (event : WorkspacePublicationEvent) : Files.Steps Unit := do
  let hash ← lift (eventHash event)
  let bytes ← lift (canonical { event with eventHash := hash })
  let line := bytes ++ [10]
  let length ← Files.openAppend "ledger.jsonl"
  require (length + line.length ≤ maxWorkspacePublicationLedgerBytes)
    ⟨.resourceLimit, "workspace publication ledger exceeds 4 MiB"⟩
  Files.appendBytes "ledger.jsonl" line

def nextEvent (now : ℕ) (previous : WorkspacePublicationEvent)
    (status : WorkspacePublicationStatus) (completed : List PublishedWorkspaceMember)
    (activeAlias : Option String) (lastErrorCode : Option ErrorCode) :
    WorkspacePublicationEvent where
  schema := workspacePublicationEventSchema
  publicationId := previous.publicationId
  publicationAuthorityDigest := previous.publicationAuthorityDigest
  sequence := saturatingSucc previous.sequence
  previousEventHash := some previous.eventHash
  status := status
  completed := completed
  activeAlias := activeAlias
  lastErrorCode := lastErrorCode
  updatedUnixMs := now
  eventHash := ""

def project (authority : WorkspacePublicationAuthority) (current : WorkspacePublicationEvent) :
    WorkspacePublicationProjection where
  schema := workspacePublicationProjectionSchema
  publicationId := authority.publicationId
  authorityDigest := authority.authorityDigest
  workspaceId := authority.workspaceId
  afterWorkspaceId := authority.afterWorkspaceId
  policy := authority.policy
  status := current.status
  completed := current.completed
  activeAlias := current.activeAlias
  lastErrorCode := current.lastErrorCode
  remainingAliases := (authority.members.drop current.completed.length).map (·.alias_)
  sequence := current.sequence
  ledgerHead := current.eventHash

/-- What a transition makes of the current event: the event itself if there is nothing to do. -/
abbrev Build := WorkspacePublicationAuthority → WorkspacePublicationEvent →
  Except ClewError WorkspacePublicationEvent

/-- The path of a publication's directory. -/
def publicationDirectory (workspaceId publicationId : String) : Except ClewError String := do
  match (stripPrefix "workspace-publication:sha256:" publicationId).filter (isLowerHex · 64) with
  | none => throw (invalid "workspace publication id is invalid")
  | some component =>
    let name ← managedIdComponent workspaceId "workspace:"
    return "workspaces/" ++ name ++ "/publications/" ++ component

/-- A transition in the directory of its publication. -/
def transitionIn (workspaceId publicationId expectedLedgerHead : String) (build : Build) :
    Files.Steps WorkspacePublicationProjection := do
  let authority ← Files.inspect loadAuthority
  require (authority.workspaceId = workspaceId ∧ authority.publicationId = publicationId)
    (binding "publication belongs to another workspace authority")
  let current ← Files.inspect (loadEventChain authority)
  require (current.eventHash = expectedLedgerHead)
    (precondition "publication ledger changed concurrently; reload before retrying")
  let next ← lift (build authority current)
  if next = current then return project authority current
  else
    appendEvent next
    let current ← Files.inspect (loadEventChain authority)
    return project authority current

def transition (workspaceId publicationId expectedLedgerHead : String) (build : Build) :
    Program FileTree ClewError WorkspacePublicationProjection := do
  let path ← lift (publicationDirectory workspaceId publicationId)
  FileTree.within path (transitionIn workspaceId publicationId expectedLedgerHead build)

/-! ## The calls -/

/-- The member after the completed ones becomes active. -/
def startNext (now : ℕ) : Build := fun authority current ↦
  match current.status with
  | .publishing | .publishedAll => .ok current
  | .preparedAll | .partiallyPublished | .recoveryRequired =>
    match authority.members[current.completed.length]? with
    | none => .error (corrupt "publication has no remaining member")
    | some next =>
      .ok (nextEvent now current .publishing current.completed (some next.alias_) none)

/-- The active member is completed, with the commit that was sealed for it. -/
def complete (now : ℕ) (alias_ candidateOid : String) : Build := fun authority current ↦
  if current.status ≠ .publishing ∨ current.activeAlias ≠ some alias_ then
    .error (precondition "only the active publishing member can complete")
  else match authority.members[current.completed.length]? with
    | none => .error (corrupt "publication member order is exhausted")
    | some expected =>
      if expected.alias_ ≠ alias_ ∨ expected.candidateOid ≠ candidateOid then
        .error (binding "published candidate differs from sealed member authority")
      else
        let completed := current.completed ++ [⟨alias_, candidateOid⟩]
        let status := if completed.length = authority.members.length then
          WorkspacePublicationStatus.publishedAll else .partiallyPublished
        .ok (nextEvent now current status completed none none)

/-- The active member has failed and waits for recovery. -/
def failActive (now : ℕ) (alias_ : String) (errorCode : ErrorCode) : Build := fun _ current ↦
  if current.status ≠ .publishing ∨ current.activeAlias ≠ some alias_ then
    .error (precondition "only the active publishing member can fail")
  else .ok (nextEvent now current .recoveryRequired current.completed (some alias_)
    (some errorCode))

def beginNext (now : ℕ) (workspaceId publicationId expectedLedgerHead : String) :
    Program FileTree ClewError WorkspacePublicationProjection :=
  transition workspaceId publicationId expectedLedgerHead (startNext now)

def recordPublished (now : ℕ)
    (workspaceId publicationId expectedLedgerHead alias_ candidateOid : String) :
    Program FileTree ClewError WorkspacePublicationProjection :=
  transition workspaceId publicationId expectedLedgerHead (complete now alias_ candidateOid)

def recordFailure (now : ℕ) (workspaceId publicationId expectedLedgerHead alias_ : String)
    (errorCode : ErrorCode) : Program FileTree ClewError WorkspacePublicationProjection :=
  transition workspaceId publicationId expectedLedgerHead (failActive now alias_ errorCode)

def persistAuthority (authority : WorkspacePublicationAuthority) : Files.Steps Unit := do
  lift (validateAuthority authority)
  let bytes := encode authority
  require (bytes.length ≤ maxWorkspacePublicationAuthorityBytes)
    ⟨.resourceLimit, "workspace publication authority exceeds 512 KiB"⟩
  let installed ← Files.atomicCreate "authority.json" bytes
  whenever (installed = false) do
    let existing ← Files.inspect
      (·.readFile "authority.json" maxWorkspacePublicationAuthorityBytes)
    require (existing = bytes)
      (binding "workspace publication identity already has different authority")

def originEvent (now : ℕ) (authority : WorkspacePublicationAuthority) :
    WorkspacePublicationEvent where
  schema := workspacePublicationEventSchema
  publicationId := authority.publicationId
  publicationAuthorityDigest := authority.authorityDigest
  sequence := 0
  previousEventHash := none
  status := .preparedAll
  completed := []
  activeAlias := none
  lastErrorCode := none
  updatedUnixMs := now
  eventHash := ""

/-- Resolving in the directory of the publication; `fresh` says whether the prepared workspace is
still the one that was prepared. -/
def resolveIn (now : ℕ) (authority : WorkspacePublicationAuthority)
    (fresh : Except ClewError Unit) : Files.Steps WorkspacePublicationProjection := do
  let present ← Files.fileExists "authority.json"
  if present then
    let existing ← Files.inspect loadAuthority
    require (existing = authority)
      (binding "workspace publication identity already has different authority")
    let current ← Files.inspect (loadEventChain existing)
    return project existing current
  else
    lift fresh
    persistAuthority authority
    let ledger ← Files.fileExists "ledger.jsonl"
    whenever (ledger = false) (appendEvent (originEvent now authority))
    let current ← Files.inspect (loadEventChain authority)
    return project authority current

/-- The prepared workspaces, as they can be loaded at the time of a call. -/
structure Prepared where
  /-- `load_retained_after_workspace`, by workspace, preparation, prepared workspace and digest. -/
  retained : String → String → String → String → Except ClewError AfterWorkspace
  /-- `load_bound_after_workspace`, of which only the outcome is used. -/
  bound : String → String → String → String → Except ClewError Unit

def resolve (now : ℕ) (prepared : Prepared) (workspaceId : String) (source : Bytes) :
    Program FileTree ClewError WorkspacePublicationProjection := do
  let input ← lift (parseInput source)
  let after ← lift (prepared.retained workspaceId input.preparationId input.afterWorkspaceId
    input.afterWorkspaceAuthorityDigest)
  let authority ← lift (buildAuthority after input)
  let path ← lift (publicationDirectory workspaceId authority.publicationId)
  FileTree.within path (resolveIn now authority (prepared.bound workspaceId
    authority.preparationId authority.afterWorkspaceId authority.afterWorkspaceAuthorityDigest))

end Codeclew.Publication
