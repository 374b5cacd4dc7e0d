import Codeclew.Cas.Reference
import Codeclew.Files
import Codeclew.Mission.Types

/-!
# The ledger of a mission

Loading a mission, recording a binding, closing, and the inspection. Every event is a file of its
own, named by its place in the sequence.

The sessions, and the contexts, plans and runs that belong to them, are found elsewhere: what is
loaded of them at the time of a call is an argument of the call, and so is the clock.
-/

namespace Codeclew.Mission

open Json Program

/-- `value.trim() == value`. -/
def isTrimmed (value : String) : Bool :=
  !(chars value).head?.any isWhitespace && !(chars value).getLast?.any isWhitespace

/-! ## Change specifications -/

section ChangeSpec

variable [UnicodeNormalization]

mutual

def jsonStringsAreNfc (depth : ℕ) : Json → Bool
  | .str value => depth ≤ 64 && UnicodeNormalization.isNfc value
  | .arr values => depth ≤ 64 && elementsAreNfc (depth + 1) values
  | .obj values => depth ≤ 64 && membersAreNfc (depth + 1) values
  | _ => depth ≤ 64

def elementsAreNfc (depth : ℕ) : List Json → Bool
  | [] => true
  | value :: values => jsonStringsAreNfc depth value && elementsAreNfc depth values

def membersAreNfc (depth : ℕ) : List (String × Json) → Bool
  | [] => true
  | (key, value) :: values =>
    UnicodeNormalization.isNfc key && jsonStringsAreNfc depth value && membersAreNfc depth values

end

def validateText (label value : String) : Except ClewError Unit :=
  if ¬isTrimmed value ∨ byteLength value = 0 ∨ byteLength value > maxItemTextBytes ∨
      Char.ofNat 0 ∈ chars value ∨ ¬UnicodeNormalization.isNfc value then
    .error (invalid (label ++ " must be trimmed non-empty NFC text no larger than 16 KiB"))
  else .ok ()

def validStableId (value : String) : Bool :=
  byteLength value ≠ 0 && byteLength value ≤ 64 &&
    (chars value).all fun c ↦ c.isAlphanum || c = '-' || c = '_' || c = '.'

/-- The items in turn: `ids` are those already seen, `textBytes` the length of their texts. -/
def validateItems : List ChangeSpecItem → List String → ℕ → Except ClewError ℕ
  | [], _, textBytes => .ok textBytes
  | item :: items, ids, textBytes =>
    if ¬validStableId item.id ∨ item.id ∈ ids then
      .error (invalid "ChangeSpec item IDs must be unique stable identifiers")
    else do
      validateText "ChangeSpec item text" item.text
      validateItems items (item.id :: ids) (textBytes + byteLength item.text)

def validateDocumented (requirementIds : List String) :
    List String → List String → Except ClewError Unit
  | [], _ => .ok ()
  | id :: ids, documented =>
    if id ∉ requirementIds ∨ id ∈ documented then
      .error (invalid "docsPolicy requirement IDs must be unique bound requirements")
    else validateDocumented requirementIds ids (id :: documented)

def validateChangeSpec (spec : ChangeSpec) : Except ClewError Unit := do
  if spec.schema ≠ changeSpecSchema then
    throw (invalid "ChangeSpec schema is unsupported")
  validateText "ChangeSpec intent" spec.intent
  if spec.requirements = [] ∨ spec.acceptanceCriteria = [] then
    throw (invalid "ChangeSpec requires at least one requirement and acceptance criterion")
  if spec.requirements.length > maxSpecItems ∨ spec.nonGoals.length > maxSpecItems ∨
      spec.acceptanceCriteria.length > maxSpecItems then
    throw (invalid "ChangeSpec item count exceeds 256 per section")
  let textBytes ← validateItems (spec.requirements ++ spec.nonGoals ++ spec.acceptanceCriteria) []
    (byteLength spec.intent)
  if textBytes > maxSpecTextBytes then
    throw (invalid "ChangeSpec text exceeds 128 KiB")
  validateDocumented (spec.requirements.map (·.id)) spec.docsPolicy.requiredRequirementIds []

/-- Keys that occur twice are refused here by the source; a mission that is loaded compares the
bytes with the canonical ones afterwards, which refuses them too. -/
def parseChangeSpec (source : Bytes) : Except ClewError ChangeSpec := do
  if source = [] ∨ source.length > maxChangeSpecBytes then
    throw (invalid "ChangeSpec is empty or exceeds 256 KiB")
  match ofBytes source with
  | none => throw (invalid "ChangeSpec JSON is invalid")
  | some value =>
    if ¬jsonStringsAreNfc 0 value then
      throw (invalid "ChangeSpec keys and strings must use NFC Unicode")
    match ofJson? value with
    | none => throw (invalid "ChangeSpec schema is invalid")
    | some spec =>
      validateChangeSpec spec
      return spec

end ChangeSpec

/-! ## Members -/

/-- The members in order, if each is complete and no session takes part twice. -/
def validateMembers (members : List MissionMemberAuthority) :
    Except ClewError (List MissionMemberAuthority) :=
  if members = [] ∨ members.length > maxMissionMembers then
    .error (invalid "mission member count must be between 1 and 8")
  else
    let members := members.mergeSort fun left right ↦ left.sessionId ≤ right.sessionId
    if ¬members.IsChain (fun left right ↦ left.sessionId ≠ right.sessionId) ∨
        members.any (fun member ↦ member.sessionId = "" || member.sessionAuthorityDigest = "" ||
          member.compilations = []) then
      .error (invalid "mission member authority is invalid")
    else .ok members

/-! ## Loading -/

/-- The files of one mission. -/
structure MissionFiles where
  root : Directory
  events : Directory

structure LoadedMission where
  identity : MissionIdentity
  spec : ChangeSpec
  events : List MissionEvent
  status : MissionStatus

/-- The name of the file of an event. -/
def eventName (sequence : ℕ) : String := Cas.pad20 sequence ++ ".json"

section Load

variable [Sha256]

/-- `canonical::hash` of a value the `json!` macro makes; a time of more than 64 bits ends the
program there. -/
def hashAt (unixMs : ℕ) (value : Json) : Except ClewError String :=
  if unixMs < 2 ^ 64 then .ok (hashBytes value.bytes) else .error (internal "number out of range")

def identityDigest (identity : MissionIdentity) : Except ClewError String :=
  hashAt identity.createdUnixMs (.obj [
    ("changeSpecDigest", toJson identity.changeSpecDigest),
    ("createdUnixMs", .num identity.createdUnixMs),
    ("members", toJson identity.members),
    ("missionId", toJson identity.missionId),
    ("schema", .str missionIdentitySchema)])

def eventHash (missionId : String) (sequence : UInt64) (previousEventHash : Option String)
    (kind : MissionEventKind) (binding : Option MissionBinding) (createdUnixMs : ℕ) :
    Except ClewError String :=
  hashAt createdUnixMs (.obj [
    ("binding", optionToJson binding),
    ("createdUnixMs", .num createdUnixMs),
    ("kind", toJson kind),
    ("missionId", .str missionId),
    ("previousEventHash", optionToJson previousEventHash),
    ("schema", .str missionEventSchema),
    ("sequence", toJson sequence)])

/-- Whether an event may stand after those before it. -/
def validateEvent (missionId : String) (prior : List MissionEvent) (event : MissionEvent) :
    Except ClewError Unit := do
  let previous := prior.getLast?.map (·.eventHash)
  let hash ← eventHash missionId event.sequence previous event.kind event.binding
    event.createdUnixMs
  if event.schema ≠ missionEventSchema ∨ event.missionId ≠ missionId ∨
      event.sequence.toNat ≠ prior.length ∨ event.previousEventHash ≠ previous ∨
      event.eventHash ≠ hash ∨
      (prior = [] ∧ event.kind ≠ .opened) ∨ (prior ≠ [] ∧ event.kind = .opened) ∨
      (event.kind = .bound ∧ event.binding = none) ∨
      (event.kind ≠ .bound ∧ event.binding ≠ none) ∨
      prior.getLast?.any (·.kind = .closed) then
    throw (invalid "mission event authority is invalid")

/-- The events of the files with these names, after those already read. -/
def readEvents (missionId : String) (directory : Directory) :
    List String → List MissionEvent → Except ClewError (List MissionEvent)
  | [], prior => .ok prior
  | name :: names, prior =>
    if name ≠ eventName prior.length then
      .error (invalid "mission event ledger sequence is invalid")
    else do
      let bytes ← directory.readFile name maxMissionEventBytes
      match fromSlice bytes with
      | none => throw (invalid "mission event is truncated or invalid")
      | some event =>
        let written ← canonical event
        if written ≠ bytes then throw (invalid "mission event bytes are not canonical")
        validateEvent missionId prior event
        readEvents missionId directory names (prior ++ [event])

def loadEvents (missionId : String) (directory : Directory) :
    Except ClewError (List MissionEvent) :=
  let names := directory.entries.filter fun name ↦ (stripPrefix ".tmp-" name).isNone
  if names = [] ∨ names.length > maxMissionEvents then
    .error (invalid "mission event ledger is empty or exceeds its limit")
  else readEvents missionId directory names []

def deriveStatus (identity : MissionIdentity) (events : List MissionEvent) :
    Except ClewError MissionStatus :=
  match events.getLast? with
  | none => .error (invalid "mission event ledger is empty")
  | some last =>
    let lifecycle := if last.kind = .closed then MissionLifecycle.closed else .open
    let bindingCount := (events.filter (·.kind = .bound)).length
    let readiness := match lifecycle, bindingCount with
      | .open, 0 => "OPEN_UNLINKED"
      | .open, _ => "OPEN_RECORDED"
      | .closed, 0 => "CLOSED_UNLINKED"
      | .closed, _ => "CLOSED_RECORDED"
    .ok {
      schema := missionStatusSchema
      missionId := identity.missionId
      authorityDigest := hashBytes (Json.obj [
        ("eventCount", .num events.length),
        ("eventHead", toJson last.eventHash),
        ("identityDigest", toJson identity.identityDigest),
        ("lifecycle", .str lifecycle.name),
        ("missionId", toJson identity.missionId),
        ("schema", .str missionStatusSchema)]).bytes
      identityDigest := identity.identityDigest
      changeSpecDigest := identity.changeSpecDigest
      eventHead := last.eventHash
      eventCount := events.length
      bindingCount
      memberCount := identity.members.length
      lifecycle
      readiness }

def loadIdentity (missionId : String) (root : Directory) : Except ClewError MissionIdentity := do
  match root.readFile "identity.json" maxMissionIdentityBytes with
  | .error _ => throw (invalid "managed JSON object is missing or exceeds its limit")
  | .ok bytes =>
    match fromSlice bytes with
    | none => throw (invalid "managed JSON object is invalid")
    | some (identity : MissionIdentity) =>
      let digest ← identityDigest identity
      if identity.schema ≠ missionIdentitySchema ∨ identity.missionId ≠ missionId ∨
          identity.identityDigest ≠ digest then
        throw (invalid "mission identity authority is invalid")
      let members ← validateMembers identity.members
      if members ≠ identity.members then
        throw (invalid "mission members are not in canonical order")
      return identity

variable [UnicodeNormalization]

def loadSpec (changeSpecDigest : String) (root : Directory) : Except ClewError ChangeSpec := do
  match root.readFile "change-spec.json" maxChangeSpecBytes with
  | .error _ => throw (invalid "mission ChangeSpec is missing or exceeds its limit")
  | .ok source =>
    let spec ← parseChangeSpec source
    if encode spec ≠ source ∨ hashBytes source ≠ changeSpecDigest then
      throw (invalid "mission ChangeSpec authority changed")
    return spec

/-- `load_with_state_unlocked`. -/
def load (missionId : String) (files : MissionFiles) : Except ClewError LoadedMission := do
  let identity ← loadIdentity missionId files.root
  let spec ← loadSpec identity.changeSpecDigest files.root
  let events ← loadEvents missionId files.events
  let status ← deriveStatus identity events
  return ⟨identity, spec, events, status⟩

end Load

/-! ## Inspecting -/

/-- The last binding of each session. -/
def latest (events : List MissionEvent) : Std.ExtTreeMap String MissionBinding compare :=
  events.foldl (fun latest event ↦
    match event.binding with
    | some binding => latest.insert binding.sessionId binding
    | none => latest) ∅

def inspection (loaded : LoadedMission) : MissionInspection where
  schema := missionInspectionSchema
  status := loaded.status
  changeSpec := {
    requirementCount := loaded.spec.requirements.length
    nonGoalCount := loaded.spec.nonGoals.length
    acceptanceCriterionCount := loaded.spec.acceptanceCriteria.length
    documentedRequirementCount := loaded.spec.docsPolicy.requiredRequirementIds.length }
  members := loaded.identity.members
  latestBindings := (latest loaded.events).toList.map Prod.snd

/-! ## Bindings -/

/-- What a mission reads of a session. -/
structure SessionAuthority where
  sessionId : String
  authorityDigest : String
  repositoryKey : String
  baseRevision : String
  targetRef : String
  targetOid : String
  runtimeKey : String
  runtimeMode : RuntimeMode
  language : SessionLanguage
  compilations : List String
  deriving DecidableEq

/-- What a mission reads of a context, and the hash of the whole. -/
structure ContextObject where
  contextId : String
  evidenceDigest : String
  digest : String

/-- What a mission reads of a plan, and the hash of the whole. -/
structure PlanObject where
  planId : String
  contextId : String
  sourceDigest : String
  digest : String

/-- What a mission reads of a run, and the hash of the whole. -/
structure RunRecord where
  runId : String
  sessionId : String
  contextId : String
  planId : String
  status : RunStatus
  candidateSnapshot : Option String
  preparedAuthorityDigest : Option String
  finalCommit : Option String
  publicationBlocked : Bool
  failure : Option Json
  digest : String

/-- The sessions as they can be loaded at the time of a call. -/
structure Sessions where
  load : String → Except ClewError SessionAuthority
  /-- `load_for_cleanup`, which a newer runtime may use too. -/
  loadForCleanup : String → Except ClewError SessionAuthority
  /-- `open_admission` and the status of `freshness_under_admission`. -/
  freshness : SessionAuthority → Except ClewError String
  loadContext : SessionAuthority → String → Except ClewError ContextObject
  loadPlan : SessionAuthority → String → Except ClewError PlanObject
  loadRun : String → Except ClewError RunRecord

def memberFromSession (session : SessionAuthority) : MissionMemberAuthority where
  sessionId := session.sessionId
  sessionAuthorityDigest := session.authorityDigest
  repositoryKey := session.repositoryKey
  baseRevision := session.baseRevision
  targetRef := session.targetRef
  targetOid := session.targetOid
  runtimeKey := session.runtimeKey
  runtimeMode := session.runtimeMode
  language := session.language
  compilations := session.compilations

def requireSameMember (expected : MissionMemberAuthority) (actual : SessionAuthority) :
    Except ClewError Unit :=
  if expected = memberFromSession actual then .ok ()
  else .error ⟨.preconditionFailed, "mission member authority changed"⟩

def requireFresh (sessions : Sessions) (session : SessionAuthority) : Except ClewError Unit := do
  let status ← sessions.freshness session
  if status ≠ "FRESH" then
    throw ⟨.preconditionFailed,
      "mission member " ++ session.sessionId ++ " is not fresh: " ++ status⟩

def contextBinding (context : ContextObject) : ContextBinding :=
  ⟨context.contextId, context.digest, context.evidenceDigest⟩

def planBinding (plan : PlanObject) : PlanBinding := ⟨plan.planId, plan.digest, plan.sourceDigest⟩

def runBinding [Sha256] (run : RunRecord) : RunBinding where
  runId := run.runId
  authorityDigest := run.digest
  status := run.status
  candidateDigest := run.candidateSnapshot
  preparedAuthorityDigest := run.preparedAuthorityDigest
  validationDigest := hashBytes (Json.obj [
    ("failure", run.failure.getD .null),
    ("publicationBlocked", toJson run.publicationBlocked),
    ("runAuthorityDigest", toJson run.digest),
    ("schema", .str "codeclew-mission-run-validation/1.0"),
    ("status", toJson run.status)]).bytes
  finalCommit := run.finalCommit

/-- `map(f).transpose()`. -/
def traverse {α β : Type} (f : α → Except ClewError β) : Option α → Except ClewError (Option β)
  | none => .ok none
  | some a => (f a).map some

def buildBinding [Sha256] (sessions : Sessions) (session : SessionAuthority)
    (contextId planId runId : Option String) : Except ClewError MissionBinding := do
  let context ← traverse (sessions.loadContext session) contextId
  let plan ← traverse (sessions.loadPlan session) planId
  if context.any fun context ↦ plan.any fun plan ↦ plan.contextId ≠ context.contextId then
    throw (invalid "mission plan is not bound to the requested context")
  else
    let run ← traverse sessions.loadRun runId
    match run, context, plan with
    | some _, _, none => throw (invalid "mission run requires a bound plan")
    | some _, none, some _ => throw (invalid "mission run requires a bound context")
    | some run, some context, some plan =>
      if run.sessionId ≠ session.sessionId ∨ run.contextId ≠ context.contextId ∨
          run.planId ≠ plan.planId then
        throw (invalid "mission run is foreign to the requested session/context/plan")
      else
        return ⟨session.sessionId, some (contextBinding context), some (planBinding plan),
          some (runBinding run)⟩
    | none, context, plan =>
      return ⟨session.sessionId, context.map contextBinding, plan.map planBinding, none⟩

/-! ## Recording -/

/-- `write_managed_json_create_new`: the file is there before its contents are known. -/
def writeManagedJsonCreateNew {α : Type} [Format α] (name : String) (value : α) :
    Files.Steps Unit := do
  Files.createFile name
  let bytes ← lift (canonical value)
  Files.appendBytes name bytes

/-- Whether a binding has been recorded at some time. -/
def isRecorded (events : List MissionEvent) (binding : MissionBinding) : Bool :=
  events.any fun event ↦ event.kind = .bound && event.binding = some binding

/-- Every member is there as it was, and fresh. -/
def requireLiveMembers (sessions : Sessions) (members : List MissionMemberAuthority) :
    Except ClewError Unit := do
  let live ← members.mapM fun member ↦ do
    let session ← sessions.loadForCleanup member.sessionId
    requireSameMember member session
    return session
  live.forM (requireFresh sessions)

variable [Sha256]

/-- The event that comes next. -/
def nextEvent (now : ℕ) (missionId : String) (events : List MissionEvent) (kind : MissionEventKind)
    (binding : Option MissionBinding) : Except ClewError MissionEvent :=
  if events.length ≥ maxMissionEvents then .error (invalid "mission event count exceeds 4096")
  else if (events = [] ∧ kind ≠ .opened) ∨ (events ≠ [] ∧ kind = .opened) ∨
      (kind = .bound ∧ binding = none) ∨ (kind ≠ .bound ∧ binding ≠ none) then
    .error (invalid "mission event transition is invalid")
  else if events.getLast?.any (·.kind = .closed) then
    .error ⟨.preconditionFailed, "closed mission cannot accept events"⟩
  else do
    let sequence := events.length.toUInt64
    let previousEventHash := events.getLast?.map (·.eventHash)
    let eventHash ← eventHash missionId sequence previousEventHash kind binding now
    return {
      schema := missionEventSchema, missionId, sequence, previousEventHash, kind, binding,
      eventHash, createdUnixMs := now }

def appendEvent (now : ℕ) (missionId : String) (events : List MissionEvent)
    (kind : MissionEventKind) (binding : Option MissionBinding) :
    Program MissionFiles ClewError MissionEvent := do
  let event ← lift (nextEvent now missionId events kind binding)
  (writeManagedJsonCreateNew (eventName events.length) event).zoom MissionFiles.events
    fun events files ↦ { files with events }
  return event

/-- The binding a call is to record. -/
def requestedBinding (sessions : Sessions) (sessionId : String)
    (contextId planId runId : Option String) (loaded : LoadedMission) :
    Except ClewError MissionBinding :=
  match loaded.identity.members.find? (·.sessionId = sessionId) with
  | none => .error (invalid "mission record session is not a bound member")
  | some member => do
    let session ← sessions.load sessionId
    requireSameMember member session
    requireFresh sessions session
    buildBinding sessions session contextId planId runId

variable [UnicodeNormalization]

def record (now : ℕ) (sessions : Sessions) (missionId sessionId : String)
    (contextId planId runId : Option String) :
    Program MissionFiles ClewError MissionRecordResult := do
  require (¬(contextId = none ∨ (planId = none ∧ runId ≠ none)))
    (invalid "mission record requires context; run additionally requires plan")
  let _ ← lift (managedIdComponent missionId "mission:")
  let loaded ← inspect (load missionId)
  require (loaded.status.lifecycle = .open) ⟨.preconditionFailed, "mission is closed"⟩
  let binding ← lift (requestedBinding sessions sessionId contextId planId runId loaded)
  if isRecorded loaded.events binding then
    return ⟨missionRecordResultSchema, false, loaded.status⟩
  else
    let _ ← appendEvent now missionId loaded.events .bound (some binding)
    let loaded ← inspect (load missionId)
    return ⟨missionRecordResultSchema, true, loaded.status⟩

def close (now : ℕ) (sessions : Sessions) (missionId : String) :
    Program MissionFiles ClewError MissionRecordResult := do
  let _ ← lift (managedIdComponent missionId "mission:")
  let loaded ← inspect (load missionId)
  if loaded.status.lifecycle = .closed then
    return ⟨missionRecordResultSchema, false, loaded.status⟩
  else
    lift (requireLiveMembers sessions loaded.identity.members)
    let _ ← appendEvent now missionId loaded.events .closed none
    let loaded ← inspect (load missionId)
    return ⟨missionRecordResultSchema, true, loaded.status⟩

end Codeclew.Mission
