import Codeclew.Names

/-!
# Missions

The records of a mission: what is to be changed, the members that take part, and the events in which
the state of their work is bound to it.
-/

namespace Codeclew.Mission

open Json

def changeSpecSchema : String := "codeclew-change-spec/1.0"
def missionIdentitySchema : String := "codeclew-mission-identity/1.0"
def missionEventSchema : String := "codeclew-mission-event/1.0"
def missionStatusSchema : String := "codeclew-mission-status/1.0"
def missionInspectionSchema : String := "codeclew-mission-inspection/1.0"
def missionRecordResultSchema : String := "codeclew-mission-record-result/1.0"
def maxChangeSpecBytes : ℕ := 256 * 1024
def maxMissionIdentityBytes : ℕ := 256 * 1024
def maxMissionEventBytes : ℕ := 128 * 1024
def maxMissionEvents : ℕ := 4096
def maxMissionMembers : ℕ := 8
def maxSpecItems : ℕ := 256
def maxItemTextBytes : ℕ := 16 * 1024
def maxSpecTextBytes : ℕ := 128 * 1024

/-! ## Change specifications -/

structure ChangeSpecItem where
  id : String
  text : String
  deriving DecidableEq, Repr

structure DocsPolicy where
  requiredRequirementIds : List String
  deriving DecidableEq, Repr

structure ChangeSpec where
  schema : String
  intent : String
  requirements : List ChangeSpecItem
  nonGoals : List ChangeSpecItem
  acceptanceCriteria : List ChangeSpecItem
  docsPolicy : DocsPolicy
  deriving DecidableEq, Repr

/-! ## Members -/

structure MissionMemberAuthority where
  sessionId : String
  sessionAuthorityDigest : String
  repositoryKey : String
  baseRevision : String
  targetRef : String
  targetOid : String
  runtimeKey : String
  runtimeMode : RuntimeMode
  language : SessionLanguage
  compilations : List String
  deriving DecidableEq, Repr

structure MissionIdentity where
  schema : String
  missionId : String
  identityDigest : String
  changeSpecDigest : String
  members : List MissionMemberAuthority
  createdUnixMs : ℕ
  deriving DecidableEq, Repr

/-! ## Events -/

inductive MissionEventKind where
  | opened
  | bound
  | closed
  deriving DecidableEq, Repr

structure ContextBinding where
  contextId : String
  authorityDigest : String
  evidenceDigest : String
  deriving DecidableEq, Repr

structure PlanBinding where
  planId : String
  authorityDigest : String
  sourceDigest : String
  deriving DecidableEq, Repr

structure RunBinding where
  runId : String
  authorityDigest : String
  status : RunStatus
  candidateDigest : Option String
  preparedAuthorityDigest : Option String
  validationDigest : String
  finalCommit : Option String
  deriving DecidableEq, Repr

structure MissionBinding where
  sessionId : String
  context : Option ContextBinding
  plan : Option PlanBinding
  run : Option RunBinding
  deriving DecidableEq, Repr

structure MissionEvent where
  schema : String
  missionId : String
  sequence : UInt64
  previousEventHash : Option String
  kind : MissionEventKind
  binding : Option MissionBinding
  eventHash : String
  createdUnixMs : ℕ
  deriving DecidableEq, Repr

/-! ## What a caller is told -/

inductive MissionLifecycle where
  | open
  | closed
  deriving DecidableEq, Repr

structure MissionStatus where
  schema : String
  missionId : String
  authorityDigest : String
  identityDigest : String
  changeSpecDigest : String
  eventHead : String
  eventCount : ℕ
  bindingCount : ℕ
  memberCount : ℕ
  lifecycle : MissionLifecycle
  readiness : String
  deriving DecidableEq, Repr

structure ChangeSpecSummary where
  requirementCount : ℕ
  nonGoalCount : ℕ
  acceptanceCriterionCount : ℕ
  documentedRequirementCount : ℕ
  deriving DecidableEq, Repr

structure MissionInspection where
  schema : String
  status : MissionStatus
  changeSpec : ChangeSpecSummary
  members : List MissionMemberAuthority
  latestBindings : List MissionBinding
  deriving DecidableEq, Repr

structure MissionRecordResult where
  schema : String
  appended : Bool
  status : MissionStatus
  deriving DecidableEq, Repr

/-! ## Wire formats -/

instance : Codec ChangeSpecItem where
  toJson x := ofFields [("id", some (toJson x.id)), ("text", some (toJson x.text))]
  ofJson? j := do
    guard (j.onlyFields ["id", "text"])
    let id ← field j "id"
    let text ← field j "text"
    return { id, text }
  levels := 2

instance : Codec DocsPolicy where
  toJson x := ofFields [("requiredRequirementIds", some (toJson x.requiredRequirementIds))]
  ofJson? j := do
    guard (j.onlyFields ["requiredRequirementIds"])
    let requiredRequirementIds ← defaultedField j "requiredRequirementIds"
    return { requiredRequirementIds }
  levels := 2

instance : Codec ChangeSpec where
  toJson x := ofFields [("acceptanceCriteria", some (toJson x.acceptanceCriteria)),
    ("docsPolicy", some (toJson x.docsPolicy)), ("intent", some (toJson x.intent)),
    ("nonGoals", some (toJson x.nonGoals)), ("requirements", some (toJson x.requirements)),
    ("schema", some (toJson x.schema))]
  ofJson? j := do
    guard (j.onlyFields ["acceptanceCriteria", "docsPolicy", "intent", "nonGoals", "requirements",
      "schema"])
    let acceptanceCriteria ← field j "acceptanceCriteria"
    let docsPolicy ← field j "docsPolicy"
    let intent ← field j "intent"
    let nonGoals ← defaultedField j "nonGoals"
    let requirements ← field j "requirements"
    let schema ← field j "schema"
    return { schema, intent, requirements, nonGoals, acceptanceCriteria, docsPolicy }
  levels := 4

instance : Codec MissionMemberAuthority where
  toJson x := ofFields [("baseRevision", some (toJson x.baseRevision)),
    ("compilations", some (toJson x.compilations)), ("language", some (toJson x.language)),
    ("repositoryKey", some (toJson x.repositoryKey)), ("runtimeKey", some (toJson x.runtimeKey)),
    ("runtimeMode", some (toJson x.runtimeMode)),
    ("sessionAuthorityDigest", some (toJson x.sessionAuthorityDigest)),
    ("sessionId", some (toJson x.sessionId)), ("targetOid", some (toJson x.targetOid)),
    ("targetRef", some (toJson x.targetRef))]
  ofJson? j := do
    guard (j.onlyFields ["baseRevision", "compilations", "language", "repositoryKey", "runtimeKey",
      "runtimeMode", "sessionAuthorityDigest", "sessionId", "targetOid", "targetRef"])
    let baseRevision ← field j "baseRevision"
    let compilations ← field j "compilations"
    let language ← field j "language"
    let repositoryKey ← field j "repositoryKey"
    let runtimeKey ← field j "runtimeKey"
    let runtimeMode ← field j "runtimeMode"
    let sessionAuthorityDigest ← field j "sessionAuthorityDigest"
    let sessionId ← field j "sessionId"
    let targetOid ← field j "targetOid"
    let targetRef ← field j "targetRef"
    return {
      sessionId, sessionAuthorityDigest, repositoryKey, baseRevision, targetRef, targetOid,
      runtimeKey, runtimeMode, language, compilations }
  levels := 2

instance : Format MissionIdentity where
  toJson x := ofFields [("changeSpecDigest", some (toJson x.changeSpecDigest)),
    ("createdUnixMs", some (.num x.createdUnixMs)),
    ("identityDigest", some (toJson x.identityDigest)), ("members", some (toJson x.members)),
    ("missionId", some (toJson x.missionId)), ("schema", some (toJson x.schema))]
  ofJson? j := do
    guard (j.onlyFields ["changeSpecDigest", "createdUnixMs", "identityDigest", "members",
      "missionId", "schema"])
    let changeSpecDigest ← field j "changeSpecDigest"
    let createdUnixMs ← (j.get? "createdUnixMs").bind asU128?
    let identityDigest ← field j "identityDigest"
    let members ← field j "members"
    let missionId ← field j "missionId"
    let schema ← field j "schema"
    return { schema, missionId, identityDigest, changeSpecDigest, members, createdUnixMs }
  fits x := decide (x.createdUnixMs < 2 ^ 64)
  levels := 4

def MissionEventKind.name : MissionEventKind → String
  | .opened => "OPENED"
  | .bound => "BOUND"
  | .closed => "CLOSED"

instance : Codec MissionEventKind := .ofNames [.opened, .bound, .closed] MissionEventKind.name
  fun a ↦ by cases a <;> rfl

instance : Codec ContextBinding where
  toJson x := ofFields [("authorityDigest", some (toJson x.authorityDigest)),
    ("contextId", some (toJson x.contextId)), ("evidenceDigest", some (toJson x.evidenceDigest))]
  ofJson? j := do
    guard (j.onlyFields ["authorityDigest", "contextId", "evidenceDigest"])
    let authorityDigest ← field j "authorityDigest"
    let contextId ← field j "contextId"
    let evidenceDigest ← field j "evidenceDigest"
    return { contextId, authorityDigest, evidenceDigest }
  levels := 2

instance : Codec PlanBinding where
  toJson x := ofFields [("authorityDigest", some (toJson x.authorityDigest)),
    ("planId", some (toJson x.planId)), ("sourceDigest", some (toJson x.sourceDigest))]
  ofJson? j := do
    guard (j.onlyFields ["authorityDigest", "planId", "sourceDigest"])
    let authorityDigest ← field j "authorityDigest"
    let planId ← field j "planId"
    let sourceDigest ← field j "sourceDigest"
    return { planId, authorityDigest, sourceDigest }
  levels := 2

instance : Codec RunBinding where
  toJson x := ofFields [("authorityDigest", some (toJson x.authorityDigest)),
    ("candidateDigest", some (optionToJson x.candidateDigest)),
    ("finalCommit", some (optionToJson x.finalCommit)),
    ("preparedAuthorityDigest", some (optionToJson x.preparedAuthorityDigest)),
    ("runId", some (toJson x.runId)), ("status", some (toJson x.status)),
    ("validationDigest", some (toJson x.validationDigest))]
  ofJson? j := do
    guard (j.onlyFields ["authorityDigest", "candidateDigest", "finalCommit",
      "preparedAuthorityDigest", "runId", "status", "validationDigest"])
    let authorityDigest ← field j "authorityDigest"
    let candidateDigest ← optionalField j "candidateDigest"
    let finalCommit ← optionalField j "finalCommit"
    let preparedAuthorityDigest ← optionalField j "preparedAuthorityDigest"
    let runId ← field j "runId"
    let status ← field j "status"
    let validationDigest ← field j "validationDigest"
    return {
      runId, authorityDigest, status, candidateDigest, preparedAuthorityDigest, validationDigest,
      finalCommit }
  levels := 2

instance : Codec MissionBinding where
  toJson x := ofFields [("context", some (optionToJson x.context)),
    ("plan", some (optionToJson x.plan)), ("run", some (optionToJson x.run)),
    ("sessionId", some (toJson x.sessionId))]
  ofJson? j := do
    guard (j.onlyFields ["context", "plan", "run", "sessionId"])
    let context ← optionalField j "context"
    let plan ← optionalField j "plan"
    let run ← optionalField j "run"
    let sessionId ← field j "sessionId"
    return { sessionId, context, plan, run }
  levels := 3

instance : Format MissionEvent where
  toJson x := ofFields [("binding", some (optionToJson x.binding)),
    ("createdUnixMs", some (.num x.createdUnixMs)), ("eventHash", some (toJson x.eventHash)),
    ("kind", some (toJson x.kind)), ("missionId", some (toJson x.missionId)),
    ("previousEventHash", some (optionToJson x.previousEventHash)),
    ("schema", some (toJson x.schema)), ("sequence", some (toJson x.sequence))]
  ofJson? j := do
    guard (j.onlyFields ["binding", "createdUnixMs", "eventHash", "kind", "missionId",
      "previousEventHash", "schema", "sequence"])
    let binding ← optionalField j "binding"
    let createdUnixMs ← (j.get? "createdUnixMs").bind asU128?
    let eventHash ← field j "eventHash"
    let kind ← field j "kind"
    let missionId ← field j "missionId"
    let previousEventHash ← optionalField j "previousEventHash"
    let schema ← field j "schema"
    let sequence ← field j "sequence"
    return {
      schema, missionId, sequence, previousEventHash, kind, binding, eventHash, createdUnixMs }
  fits x := decide (x.createdUnixMs < 2 ^ 64)
  levels := 4

def MissionLifecycle.name : MissionLifecycle → String
  | .open => "OPEN"
  | .closed => "CLOSED"

end Codeclew.Mission
