import Codeclew.Names

/-!
# Workspace publications

The records of a workspace publication: the request, the authority that seals the order of the
members before the first of them is published, the events of the ledger, and what a caller is told.
-/

namespace Codeclew.Publication

open Json

def workspacePublishInputSchema : String := "codeclew-workspace-publish-input/1.0"
def workspacePublicationAuthoritySchema : String := "codeclew-workspace-publication-authority/1.0"
def workspacePublicationEventSchema : String := "codeclew-workspace-publication-event/1.0"
def workspacePublicationProjectionSchema : String :=
  "codeclew-workspace-publication-projection/1.0"
def maxWorkspacePublishInputBytes : ℕ := 256 * 1024
def maxWorkspacePublicationAuthorityBytes : ℕ := 512 * 1024
def maxWorkspacePublicationLedgerBytes : ℕ := 4 * 1024 * 1024

/-! ## Requests -/

structure WorkspacePublishInputMember where
  alias_ : String
  preparedAuthorityDigest : String
  allowConditional : Bool
  acknowledgeObligations : List String
  deriving DecidableEq, Repr

structure WorkspacePublishInput where
  schema : String
  preparationId : String
  afterWorkspaceId : String
  afterWorkspaceAuthorityDigest : String
  policy : String
  members : List WorkspacePublishInputMember
  deriving DecidableEq, Repr

/-- What a publication reads of a prepared member. -/
structure AfterWorkspaceMember where
  alias_ : String
  sessionId : String
  runId : String
  runStatus : RunStatus
  targetRef : String
  beforeOid : String
  candidateOid : String
  preparedAuthorityDigest : String
  obligationCount : ℕ
  deriving DecidableEq, Repr

/-- What a publication reads of a prepared workspace. -/
structure AfterWorkspace where
  afterWorkspaceId : String
  authorityDigest : String
  preparationId : String
  workspaceId : String
  workspaceAuthorityDigest : String
  workspaceSemanticDigest : String
  members : List AfterWorkspaceMember
  deriving DecidableEq, Repr

/-! ## Authorities -/

structure WorkspacePublicationMemberAuthority where
  alias_ : String
  sessionId : String
  runId : String
  targetRef : String
  beforeOid : String
  candidateOid : String
  preparedAuthorityDigest : String
  allowConditional : Bool
  acknowledgeObligations : List String
  deriving DecidableEq, Repr

structure WorkspacePublicationAuthority where
  schema : String
  publicationId : String
  authorityDigest : String
  workspaceId : String
  workspaceAuthorityDigest : String
  workspaceSemanticDigest : String
  preparationId : String
  afterWorkspaceId : String
  afterWorkspaceAuthorityDigest : String
  policy : String
  members : List WorkspacePublicationMemberAuthority
  deriving DecidableEq, Repr

/-! ## Events -/

inductive WorkspacePublicationStatus where
  | preparedAll
  | publishing
  | partiallyPublished
  | recoveryRequired
  | publishedAll
  deriving DecidableEq, Repr

structure PublishedWorkspaceMember where
  alias_ : String
  candidateOid : String
  deriving DecidableEq, Repr

structure WorkspacePublicationEvent where
  schema : String
  publicationId : String
  publicationAuthorityDigest : String
  sequence : UInt64
  previousEventHash : Option String
  status : WorkspacePublicationStatus
  completed : List PublishedWorkspaceMember
  activeAlias : Option String
  lastErrorCode : Option ErrorCode
  updatedUnixMs : ℕ
  eventHash : String
  deriving DecidableEq, Repr

structure WorkspacePublicationProjection where
  schema : String
  publicationId : String
  authorityDigest : String
  workspaceId : String
  afterWorkspaceId : String
  policy : String
  status : WorkspacePublicationStatus
  completed : List PublishedWorkspaceMember
  activeAlias : Option String
  lastErrorCode : Option ErrorCode
  remainingAliases : List String
  sequence : UInt64
  ledgerHead : String
  deriving DecidableEq, Repr

/-! ## Wire formats -/

instance : Codec WorkspacePublishInputMember where
  toJson x := ofFields [("acknowledgeObligations", some (toJson x.acknowledgeObligations)),
    ("alias", some (toJson x.alias_)), ("allowConditional", some (toJson x.allowConditional)),
    ("preparedAuthorityDigest", some (toJson x.preparedAuthorityDigest))]
  ofJson? j := do
    guard (j.onlyFields ["acknowledgeObligations", "alias", "allowConditional",
      "preparedAuthorityDigest"])
    let acknowledgeObligations ← field j "acknowledgeObligations"
    let alias_ ← field j "alias"
    let allowConditional ← field j "allowConditional"
    let preparedAuthorityDigest ← field j "preparedAuthorityDigest"
    return { alias_, preparedAuthorityDigest, allowConditional, acknowledgeObligations }
  levels := 2

instance : Codec WorkspacePublishInput where
  toJson x := ofFields [
    ("afterWorkspaceAuthorityDigest", some (toJson x.afterWorkspaceAuthorityDigest)),
    ("afterWorkspaceId", some (toJson x.afterWorkspaceId)), ("members", some (toJson x.members)),
    ("policy", some (toJson x.policy)), ("preparationId", some (toJson x.preparationId)),
    ("schema", some (toJson x.schema))]
  ofJson? j := do
    guard (j.onlyFields ["afterWorkspaceAuthorityDigest", "afterWorkspaceId", "members", "policy",
      "preparationId", "schema"])
    let afterWorkspaceAuthorityDigest ← field j "afterWorkspaceAuthorityDigest"
    let afterWorkspaceId ← field j "afterWorkspaceId"
    let members ← field j "members"
    let policy ← field j "policy"
    let preparationId ← field j "preparationId"
    let schema ← field j "schema"
    return {
      schema, preparationId, afterWorkspaceId, afterWorkspaceAuthorityDigest, policy, members }
  levels := 4

instance : Codec WorkspacePublicationMemberAuthority where
  toJson x := ofFields [("acknowledgeObligations", some (toJson x.acknowledgeObligations)),
    ("alias", some (toJson x.alias_)), ("allowConditional", some (toJson x.allowConditional)),
    ("beforeOid", some (toJson x.beforeOid)), ("candidateOid", some (toJson x.candidateOid)),
    ("preparedAuthorityDigest", some (toJson x.preparedAuthorityDigest)),
    ("runId", some (toJson x.runId)), ("sessionId", some (toJson x.sessionId)),
    ("targetRef", some (toJson x.targetRef))]
  ofJson? j := do
    guard (j.onlyFields ["acknowledgeObligations", "alias", "allowConditional", "beforeOid",
      "candidateOid", "preparedAuthorityDigest", "runId", "sessionId", "targetRef"])
    let acknowledgeObligations ← field j "acknowledgeObligations"
    let alias_ ← field j "alias"
    let allowConditional ← field j "allowConditional"
    let beforeOid ← field j "beforeOid"
    let candidateOid ← field j "candidateOid"
    let preparedAuthorityDigest ← field j "preparedAuthorityDigest"
    let runId ← field j "runId"
    let sessionId ← field j "sessionId"
    let targetRef ← field j "targetRef"
    return {
      alias_, sessionId, runId, targetRef, beforeOid, candidateOid, preparedAuthorityDigest,
      allowConditional, acknowledgeObligations }
  levels := 2

instance : Codec WorkspacePublicationAuthority where
  toJson x := ofFields [
    ("afterWorkspaceAuthorityDigest", some (toJson x.afterWorkspaceAuthorityDigest)),
    ("afterWorkspaceId", some (toJson x.afterWorkspaceId)),
    ("authorityDigest", some (toJson x.authorityDigest)), ("members", some (toJson x.members)),
    ("policy", some (toJson x.policy)), ("preparationId", some (toJson x.preparationId)),
    ("publicationId", some (toJson x.publicationId)), ("schema", some (toJson x.schema)),
    ("workspaceAuthorityDigest", some (toJson x.workspaceAuthorityDigest)),
    ("workspaceId", some (toJson x.workspaceId)),
    ("workspaceSemanticDigest", some (toJson x.workspaceSemanticDigest))]
  ofJson? j := do
    guard (j.onlyFields ["afterWorkspaceAuthorityDigest", "afterWorkspaceId", "authorityDigest",
      "members", "policy", "preparationId", "publicationId", "schema", "workspaceAuthorityDigest",
      "workspaceId", "workspaceSemanticDigest"])
    let afterWorkspaceAuthorityDigest ← field j "afterWorkspaceAuthorityDigest"
    let afterWorkspaceId ← field j "afterWorkspaceId"
    let authorityDigest ← field j "authorityDigest"
    let members ← field j "members"
    let policy ← field j "policy"
    let preparationId ← field j "preparationId"
    let publicationId ← field j "publicationId"
    let schema ← field j "schema"
    let workspaceAuthorityDigest ← field j "workspaceAuthorityDigest"
    let workspaceId ← field j "workspaceId"
    let workspaceSemanticDigest ← field j "workspaceSemanticDigest"
    return {
      schema, publicationId, authorityDigest, workspaceId, workspaceAuthorityDigest,
      workspaceSemanticDigest, preparationId, afterWorkspaceId, afterWorkspaceAuthorityDigest,
      policy, members }
  levels := 4

def WorkspacePublicationStatus.name : WorkspacePublicationStatus → String
  | .preparedAll => "PREPARED_ALL"
  | .publishing => "PUBLISHING"
  | .partiallyPublished => "PARTIALLY_PUBLISHED"
  | .recoveryRequired => "RECOVERY_REQUIRED"
  | .publishedAll => "PUBLISHED_ALL"

instance : Codec WorkspacePublicationStatus :=
  .ofNames [.preparedAll, .publishing, .partiallyPublished, .recoveryRequired, .publishedAll]
    WorkspacePublicationStatus.name fun a ↦ by cases a <;> rfl

instance : Codec PublishedWorkspaceMember where
  toJson x := ofFields [("alias", some (toJson x.alias_)),
    ("candidateOid", some (toJson x.candidateOid))]
  ofJson? j := do
    guard (j.onlyFields ["alias", "candidateOid"])
    let alias_ ← field j "alias"
    let candidateOid ← field j "candidateOid"
    return { alias_, candidateOid }
  levels := 2

instance : Format WorkspacePublicationEvent where
  toJson x := ofFields [("activeAlias", x.activeAlias.map toJson),
    ("completed", some (toJson x.completed)), ("eventHash", some (toJson x.eventHash)),
    ("lastErrorCode", x.lastErrorCode.map toJson),
    ("previousEventHash", x.previousEventHash.map toJson),
    ("publicationAuthorityDigest", some (toJson x.publicationAuthorityDigest)),
    ("publicationId", some (toJson x.publicationId)), ("schema", some (toJson x.schema)),
    ("sequence", some (toJson x.sequence)), ("status", some (toJson x.status)),
    ("updatedUnixMs", some (.num x.updatedUnixMs))]
  ofJson? j := do
    guard (j.onlyFields ["activeAlias", "completed", "eventHash", "lastErrorCode",
      "previousEventHash", "publicationAuthorityDigest", "publicationId", "schema", "sequence",
      "status", "updatedUnixMs"])
    let activeAlias ← optionalField j "activeAlias"
    let completed ← field j "completed"
    let eventHash ← field j "eventHash"
    let lastErrorCode ← optionalField j "lastErrorCode"
    let previousEventHash ← optionalField j "previousEventHash"
    let publicationAuthorityDigest ← field j "publicationAuthorityDigest"
    let publicationId ← field j "publicationId"
    let schema ← field j "schema"
    let sequence ← field j "sequence"
    let status ← field j "status"
    let updatedUnixMs ← (j.get? "updatedUnixMs").bind asU128?
    return {
      schema, publicationId, publicationAuthorityDigest, sequence, previousEventHash, status,
      completed, activeAlias, lastErrorCode, updatedUnixMs, eventHash }
  fits x := decide (x.updatedUnixMs < 2 ^ 64)
  levels := 4

end Codeclew.Publication
