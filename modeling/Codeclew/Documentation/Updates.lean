import Codeclew.Agent.Accounts
import Codeclew.Json.Size

/-!
# Updates of services

The coordinator of a documentation root takes events that name new revisions of services, each with
a sequence number, and keeps one target for each service. `enqueue` takes a batch of events. It
checks all of them before it writes anything, then writes a file for each event and at last the
targets.

Files are written as canonical JSON and read as YAML. What the reader makes of a document is a
parameter, given for the value the document was written from.
-/

namespace Codeclew.Updates

open Json Std

def stateSchema : String := "codeclew-documentation-update-state/1.0"
def eventSchema : String := "codeclew-documentation-update-event/1.0"
def policySchema : String := "codeclew-documentation-update-policy/1.0"
def maxRecord : ℕ := 128 * 1024 * 1024
def maxRecords : ℕ := 1024

/-! ## Documents -/

structure Policy where
  schema : String
  service : String
  repositoryId : String
  acceptedRefs : List String

structure Event where
  schema : String
  id : String
  service : String
  repositoryId : String
  sourceRef : String
  revision : String
  sequence : UInt64
  tag : Option String
  deriving DecidableEq

structure State where
  schema : String
  targets : ExtTreeMap String Event

/-- Of a service its names, and what `validate_service` says of it. -/
structure Service where
  id : String
  repositoryId : String
  validated : Except ClewError Unit

def Event.json (e : Event) : Json :=
  .obj [("id", .str e.id), ("repositoryId", .str e.repositoryId), ("revision", .str e.revision),
    ("schema", .str e.schema), ("sequence", .num e.sequence.toNat), ("service", .str e.service),
    ("sourceRef", .str e.sourceRef), ("tag", (e.tag.map Json.str).getD .null)]

def State.json (s : State) : Json :=
  .obj [("schema", .str s.schema),
    ("targets", .obj (s.targets.toList.map fun entry ↦ (entry.1, entry.2.json)))]

/-- The files of a documentation root that the coordinator uses. Of the external services there are
the names, if their records can be read. -/
structure Root where
  policies : ExtTreeMap String Policy
  services : ExtTreeMap String Service
  externalServices : Except ClewError (List String)
  events : ExtTreeMap String Event
  state : Option State

/-- How `serde_yaml_ng` reads the documents that were written for values. -/
class YamlDocuments where
  readEvent : Event → Option Event
  readState : State → Option State

/-! ## Checks -/

/-- Forty hexadecimal digits in lower case. -/
def revision (s : String) : Bool := isLowerHex s 40

def reference (s : String) : Bool :=
  s ≠ "" && utf8Length (chars s) ≤ 256 && (chars s).head? != some '-' &&
    !(chars s).any fun c ↦ isWhitespace c || isControl c

def validate (e : Event) : Except ClewError Unit :=
  ensure (e.schema = eventSchema ∧ Agent.validId e.id = true ∧ Agent.validId e.service = true ∧
      Agent.validId e.repositoryId = true ∧ reference e.sourceRef = true ∧
      revision e.revision = true ∧ e.sequence ≠ 0 ∧
      ∀ tag ∈ e.tag, reference tag = true ∧ tag = e.sourceRef)
    (invalid "invalid revision event identity, ref, tag or sequence")

/-- `Repository::records`, for records that have been read. -/
def records {α : Type} (rows : ExtTreeMap String α) : Except ClewError (ExtTreeMap String α) := do
  ensure ((∀ id ∈ rows.keys, Agent.validId id = true) ∧ rows.size ≤ maxRecords)
    (invalid "invalid or excessive documentation records")
  return rows

def policies (root : Root) : Except ClewError (ExtTreeMap String Policy) := do
  let rows ← records root.policies
  ensure (∀ row ∈ rows.toList, row.2.schema = policySchema ∧ row.1 = row.2.service ∧
      Agent.validId row.2.repositoryId = true ∧ row.2.acceptedRefs ≠ [] ∧
      row.2.acceptedRefs.length ≤ 32 ∧ row.2.acceptedRefs.all reference = true ∧
      row.2.acceptedRefs.Nodup)
    (invalid "invalid update ref policy")
  return rows

def services (root : Root) : Except ClewError (ExtTreeMap String Service) := do
  let rows ← records root.services
  rows.toList.forM fun row ↦ do
    row.2.validated
    ensure (row.1 = row.2.id) (invalid "service ID and filename disagree")
  let external ← root.externalServices
  ensure (∀ id ∈ external, id ∉ rows)
    (invalid "external-service identity collides with a captured service")
  return rows

/-- `store::read`, for a document and the value that the reader makes of it. -/
def readDocument {α : Type} (document : Json) (value : Option α) : Except ClewError α := do
  ensure (document.bytes.length ≤ maxRecord)
    (invalid "documentation input is not a bounded regular file")
  match value with
  | some a => return a
  | none => throw (invalid "documentation input violates its closed JSON/YAML schema")

section Coordinator

variable [YamlDocuments]

def checkState (s : State) : Except ClewError State := do
  ensure (s.schema = stateSchema ∧ s.targets.size ≤ 1024)
    (invalid "invalid coordinator target state")
  s.targets.toList.forM fun target ↦ do
    validate target.2
    ensure (target.1 = target.2.service) (invalid "coordinator target service mismatch")
  return s

def state (root : Root) : Except ClewError State :=
  match root.state with
  | none => .ok ⟨stateSchema, ∅⟩
  | some saved => readDocument saved.json (YamlDocuments.readState saved) >>= checkState

/-! ## Taking events -/

/-- A file that an event already has says the same. -/
def checkStored (root : Root) (e : Event) : Except ClewError Unit :=
  match root.events[e.id]? with
  | none => .ok ()
  | some saved => do
    let old ← readDocument saved.json (YamlDocuments.readEvent saved)
    ensure (old = e) (invalid "event idempotency key was reused with different content")

def lookup {α : Type} (rows : ExtTreeMap String α) (id message : String) : Except ClewError α :=
  match rows[id]? with
  | some a => .ok a
  | none => .error (invalid message)

/-- The checks of one event, after those of some others of its batch. -/
def checkEvent (root : Root) (policies : ExtTreeMap String Policy)
    (services : ExtTreeMap String Service) (seen : ExtTreeMap String Event) (e : Event) :
    Except ClewError (ExtTreeMap String Event) := do
  validate e
  let service ← lookup services e.service "revision event service is unregistered"
  let policy ← lookup policies e.service "configure accepted refs before accepting events"
  ensure (e.repositoryId = service.repositoryId ∧ policy.repositoryId = e.repositoryId ∧
      e.sourceRef ∈ policy.acceptedRefs)
    (invalid "event origin or ref is outside coordinator policy")
  checkStored root e
  ensure (∀ old ∈ seen[e.id]?, old = e) (invalid "conflicting event IDs in reconciliation")
  return seen.insert e.id e

inductive Status where
  | superseded
  | duplicate
  | accepted

/-- What is reported of an event. -/
structure Row where
  id : String
  service : String
  status : Status
  revision : String
  sequence : UInt64

def statusOf (targets : ExtTreeMap String Event) (e : Event) : Except ClewError Status :=
  match targets[e.service]? with
  | none => .ok .accepted
  | some old =>
    if e.sequence < old.sequence then .ok .superseded
    else if e.sequence = old.sequence then do
      ensure (old = e) (invalid "same service sequence names different events")
      return .duplicate
    else .ok .accepted

def advance (progress : ExtTreeMap String Event × List Row) (e : Event) :
    Except ClewError (ExtTreeMap String Event × List Row) := do
  let status ← statusOf progress.1 e
  return (match status with
    | .accepted => progress.1.insert e.service e
    | _ => progress.1, progress.2 ++ [⟨e.id, e.service, status, e.revision, e.sequence⟩])

/-- What is to be written: the new state, and the report. -/
def plan (root : Root) (events : List Event) : Except ClewError (State × List Row) := do
  let policies ← policies root
  let services ← services root
  let current ← state root
  discard <| events.foldlM (checkEvent root policies services) ∅
  let (targets, rows) ← events.foldlM advance (current.targets, [])
  return ({ current with targets }, rows)

def Root.withEvent (root : Root) (e : Event) : Root :=
  { root with events := root.events.insert e.id e }

def Root.withState (root : Root) (s : State) : Root := { root with state := some s }

/-- The publication of the status touches none of these files, and its failure is only reported. -/
def enqueue (events : List Event) : Program (Machine Root) ClewError (List Row × State) := do
  let planned ← Machine.read fun root ↦ plan root events
  Program.each events fun e ↦ Machine.write (·.withEvent e) Agent.ioError
  Machine.write (·.withState planned.1) Agent.ioError
  let final ← Machine.read state
  return (planned.2, final)

end Coordinator

end Codeclew.Updates
