import Codeclew.Agent.Types
import Codeclew.Durable
import Codeclew.Mission.Ledger

/-!
# The account of a budget

The calls that change an account. Each of them reads it, changes it and saves it under the lock of
the repository; to save is one atomic replacement of the file, so a call that is cut off has done
some of its saves and not the others.

An account is saved as canonical JSON and read as YAML, which is the same but for texts with line
separators that YAML folds and JSON does not, and for characters that YAML refuses.
-/

namespace Codeclew.Agent

open Json Program
open Std (ExtTreeMap)

/-! ## The repository -/

/-- The files that the accounting touches. -/
structure Root where
  /-- By identity. -/
  accounts : ExtTreeMap String Account compare
  /-- Accounts of an older layout. -/
  obsoleteAccounts : List String
  /-- By run. -/
  reports : ExtTreeMap String RunReport compare
  /-- By work. -/
  latestRuns : ExtTreeMap String String compare

def Root.withAccount (root : Root) (path : String) (value : Account) : Root :=
  { root with accounts := root.accounts.insert path value }

abbrev Repository := Machine Root

/-- What the accounting depends on of a reservation. -/
structure Slot where
  maximum : Amount
  charged : Amount
  status : Status
  actual : Option Usage
  deriving DecidableEq

def Reservation.slot (r : Reservation) : Slot := ⟨r.maximum, r.charged, r.status, r.actual⟩

abbrev Slots := ExtTreeMap String Slot compare

def Account.slots (account : Account) : Slots :=
  account.reservations.map fun _ r ↦ r.slot

/-- How `serde_yaml_ng` reads the document of an account. It may refuse to, or read some texts
differently, but numbers, statuses and the hexadecimal names of reservations are read as they
are. -/
class YamlReader where
  readAccount : Account → Option Account
  /-- How long the document of a report is, which has members that are not modelled. -/
  reportLength : RunReport → ℕ
  stopLoss_readAccount : ∀ {account account'}, readAccount account = some account' →
    account'.stopLoss = account.stopLoss
  slots_readAccount : ∀ {account account'}, readAccount account = some account' →
    account'.slots = account.slots

/-- `BTreeMap::values`. -/
def values {α : Type} (m : ExtTreeMap String α compare) : List α := m.toList.map Prod.snd

theorem mem_values {α : Type} {m : ExtTreeMap String α compare} {a : α} :
    a ∈ values m ↔ ∃ key : String, m[key]? = some a := by
  simp only [values, List.mem_map, Prod.exists, ExtTreeMap.mem_toList_iff_getElem?_eq_some,
    exists_eq_right]

def ioError : ClewError := invalid "documentation input/output is unavailable"

/-- `store::valid_id`. -/
def validId (id : String) : Bool :=
  (chars id).length ≤ 100 && ((chars id).head?.any Char.isAlpha) &&
    (chars id).all fun c ↦ c.isAlphanum || c == '-' || c == '_'

def accountPath (id : String) : Except ClewError String := do
  ensure (validId id = true) (invalid "invalid budget account identity")
  return id

def accountSchema : String := "codeclew-documentation-budget/1.0"

/-- The bound on the file of an account. -/
def accountMaxBytes : ℕ := 16 * 1024 * 1024

section Accounts

variable [YamlReader]

def account (root : Root) (budget : Budget) : Except ClewError Account := do
  let path ← accountPath budget.account
  ensure (budget.account ∉ root.obsoleteAccounts)
    (invalid
      "DOCS_REINDEX_REQUIRED: obsolete budget account layout; initialize a new documentation root")
  match root.accounts[path]? with
  | some saved =>
    match YamlReader.readAccount saved with
    | none => throw (invalid "documentation input violates its closed JSON/YAML schema")
    | some a => do
      ensure (a.schema = accountSchema ∧ a.costUnit = budget.costUnit ∧ a.ceiling = budget.ceiling ∧
          a.stopLoss = budget.stopLoss)
        (invalid "account ceiling is immutable; select an explicitly new budget account")
      return a
  | none => return ⟨accountSchema, budget.costUnit, budget.ceiling, budget.stopLoss, ∅⟩

def saveAccount (budget : Budget) (value : Account) : Program Repository ClewError Unit := do
  require (value.json.bytes.length ≤ accountMaxBytes)
    (invalid "budget account ledger exceeds its bound")
  let path ← lift (accountPath budget.account)
  Machine.write (·.withAccount path value) ioError

/-! ## Reserving -/

/-- The calls of a configuration: the role, its maximum, and the number of the call. -/
def Config.calls (config : Config) : List (String × Amount × ℕ) :=
  ([("author", some config.author, config.authorCalls),
    ("reviewer", some config.reviewer, config.reviewerCalls),
    ("fallback", config.fallback, config.fallbackCalls)] :
      List (String × Option Role × UInt32)).flatMap
    fun (role, driver, count) ↦ driver.toList.flatMap fun driver ↦
      (List.range count.toNat).map fun ordinal ↦ (role, driver.cap.maximum, ordinal)

/-- The name of the reservation of a call. -/
def reservationId [Sha256] (run role : String) (ordinal : ℕ) : String :=
  hashBytes (arr [.str run, .str role, .num ordinal]).bytes

abbrev BoundViolated (reservations : ExtTreeMap String Reservation compare) : Prop :=
  ∃ r ∈ values reservations, r.status = .boundViolated

def boundViolatedError : ClewError :=
  invalid "ACCOUNTING_BOUND_VIOLATED: this account cannot dispatch further calls"

/-- One call: its reservation is added, and its maximum to the total. -/
def reserveCall [Sha256] (run : String)
    (state : ExtTreeMap String Reservation compare × Amount × List String)
    (call : String × Amount × ℕ) :
    Except ClewError (ExtTreeMap String Reservation compare × Amount × List String) := do
  let (reservations, total, ids) := state
  let (role, maximum, ordinal) := call
  let id := reservationId run role ordinal
  ensure (id ∉ reservations) (invalid "run already reserved; inspect its durable result")
  let total ← total.add maximum
  return (reservations.insert id ⟨run, role, maximum, maximum, .reserved, none⟩, total, ids ++ [id])

/-- What is charged so far, and then every call of the configuration. -/
def reserveCalls [Sha256] (config : Config) (run : String) (ledger : Account) :
    Except ClewError (ExtTreeMap String Reservation compare × List String) := do
  let total ← ((values ledger.reservations).map (·.charged)).foldlM Amount.add .zero
  let (reservations, total, ids) ←
    config.calls.foldlM (reserveCall run) (ledger.reservations, total, [])
  ensure (total.Within ledger.stopLoss)
    (invalid "BUDGET_EXHAUSTED: cannot reserve the configured calls below stop-loss")
  return (reservations, ids)

/-- The reservations that a configuration has: their role and maximum. -/
def expectedSlots [Sha256] (config : Config) (run : String) :
    ExtTreeMap String (String × Amount) compare :=
  config.calls.foldl (fun expected (role, maximum, ordinal) ↦
    expected.insert (reservationId run role ordinal) (role, maximum)) ∅

def validateReservationSlots [Sha256] (config : Config) (run : String)
    (existing : ExtTreeMap String Reservation compare) (terminal : Bool) :
    Except ClewError Unit :=
  ensure (existing.size = (expectedSlots config run).size ∧ ∀ entry ∈ existing.toList,
      (expectedSlots config run)[entry.1]? = some (entry.2.role, entry.2.maximum) ∧
        entry.2.run = run ∧ (terminal = true ∨ entry.2.status ≠ .releasedNotDispatched))
    (invalid
      "RECOVERY_ACCOUNTING_MISMATCH: original finite reservations do not match this run config")

def validateRunReservations [Sha256] (config : Config) (run : String)
    (existing : ExtTreeMap String Reservation compare) : Except ClewError Unit :=
  validateReservationSlots config run existing false

def checkBudget (budget : Budget) : Except ClewError Unit :=
  ensure ((chars budget.costUnit).all isWhitespace = false ∧ byteLength budget.costUnit ≤ 64 ∧
      budget.ceiling.Positive ∧ budget.stopLoss.Positive ∧ budget.stopLoss.Within budget.ceiling ∧
      budget.stopLoss ≠ budget.ceiling)
    (invalid "budget needs positive finite ceilings and a lower stop-loss")

def reserveWithAccountGuard [Sha256] (config : Config) (run : String) (reviewRetry : Bool) :
    Program Repository ClewError (List String) := do
  lift (checkBudget config.budget)
  let ledger ← Machine.read fun root ↦ account root config.budget
  if reviewRetry then
    require (config.authorCalls = 0 ∧ config.reviewerCalls ≠ 0 ∧ config.fallbackCalls = 0 ∧
        ∀ r ∈ values ledger.reservations, r.run = run)
      (invalid ("DRAFT_REVIEW_RETRY_ACCOUNT_CONFLICT: this retry requires an empty account or " ++
        "only its own exact reviewer reservation; historical and concurrent foreign " ++
        "reservations remain untouched"))
  if reviewRetry = true ∧ ledger.reservations.isEmpty = false then
    lift (validateRunReservations config run ledger.reservations)
    pure ledger.reservations.keys
  else
    saveAccount config.budget ledger
    require (¬BoundViolated ledger.reservations) boundViolatedError
    let (reservations, ids) ← lift (reserveCalls config run ledger)
    saveAccount config.budget { ledger with reservations }
    pure ids

def reserve [Sha256] (config : Config) (run : String) :
    Program Repository ClewError (List String) :=
  reserveWithAccountGuard config run false

def reserveReviewRetry [Sha256] (config : Config) (run : String) :
    Program Repository ClewError Unit := do
  require (config.reviewerCalls = 1)
    (invalid ("DRAFT_REVIEW_RETRY_ACCOUNT_CONFLICT: the legacy retry requires exactly one " ++
      "reviewer reservation"))
  discard (reserveWithAccountGuard config run true)

def reserveExpandingReviewRetry [Sha256] (config : Config) (run : String) :
    Program Repository ClewError Unit :=
  discard (reserveWithAccountGuard config run true)

/-- The reservations of a run. -/
def ofRun (reservations : ExtTreeMap String Reservation compare) (run : String) :
    ExtTreeMap String Reservation compare :=
  reservations.filter fun _ r ↦ r.run = run

/-- The account is looked at without the lock, so `seen` is what was there at that time. -/
def ensureReserved [Sha256] (seen : Root) (config : Config) (run : String) :
    Program Repository ClewError Unit := do
  let ledger ← lift (account seen config.budget)
  let existing := ofRun ledger.reservations run
  if existing.isEmpty then discard (reserve config run)
  else lift (validateRunReservations config run existing)

/-! ## Dispatching -/

def dispatch (budget : Budget) (run role : String) : Program Repository ClewError String := do
  let ledger ← Machine.read fun root ↦ account root budget
  require (¬BoundViolated ledger.reservations) boundViolatedError
  match ledger.reservations.toList.find? fun entry ↦
      entry.2.run = run ∧ entry.2.role = role ∧ entry.2.status = .reserved with
  | none => fail (invalid "CALLS_EXHAUSTED: no reserved call remains for this role")
  | some (id, reservation) => do
    saveAccount budget { ledger with
      reservations := ledger.reservations.insert id { reservation with status := .dispatched } }
    pure id

def dispatchReserved (budget : Budget) (id run role : String) :
    Program Repository ClewError Unit := do
  let ledger ← Machine.read fun root ↦ account root budget
  require (¬BoundViolated ledger.reservations) boundViolatedError
  match ledger.reservations[id]? with
  | none => fail (invalid "unknown reservation")
  | some reservation => do
    require (reservation.run = run ∧ reservation.role = role ∧ reservation.status = .reserved)
      (invalid "RECOVERY_RESERVATION_MISMATCH: selected account slot is not reserved for this call")
    saveAccount budget { ledger with
      reservations := ledger.reservations.insert id { reservation with status := .dispatched } }

/-! ## Reconciling -/

/-- What a reservation is charged, its status, and whether its bound is violated. -/
def reconciliation (maximum : Amount) (usage : Option Usage) (overhead : UInt64) :
    Except ClewError (Amount × Status × Bool) := do
  let usageValue := usage.getD ⟨none, none, none⟩
  let actualInput ← usageValue.inputTokens.mapM (Amount.checkedAdd · overhead "usage overflow")
  let charged : Amount :=
    { inputTokens := actualInput.getD maximum.inputTokens
      outputTokens := usageValue.outputTokens.getD maximum.outputTokens
      costUnits := usageValue.costUnits.getD maximum.costUnits }
  let violated := ¬charged.Within maximum
  let status : Status :=
    if violated then .boundViolated
    else if actualInput = none ∨ usageValue.outputTokens = none ∨ usageValue.costUnits = none then
      .unreconciledMaximumRetained
    else .reconciled
  return (charged, status, violated)

/-- A reservation that was dispatched takes the result; one that has it already stays. -/
def settle (reservation : Reservation) (usage : Option Usage) (charged : Amount) (status : Status) :
    Except ClewError Reservation :=
  if reservation.status = .dispatched then
    .ok { reservation with charged, actual := usage, status }
  else if reservation.charged ≠ charged ∨ reservation.actual ≠ usage ∨
    reservation.status ≠ status then
    .error (invalid
      "RECOVERY_ACCOUNTING_MISMATCH: reservation was reconciled with different result data")
  else .ok reservation

def violationError : ClewError :=
  invalid ("ACCOUNTING_BOUND_VIOLATED: adapter reported usage beyond its admitted upper bound; " ++
    "further calls are denied")

def reconcile (budget : Budget) (id : String) (usage : Option Usage) (overhead : UInt64) :
    Program Repository ClewError Unit := do
  let ledger ← Machine.read fun root ↦ account root budget
  match ledger.reservations[id]? with
  | none => fail (invalid "unknown reservation")
  | some reservation => do
    let (charged, status, violated) ← lift (reconciliation reservation.maximum usage overhead)
    let settled ← lift (settle reservation usage charged status)
    saveAccount budget { ledger with reservations := ledger.reservations.insert id settled }
    require (violated = false) violationError

/-! ## Releasing -/

def release (reservation : Reservation) : Reservation :=
  { reservation with status := .releasedNotDispatched, charged := .zero }

/-- The reservations of a run that were not dispatched are released. -/
def releaseRun (run : String) (reservations : ExtTreeMap String Reservation compare) :
    ExtTreeMap String Reservation compare :=
  reservations.map fun _ r ↦ if r.run = run ∧ r.status = .reserved then release r else r

def releaseUnused (budget : Budget) (run : String) : Program Repository ClewError Unit := do
  let ledger ← Machine.read fun root ↦ account root budget
  saveAccount budget { ledger with reservations := releaseRun run ledger.reservations }

/-! ## The end of a run -/

def Attempt.ofReservation (attempts : List Attempt) (id : String) : List Attempt :=
  attempts.filter (·.reservation = id)

/-- `status.ends_with("CANCELLED")`. -/
def cancelled (status : String) : Bool := (stripSuffix "CANCELLED" status).isSome

/-- There is one attempt, and it is such. -/
def sole (attempts : List Attempt) (p : Attempt → Bool) : Bool :=
  match attempts with
  | [attempt] => p attempt
  | _ => false

/-- One record of a run that is over, and the driver of its role. -/
def validateTerminalCall (driver : Option Role) (attempt : Attempt) (reservation : Reservation) :
    Except ClewError Unit := do
  ensure (attempt.role = reservation.role)
    (invalid "RECOVERY_ACCOUNTING_MISMATCH: terminal call slots differ from recorded attempts")
  let expectedUsage :=
    if attempt.usageAuthority = "TRANSPORT_METADATA" ∧
        (attempt.status = "COMPLETED" ∨ reservation.status = .boundViolated) then attempt.usage
    else none
  ensure (reservation.actual = expectedUsage)
    (invalid "RECOVERY_ACCOUNTING_MISMATCH: terminal usage differs from the saved invocation")
  match driver with
  | none => throw (invalid "RECOVERY_ACCOUNTING_MISMATCH: unknown terminal role")
  | some driver => do
    let expected ←
      if reservation.status = .dispatched then pure (reservation.maximum, Status.dispatched)
      else do
        let (charged, status, _) ← reconciliation reservation.maximum reservation.actual
          driver.cap.overheadInputTokens
        pure (charged, status)
    ensure (reservation.charged = expected.1 ∧ reservation.status = expected.2 ∧
        (reservation.status = .dispatched → reservation.actual = none))
      (invalid "RECOVERY_ACCOUNTING_MISMATCH: terminal charge differs from retained accounting")

def Config.driver (config : Config) (role : String) : Option Role :=
  if role = "author" then some config.author
  else if role = "reviewer" then some config.reviewer
  else if role = "fallback" then config.fallback
  else none

def validateTerminalRecord (config : Config) (report : RunReport) (id : String)
    (reservation : Reservation) : Except ClewError Unit :=
  let attempts := Attempt.ofReservation report.attempts id
  if reservation.status = .releasedNotDispatched then
    let preparedCancel := sole attempts fun attempt ↦
      cancelled report.status = true ∧ attempt.status = "PREPARED" ∧
        attempt.role = reservation.role ∧
        attempt.usage = none ∧ attempt.resultDigest = none ∧ attempt.capturedStdoutBytes = 0 ∧
        attempt.capturedStderrBytes = 0
    ensure ((attempts.isEmpty = true ∨ preparedCancel = true) ∧ reservation.charged = .zero ∧
        reservation.actual = none)
      (invalid "RECOVERY_ACCOUNTING_MISMATCH: released call has spend or an invocation")
  else
    match attempts, reservation.status with
    | _, .reserved => .error
        (invalid "RECOVERY_ACCOUNTING_MISMATCH: terminal call slots differ from recorded attempts")
    | [attempt], _ => validateTerminalCall (config.driver reservation.role) attempt reservation
    | _, _ => .error
        (invalid "RECOVERY_ACCOUNTING_MISMATCH: terminal call slots differ from recorded attempts")

def validateTerminalReservationRecords [Sha256] (config : Config) (report : RunReport)
    (existing : ExtTreeMap String Reservation compare) : Except ClewError Unit := do
  validateReservationSlots config report.run existing true
  existing.toList.forM fun entry ↦ validateTerminalRecord config report entry.1 entry.2
  ensure (∀ attempt ∈ report.attempts, attempt.reservation ∈ existing)
    (invalid "RECOVERY_ACCOUNTING_MISMATCH: terminal invocation has no configured reservation")

/-- Whether a reservation that is still reserved at the end of its run may be released. -/
abbrev Releasable (report : RunReport) (id : String) (reservation : Reservation) : Prop :=
  let attempts := Attempt.ofReservation report.attempts id
  (attempts.isEmpty = true ∨ sole attempts (fun attempt ↦
      cancelled report.status = true ∧ attempt.status = "PREPARED") = true) ∧
    reservation.actual = none ∧ reservation.charged = reservation.maximum

def saveReport (report : RunReport) : Program Repository ClewError Unit := do
  require (YamlReader.reportLength report ≤ 4 * 1024 * 1024) (invalid "job report exceeds 4 MiB")
  require ((chars report.run).length = 32 ∧ (chars report.run).all (fun c ↦ c.isDigit ||
      ('a' ≤ c && c ≤ 'f') || ('A' ≤ c && c ≤ 'F')) = true) (invalid "invalid run identity")
  Machine.write (fun root ↦ { root with reports := root.reports.insert report.run report }) ioError
  Machine.write
    (fun root ↦ { root with latestRuns := root.latestRuns.insert report.work report.run })
    ioError

/-- The summary of a run in its report. -/
def accountingSummary (existing : ExtTreeMap String Reservation compare) : Json :=
  .arr (existing.toList.map fun entry ↦
    .obj [("record", entry.2.json), ("reservation", .str entry.1)])

/-- A report that has no summary gets one. -/
def recordAccounting (report : RunReport) (accounting : Json) :
    Program Repository ClewError RunReport :=
  if report.accounting = none then do
    let report := { report with accounting := some accounting }
    saveReport report
    pure report
  else pure report

def completeTerminalAccounting [Sha256] (config : Config) (report : RunReport) :
    Program Repository ClewError RunReport := do
  let ledger ← Machine.read fun root ↦ account root config.budget
  require (∀ entry ∈ ledger.reservations.toList, entry.2.run = report.run →
      entry.2.status = .reserved → Releasable report entry.1 entry.2)
    (invalid "RECOVERY_ACCOUNTING_MISMATCH: terminal reserved slot was dispatched or changed")
  let changed := (values ledger.reservations).any fun r ↦ r.run = report.run ∧ r.status = .reserved
  let reservations := releaseRun report.run ledger.reservations
  let existing := ofRun reservations report.run
  lift (validateTerminalReservationRecords config report existing)
  let accounting := accountingSummary existing
  require (∀ saved, report.accounting = some saved → saved = accounting)
    (invalid
      "RECOVERY_ACCOUNTING_MISMATCH: terminal accounting summary differs from retained slots")
  whenever (changed = true) (saveAccount config.budget { ledger with reservations })
  recordAccounting report accounting

end Accounts

end Codeclew.Agent
