import Codeclew.Files
import Codeclew.Json.Codec

/-!
# Agent jobs

An author and a reviewer are called by a coordinator that accounts for every call. Before anything
is called, a run reserves the maximum of each of its calls in the account of its budget. A call
takes a reservation, and when its reply is there the reservation is charged with what was reported,
or keeps the maximum where nothing was.

Of a role, of an attempt and of a report only what the accounting and the calls look at is here.
-/

namespace Codeclew.Agent

open Json

/-! ## Amounts -/

structure Amount where
  inputTokens : UInt64
  outputTokens : UInt64
  costUnits : UInt64
  deriving DecidableEq

namespace Amount

/-- `Amount::default`. -/
def zero : Amount := ⟨0, 0, 0⟩

def checkedAdd (a b : UInt64) (message : String) : Except ClewError UInt64 :=
  if a.toNat + b.toNat < 2 ^ 64 then .ok (a + b) else .error (invalid message)

def add (a b : Amount) : Except ClewError Amount := do
  let inputTokens ← checkedAdd a.inputTokens b.inputTokens "input reservation overflow"
  let outputTokens ← checkedAdd a.outputTokens b.outputTokens "output reservation overflow"
  let costUnits ← checkedAdd a.costUnits b.costUnits "cost reservation overflow"
  return { inputTokens, outputTokens, costUnits }

abbrev Within (a limit : Amount) : Prop :=
  a.inputTokens ≤ limit.inputTokens ∧ a.outputTokens ≤ limit.outputTokens ∧
    a.costUnits ≤ limit.costUnits

abbrev Positive (a : Amount) : Prop :=
  0 < a.inputTokens ∧ 0 < a.outputTokens ∧ 0 < a.costUnits

/-- The components as numbers, which are added and compared one by one. -/
def cost (a : Amount) : ℕ × ℕ × ℕ :=
  (a.inputTokens.toNat, a.outputTokens.toNat, a.costUnits.toNat)

@[simp] theorem cost_zero : zero.cost = 0 := rfl

theorem within_iff {a limit : Amount} : a.Within limit ↔ a.cost ≤ limit.cost := by
  simp only [Within, cost, Prod.mk_le_mk, UInt64.le_iff_toNat_le]

theorem toNat_checkedAdd {a b c : UInt64} {message : String}
    (h : checkedAdd a b message = .ok c) : c.toNat = a.toNat + b.toNat := by
  rw [checkedAdd] at h
  split_ifs at h with hlt
  rw [← Except.ok.inj h, UInt64.toNat_add, Nat.mod_eq_of_lt hlt]

theorem cost_add {a b c : Amount} (h : a.add b = .ok c) : c.cost = a.cost + b.cost := by
  obtain ⟨inputTokens, hinput, h⟩ := bind_eq_ok_iff.mp h
  obtain ⟨outputTokens, houtput, h⟩ := bind_eq_ok_iff.mp h
  obtain ⟨costUnits, hcost, h⟩ := bind_eq_ok_iff.mp h
  obtain rfl := Except.ok.inj h
  simp only [cost, toNat_checkedAdd hinput, toNat_checkedAdd houtput, toNat_checkedAdd hcost,
    Prod.mk_add_mk]

end Amount

/-! ## Accounts -/

/-- What a transport reports, as far as it does. -/
structure Usage where
  inputTokens : Option UInt64
  outputTokens : Option UInt64
  costUnits : Option UInt64
  deriving DecidableEq

inductive Status where
  | reserved
  | dispatched
  | reconciled
  | unreconciledMaximumRetained
  | boundViolated
  | releasedNotDispatched
  deriving DecidableEq

def Status.name : Status → String
  | reserved => "RESERVED"
  | dispatched => "DISPATCHED"
  | reconciled => "RECONCILED"
  | unreconciledMaximumRetained => "UNRECONCILED_MAXIMUM_RETAINED"
  | boundViolated => "BOUND_VIOLATED"
  | releasedNotDispatched => "RELEASED_NOT_DISPATCHED"

structure Reservation where
  run : String
  role : String
  maximum : Amount
  charged : Amount
  status : Status
  actual : Option Usage
  deriving DecidableEq

structure Budget where
  account : String
  costUnit : String
  ceiling : Amount
  stopLoss : Amount
  deriving DecidableEq

structure Account where
  schema : String
  costUnit : String
  ceiling : Amount
  stopLoss : Amount
  reservations : Std.ExtTreeMap String Reservation compare

/-! ## Configurations -/

structure Cap where
  maximum : Amount
  overheadInputTokens : UInt64
  deriving DecidableEq

structure Role where
  adapter : String
  model : String
  modelRepresentation : Option String
  usageAuthority : String
  cap : Cap
  deriving DecidableEq

structure Config where
  author : Role
  reviewer : Role
  fallback : Option Role
  authorCalls : UInt32
  reviewerCalls : UInt32
  fallbackCalls : UInt32
  budget : Budget
  deriving DecidableEq

/-! ## Reports -/

structure Attempt where
  usageAuthority : String
  role : String
  reservation : String
  status : String
  usage : Option Usage
  resultDigest : Option String
  capturedStdoutBytes : UInt64
  capturedStderrBytes : UInt64

structure RunReport where
  run : String
  work : String
  status : String
  attempts : List Attempt
  accounting : Option Json

/-! ## Documents

The canonical JSON of the records that are measured, hashed or compared as documents. -/

def Amount.json (a : Amount) : Json :=
  .obj [("costUnits", toJson a.costUnits), ("inputTokens", toJson a.inputTokens),
    ("outputTokens", toJson a.outputTokens)]

def Usage.json (u : Usage) : Json :=
  .obj [("costUnits", optionToJson u.costUnits), ("inputTokens", optionToJson u.inputTokens),
    ("outputTokens", optionToJson u.outputTokens)]

def Reservation.json (r : Reservation) : Json :=
  .obj [("actual", (r.actual.map Usage.json).getD .null), ("charged", r.charged.json),
    ("maximum", r.maximum.json), ("role", .str r.role), ("run", .str r.run),
    ("status", .str r.status.name)]

def Account.json (a : Account) : Json :=
  .obj [("ceiling", a.ceiling.json), ("costUnit", .str a.costUnit),
    ("reservations", .obj (a.reservations.toList.map fun entry ↦ (entry.1, entry.2.json))),
    ("schema", .str a.schema), ("stopLoss", a.stopLoss.json)]

end Codeclew.Agent
