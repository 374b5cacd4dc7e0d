import Codeclew.Values.Types
import Codeclew.Worklist

/-!
# The nullness solver

From the definition that is asked for, the nodes it depends on are selected, and the equations of
the selected nodes are solved over the sets of possible values by a work list. Both loops have
budgets: a node that is not selected counts as unknown, and a solution that is not reached is given
up as a whole, since a partial one may leave values out.

The meaning of a model is any assignment of sets of values that its equations do not enlarge, a
`Solution`; `exists_solution_of_analyze` says that what the solver reports is read off one.
-/

namespace Codeclew.Values

open Std

def valueQuerySchema : String := "codeclew-value-query/0.1"
def nullnessPolicy : String := "portable-nullness-equations/0.1"

structure ValueQuery where
  target : String
  maxNodes : ℕ
  maxTransfers : ℕ
  deriving DecidableEq, Repr

inductive Nullness where
  | null
  | nonNull
  | unknown
  deriving DecidableEq, Repr

structure ValueObservation where
  id : String
  normalValueNullness : Nullness
  evidenceIds : List String
  deriving DecidableEq, Repr

inductive FrontierKind where
  | discovery
  | semantic
  | budget
  deriving DecidableEq, Repr

structure ValueFrontier where
  kind : FrontierKind
  subject : String
  code : String
  deriving DecidableEq, Repr

structure ValueResult where
  schema : String
  policy : String
  calculationAuthority : String
  modelDigest : String
  binding : ModelBinding
  query : ValueQuery
  programSemanticClosure : Bool
  equationsConverged : Bool
  observations : List ValueObservation
  frontier : List ValueFrontier
  transferCount : ℕ
  deriving DecidableEq, Repr

/-! ## Frontiers -/

def FrontierKind.rank : FrontierKind → ℕ
  | discovery => 0
  | semantic => 1
  | budget => 2

/-- Frontiers are ordered by their kind, their subject and their code. -/
def ValueFrontier.cmp : ValueFrontier → ValueFrontier → Ordering :=
  compareLex (compareOn (·.kind.rank)) (compareLex (compareOn (·.subject)) (compareOn (·.code)))

instance : TransCmp ValueFrontier.cmp := by
  unfold ValueFrontier.cmp
  infer_instance

abbrev Frontier := ExtTreeSet ValueFrontier ValueFrontier.cmp

abbrev Names := ExtTreeSet String compare

/-! ## Sets of values as bits -/

def nullBit : UInt8 := 1
def nonNullBit : UInt8 := 2
def topBits : UInt8 := nullBit ||| nonNullBit

abbrev State := ExtTreeMap String UInt8 compare

def publicValue (v : UInt8) : Nullness :=
  if v = nullBit then .null else if v = nonNullBit then .nonNull else .unknown

/-- An operand that is not in the state is unknown. -/
def State.bits (state : State) (id : String) : UInt8 := state[id]?.getD topBits

def transfer (op : ValueOperation) (state : State) : UInt8 :=
  match op with
  | .null => nullBit
  | .nonNull => nonNullBit
  | .copy value => state.bits value
  | .join values => values.foldl (fun v id ↦ v ||| state.bits id) 0
  | .coalesce left right =>
    (state.bits left &&& nonNullBit) |||
      if state.bits left &&& nullBit ≠ 0 then state.bits right else 0
  | .input | .unknown _ => topBits

/-! ## Relevance -/

/-- What a node depends on. -/
def ValueNode.dependencies (n : ValueNode) : List String := n.operation.operands ++ n.guards

structure Selection where
  selected : Names
  frontier : Frontier

/-- The cost of the nodes that are not selected yet. -/
def unselected (m : ValueModel) (selected : Names) : ℕ :=
  Worklist.openCost m.nodes (·.dependencies.length) (fun n ↦ selected.contains n.id)

theorem unselected_insert {m : ValueModel} {selected : Names} {id : String} {n : ValueNode}
    (hn : m.node? id = some n) (hid : ¬selected.contains id) :
    unselected m (selected.insert id) + (n.dependencies.length + 1) ≤ unselected m selected := by
  have heq : n.id = id := by simpa using List.find?_some hn
  refine Worklist.openCost_visit (fun x hx ↦ ?_) (List.mem_of_find?_eq_some hn) ?_ ?_
  · simp only [ExtTreeSet.contains_insert, hx, Bool.or_true]
  · rw [heq]
    exact Bool.eq_false_iff.mpr hid
  · simp [heq]

theorem size_erase_head {pending : Names} {id : String} {rest : List String}
    (h : pending.toList = id :: rest) : (pending.erase id).size + 1 = pending.size := by
  have hmem : id ∈ pending := ExtTreeSet.mem_toList.mp (by rw [h]; exact List.mem_cons_self)
  have hsize : pending.size = rest.length + 1 := by
    rw [← ExtTreeSet.length_toList, h, List.length_cons]
  rw [ExtTreeSet.size_erase, if_pos (ExtTreeSet.mem_iff_contains.mp hmem), hsize]
  rfl

-- the equations of the three matches are used in the proof of termination
set_option linter.unusedVariables false in
/-- Select the pending nodes and what they depend on, the smallest name first, up to the budget. -/
def select (m : ValueModel) (maxNodes : ℕ) (pending selected : Names) (frontier : Frontier) :
    Selection :=
  match hp : pending.toList with
  | [] => ⟨selected, frontier⟩
  | id :: _ =>
    if hs : selected.contains id then select m maxNodes (pending.erase id) selected frontier
    else if selected.size = maxNodes then
      select m maxNodes (pending.erase id) selected
        (frontier.insert ⟨.budget, id, "RELEVANCE_NODE_BUDGET"⟩)
    else
      match hn : m.node? id with
      -- a checked model has a node for everything that is pending
      | none => select m maxNodes (pending.erase id) selected frontier
      | some n =>
        select m maxNodes ((pending.erase id).insertMany n.dependencies) (selected.insert id)
          frontier
termination_by unselected m selected + pending.size
decreasing_by
  · have := size_erase_head hp; omega
  · have := size_erase_head hp; omega
  · have := size_erase_head hp; omega
  · have hsize := size_erase_head hp
    have hcost := unselected_insert hn hs
    have hmany := ExtTreeSet.size_insertMany_list_le (t := pending.erase id) (l := n.dependencies)
    omega

/-! ## Solving -/

/-- The selected nodes that have `operand` as an operand. -/
def users (m : ValueModel) (selected : Names) (operand : String) : List String :=
  selected.toList.filter fun id ↦ (m.node? id).any fun n ↦ operand ∈ n.operation.operands

/-- The operation of a node; what is selected has one. -/
def ValueModel.operationOf (m : ValueModel) (id : String) : ValueOperation :=
  match m.node? id with
  | some n => n.operation
  | none => .unknown ""

/-- The outcome of a run of the work list: the transfers that are left, the state, and whether the
budget was too small. -/
structure Drained where
  remaining : ℕ
  state : State
  exhausted : Bool

/-- Raise the pending nodes, the smallest name first, until none is pending or no transfer is
left. -/
def drain (m : ValueModel) (selected : Names) : (remaining : ℕ) →
    (pending : Names) → State → Drained
  | 0, pending, state =>
    if pending.isEmpty then ⟨0, state, false⟩ else ⟨0, state.map fun _ _ ↦ topBits, true⟩
  | remaining + 1, pending, state =>
    match pending.toList with
    | [] => ⟨remaining + 1, state, false⟩
    | id :: _ =>
      let next := state.bits id ||| transfer (m.operationOf id) state
      if next ≠ state.bits id then
        drain m selected remaining ((pending.erase id).insertMany (users m selected id))
          (state.insert id next)
      else drain m selected remaining (pending.erase id) state

/-- The nodes without a value. -/
def bottoms (state : State) : List String := (state.toList.filter (·.2 = 0)).map (·.1)

/-- Nodes without a value count as unknown. -/
def seedBottoms (state : State) : State := state.map fun _ v ↦ if v = 0 then topBits else v

/-! ## Frontiers of a query -/

def boundaryKind (code : String) : FrontierKind :=
  if code = "VALUE_CALL_PROGRAM_BUDGET" then .budget else .semantic

def unknownKind (boundary : String) : FrontierKind :=
  if boundary = "VALUE_CALL_NODE_BUDGET" ∨ boundary = "VALUE_CALL_CONTEXT_BUDGET" then .budget
  else .semantic

/-- The frontiers every query of the model has. -/
def modelFrontier (m : ValueModel) (target : String) : Frontier :=
  (ExtTreeSet.empty.insert ⟨.semantic, target,
    "MODEL_BINDING_AND_EXTRACTION_NOT_VERIFIED_BY_SOLVER"⟩).insertMany
    (m.globalBoundaries.map fun code ↦ ⟨boundaryKind code, target, code⟩)

/-- The frontiers of the selected transfers that are not modelled. -/
def unknownFrontier (m : ValueModel) (selected : Names) : List ValueFrontier :=
  selected.toList.filterMap fun id ↦
    ((m.node? id).bind (·.operation.boundary?)).map fun boundary ↦
      ⟨unknownKind boundary, id, boundary⟩

def selection (m : ValueModel) (query : ValueQuery) : Selection :=
  if (m.node? query.target).isSome then
    select m query.maxNodes (ExtTreeSet.empty.insert query.target) ∅ (modelFrontier m query.target)
  else
    ⟨∅, (modelFrontier m query.target).insert
      ⟨.discovery, query.target, "VALUE_NOT_FOUND_UNKNOWN"⟩⟩

/-- The solution of the selected equations: the state, whether it converged, and the frontiers and
the transfers of the two runs. -/
structure Solved where
  state : State
  converged : Bool
  frontier : Frontier
  remaining : ℕ

def transferBudget (query : ValueQuery) : ValueFrontier :=
  ⟨.budget, query.target, "FIXPOINT_TRANSFER_BUDGET"⟩

def solve (m : ValueModel) (query : ValueQuery) (selected : Names) (frontier : Frontier) : Solved :=
  let first := drain m selected query.maxTransfers selected
    (ExtTreeMap.ofList (selected.toList.map fun id ↦ (id, 0)) compare)
  if first.exhausted then
    ⟨first.state, false, frontier.insert (transferBudget query), first.remaining⟩
  else
    let seeded := frontier.insertMany ((bottoms first.state).map fun id ↦
      ⟨.semantic, id, "NO_MODELED_NORMAL_VALUE_UNKNOWN"⟩)
    let second := drain m selected first.remaining
      (ExtTreeSet.ofList ((bottoms first.state).flatMap (users m selected)) compare)
      (seedBottoms first.state)
    if second.exhausted then
      ⟨second.state, false, seeded.insert (transferBudget query), second.remaining⟩
    else ⟨second.state, true, seeded, second.remaining⟩

def observation (m : ValueModel) (entry : String × UInt8) : ValueObservation where
  id := entry.1
  normalValueNullness := publicValue entry.2
  evidenceIds := ((m.node? entry.1).map (·.evidenceIds)).getD []

/-- Calculate over a supplied model. -/
def analyze [Sha256] (m : ValueModel) (query : ValueQuery) : Except String ValueResult := do
  m.validate
  ensure (text query.target ∧ query.maxNodes ≠ 0 ∧ query.maxNodes ≤ maxModelNodes ∧
    query.maxTransfers ≠ 0 ∧ query.maxTransfers ≤ 1000000) "invalid value query or budget"
  let found := selection m query
  let solved := solve m query found.selected
    (found.frontier.insertMany (unknownFrontier m found.selected))
  return {
    schema := valueQuerySchema
    policy := nullnessPolicy
    calculationAuthority := "DECLARED_MODEL_EQUATIONS"
    modelDigest := digest m
    binding := m.binding
    query := query
    programSemanticClosure := false
    equationsConverged := solved.converged
    observations := solved.state.toList.map (observation m)
    frontier := solved.frontier.toList
    transferCount := query.maxTransfers - solved.remaining }

end Codeclew.Values
