import Codeclew.Values.Analyze

/-!
# Composition of calls

A program is a list of functions, each with the equations of its values and the exact calls among
its definitions. `expand` composes one model from them: every call opens a context of its own, in
which the callee's equations stand under new names, its parameters copy the arguments, and the call
copies the callee's result. A call of a function that is being expanded does not open a context; its
arguments are joined into the parameters of the context that is open. A call that has no function in
the closed profile, or for which a budget is too small, stays unknown.
-/

namespace Codeclew.Values

open Std List

def callPolicy : String := "portable-exact-value-calls/0.1"

structure ExactValueCall where
  definition : String
  target : String
  arguments : List String
  deriving DecidableEq, Repr

structure FunctionValues where
  owner : String
  parameters : List String
  model : ValueModel
  calls : List ExactValueCall
  deriving DecidableEq, Repr

structure ValueOrigin where
  definition : String
  owner : String
  localDefinition : String
  deriving DecidableEq, Repr

structure ExpandedValues where
  model : ValueModel
  origins : List ValueOrigin
  summaryKeys : List String
  summaryCacheHits : ℕ
  contextCount : ℕ
  recursiveComponents : List (List String)
  deriving DecidableEq, Repr

/-! ## Documents -/

def ExactValueCall.json (call : ExactValueCall) : Json :=
  .obj [("definition", .str call.definition), ("target", .str call.target),
    ("arguments", jsonTexts call.arguments)]

def FunctionValues.json (f : FunctionValues) : Json :=
  .obj [("owner", .str f.owner), ("parameters", jsonTexts f.parameters), ("model", f.model.json),
    ("calls", .arr (f.calls.map (·.json)))]

/-- The hash of a value's canonical form. -/
def canonicalHash [Sha256] (j : Json) : String := hashBytes j.sortValue.bytes

/-- The texts of the two modules the summaries are computed by. Their keys cover them. -/
structure Sources where
  valueCalls : String
  values : String

/-! ## Recursive components -/

abbrev CallGraph := List (String × List String)

def CallGraph.next (graph : CallGraph) (owner : String) : List String :=
  ((graph.find? fun edge ↦ edge.1 = owner).map (·.2)).getD []

/-- Visit what can be reached from `owner`, each owner after what it reaches. A visit is no deeper
than there are owners. -/
def visit (graph : CallGraph) : (depth : ℕ) → String → List String × List String →
    List String × List String
  | 0, _, found => found
  | depth + 1, owner, (seen, order) =>
    if owner ∈ seen then (seen, order)
    else
      let (seen, order) :=
        (graph.next owner).foldl (fun found next ↦ visit graph depth next found)
          (owner :: seen, order)
      (seen, order ++ [owner])

/-- The owners in order, with the functions they call. -/
def callGraph (functions : List FunctionValues) : CallGraph :=
  (functions.mergeSort fun f g ↦ f.owner ≤ g.owner).map fun f ↦
    (f.owner, (f.calls.map (·.target)).filter fun target ↦ functions.any (·.owner = target))

def reverseGraph (graph : CallGraph) : CallGraph :=
  graph.map fun edge ↦
    (edge.1, graph.flatMap fun caller ↦
      (caller.2.filter (· = edge.1)).map fun _ ↦ caller.1)

/-- The groups of functions that call each other, and the functions that call themselves. -/
def recursiveComponents (functions : List FunctionValues) : List (List String) :=
  let graph := callGraph functions
  let reverse := reverseGraph graph
  let depth := graph.length + 1
  let order := (graph.foldl (fun found edge ↦ visit graph depth edge.1 found) ([], [])).2
  let groups := (order.reverse.foldl (fun (found : List String × List (List String)) owner ↦
    if owner ∈ found.1 then found
    else
      let (seen, group) := visit reverse depth owner (found.1, [])
      (seen, found.2 ++ [group.insertionSort (· ≤ ·)])) ([], [])).2
  (groups.filter fun group ↦ 1 < group.length ||
    group.any fun owner ↦ owner ∈ graph.next owner).insertionSort (· ≤ ·)

/-! ## Names of contexts -/

/-- The name of a definition in a context; those of the entry keep their own. -/
def scopedId (context : ℕ) (id : String) : String :=
  if context = 0 then id else "c" ++ toString context ++ "/" ++ id

def remap (op : ValueOperation) (context : ℕ) : ValueOperation :=
  match op with
  | .copy value => .copy (scopedId context value)
  | .coalesce left right => .coalesce (scopedId context left) (scopedId context right)
  | .join values => .join (values.map (scopedId context))
  | op => op

/-- The name under which what a parameter was before it is joined is kept. -/
def incoming (parameter : String) : String := parameter ++ "/incoming"

/-! ## Relevance -/

def FunctionValues.call? (f : FunctionValues) (definition : String) : Option ExactValueCall :=
  f.calls.find? fun call ↦ call.definition = definition

/-- What a node of a function depends on. -/
def FunctionValues.dependencies (f : FunctionValues) (n : ValueNode) : List String :=
  n.operation.operands ++ n.guards ++ ((f.call? n.id).map (·.arguments)).getD []

/-- The cost of the nodes that are not gathered yet. -/
def ungathered (f : FunctionValues) (selected : Names) : ℕ :=
  Worklist.openCost f.model.nodes (fun n ↦ (f.dependencies n).length)
    (fun n ↦ selected.contains n.id)

-- the equations of the matches are used in the proof of termination
set_option linter.unusedVariables false in
/-- Gather the pending definitions, the last one first, and what they depend on. -/
def gather (f : FunctionValues) (pending : List String) (selected : Names) : Names :=
  match pending with
  | [] => selected
  | id :: pending =>
    if hs : selected.contains id then gather f pending selected
    else
      match hn : f.model.node? id with
      | none => gather f pending selected
      | some n => gather f ((f.dependencies n).reverse ++ pending) (selected.insert id)
termination_by ungathered f selected + pending.length
decreasing_by
  · simp
  · simp
  · have heq : n.id = id := by simpa using List.find?_some hn
    have hcost : ungathered f (selected.insert id) + ((f.dependencies n).length + 1)
        ≤ ungathered f selected := by
      refine Worklist.openCost_visit (fun x hx ↦ ?_) (mem_of_find?_eq_some hn) ?_ ?_
      · simp only [ExtTreeSet.contains_insert, hx, Bool.or_true]
      · rw [heq]
        exact Bool.eq_false_iff.mpr hs
      · simp [heq]
    simp only [length_append, length_reverse, length_cons]
    omega

/-- The definitions that matter to `target`, and the parameters. -/
def relevant (f : FunctionValues) (target : String) : Names :=
  (gather f [target] ∅).insertMany f.parameters

/-! ## Checks of a program -/

def function? (functions : List FunctionValues) (owner : String) : Option FunctionValues :=
  functions.find? fun f ↦ f.owner = owner

def isParameter (op : ValueOperation) : Bool := op = .input || op = .nonNull

def checkCall (functions : List FunctionValues) (f : FunctionValues) (call : ExactValueCall) :
    Except String Unit := do
  ensure (text call.target ∧ (f.model.node? call.definition).any (·.operation.boundary?.isSome) ∧
    call.arguments.length ≤ 128 ∧ ∀ a ∈ call.arguments, (f.model.node? a).isSome)
    "invalid exact call transfer"
  ensure (∀ target ∈ function? functions call.target,
    target.parameters.length = call.arguments.length) "exact call arity differs from callee"

def checkFunction (functions : List FunctionValues) (binding : ModelBinding) (f : FunctionValues) :
    Except String Unit := do
  f.model.validate
  ensure (text f.owner ∧ f.model.binding = binding) "foreign direct-call program binding"
  ensure ((f.model.node? "result").isSome ∧ f.parameters.length ≤ 128 ∧ f.calls.length ≤ 128 ∧
    f.parameters.Nodup ∧
    (∀ p ∈ f.parameters, (f.model.node? p).any fun n ↦ isParameter n.operation) ∧
    (f.calls.map (·.definition)).Nodup) "invalid function parameter or call definitions"
  f.calls.forM (checkCall functions f)

/-! ## Eligible functions -/

/-- A function with a transfer that is not modelled, or with a call that leaves the profile. -/
def rejects (functions : List FunctionValues) (eligible : List String) (owner : String) : Bool :=
  (function? functions owner).any fun f ↦
    f.model.nodes.any (fun n ↦ n.operation.boundary?.isSome && (f.call? n.id).isNone) ||
      f.calls.any fun call ↦ call.target ∉ eligible

def rejected (functions : List FunctionValues) (eligible : List String) : List String :=
  eligible.filter (rejects functions eligible)

def retained (functions : List FunctionValues) (eligible : List String) : List String :=
  eligible.filter (· ∉ rejected functions eligible)

/-- Remove the functions outside the profile, then their callers, until none is left to remove. -/
def settleEligible (functions : List FunctionValues) (eligible : List String) : List String :=
  if rejected functions eligible = [] then eligible
  else settleEligible functions (retained functions eligible)
termination_by eligible.length
decreasing_by
  rename_i hne
  obtain ⟨owner, howner⟩ := exists_mem_of_ne_nil _ hne
  refine length_filter_lt_length_iff_exists.mpr ⟨owner, (mem_filter.mp howner).1, ?_⟩
  simpa using howner

/-! ## Expansion -/

/-- What does not change while a program is expanded. -/
structure Expansion where
  functions : List FunctionValues
  eligible : List String
  maxContexts : ℕ
  maxNodes : ℕ
  programKey : String
  entryTarget : String
  sources : Sources

/-- The entry is expanded for the definition that is asked for, every other context for its
result. -/
def Expansion.selectedTarget (x : Expansion) (context : ℕ) : String :=
  if context = 0 then x.entryTarget else "result"

structure PreparedSummary where
  nodes : List ValueNode
  calls : List ExactValueCall
  key : String
  used : Bool
  deriving DecidableEq, Repr

/-- An owner and the definition that is asked for. -/
abbrev Identity := String × String

def Identity.cmp : Identity → Identity → Ordering :=
  compareLex (compareOn Prod.fst) (compareOn Prod.snd)

instance : TransCmp Identity.cmp := by
  unfold Identity.cmp
  infer_instance

instance : LawfulEqCmp Identity.cmp where
  compare_self := by simp [Identity.cmp, compareLex, compareOn]
  eq_of_compare h := by
    simp only [Identity.cmp, compareLex, compareOn, Ordering.then_eq_eq,
      Std.compare_eq_iff_eq] at h
    exact Prod.ext h.1 h.2

/-- The model so far. -/
structure Builder where
  nodes : ExtTreeMap String ValueNode compare
  origins : ExtTreeMap String ValueOrigin compare
  boundaries : Names
  summaries : ExtTreeMap Identity PreparedSummary Identity.cmp
  hits : ℕ
  contexts : ℕ

namespace Builder

def empty : Builder := ⟨∅, ∅, ∅, ∅, 0, 0⟩

/-- The summary of a function for a target. -/
def summarize [Sha256] (x : Expansion) (f : FunctionValues) (target : String) :
    PreparedSummary where
  nodes := f.model.nodes.filter fun n ↦ n.id ∈ relevant f target
  calls := f.calls.filter fun call ↦ call.definition ∈ relevant f target
  key := canonicalHash (.arr [.str callPolicy, .str x.programKey, .str x.sources.valueCalls,
    .str x.sources.values, f.json, .str target])
  used := false

/-- The summary, which is made once. -/
def prepare [Sha256] (x : Expansion) (f : FunctionValues) (target : String) (b : Builder) :
    PreparedSummary × Builder :=
  match b.summaries[(f.owner, target)]? with
  | some summary => (summary, b)
  | none =>
    let summary := summarize x f target
    (summary, { b with summaries := b.summaries.insert (f.owner, target) summary })

/-- Give a node another operation. -/
def setOperation (id : String) (op : ValueOperation) (b : Builder) : Builder :=
  { b with nodes := b.nodes.modify id fun n ↦ { n with operation := op } }

def unknown (definition code : String) (b : Builder) : Builder :=
  b.setOperation definition (.unknown code)

/-- The nodes of a summary under their names in a context. -/
def placed (context : ℕ) (nodes : List ValueNode) : List (String × ValueNode) :=
  nodes.map fun n ↦ (scopedId context n.id,
    ⟨scopedId context n.id, remap n.operation context, n.evidenceIds,
      n.guards.map (scopedId context)⟩)

def placedOrigins (owner : String) (context : ℕ) (nodes : List ValueNode) :
    List (String × ValueOrigin) :=
  nodes.map fun n ↦ (scopedId context n.id, ⟨scopedId context n.id, owner, n.id⟩)

/-- Copy the arguments to the parameters. -/
def bindParameters (context : ℕ) (bindings : List (String × String)) (b : Builder) : Builder :=
  bindings.foldl (fun b binding ↦ b.setOperation (scopedId context binding.1) (.copy binding.2)) b

/-- Join an argument into a parameter, and keep what the parameter was. -/
def joinParameter (parameter actual : String) (b : Builder) : Builder :=
  match b.nodes[parameter]? with
  | none => b
  | some current =>
    match current.operation with
    | .join values =>
      b.setOperation parameter (.join ((values ++ [actual]).insertionSort (· ≤ ·)).dedup)
    | _ =>
      let seed := incoming parameter
      let kept : Builder := { b with
        nodes := b.nodes.insert seed { current with id := seed }
        origins := match b.origins[parameter]? with
          | some origin => b.origins.insert seed { origin with definition := seed }
          | none => b.origins }
      kept.setOperation parameter (.join (([seed] ++ [actual]).insertionSort (· ≤ ·)).dedup)

/-- The parameters that are not joined yet. -/
def unjoined (b : Builder) (parameters : List String) : ℕ :=
  parameters.countP fun p ↦ !(b.nodes[p]?).any (·.operation.isJoin)

/-- Join the arguments of a call into the parameters of a context that is open. -/
def joinContext (id : String) (ancestor : ℕ) (target : FunctionValues) (arguments : List String)
    (b : Builder) : Builder :=
  let joined := (target.parameters.zip arguments).foldl
    (fun b binding ↦ b.joinParameter (scopedId ancestor binding.1) binding.2) b
  let linked := joined.setOperation id (.copy (scopedId ancestor "result"))
  { linked with boundaries := linked.boundaries.insert "VALUE_RECURSIVE_CONTEXT_JOINED" }

/-- A context that is open: its owner, its target and its number. -/
abbrev Frame := String × String × ℕ

/-- Expand one call of a context. `enter` opens the context of a function with its arguments. -/
def expandCall [Sha256] (x : Expansion)
    (enter : FunctionValues → List String → Builder → ℕ × Builder) (stack : List Frame)
    (context : ℕ) (b : Builder) (call : ExactValueCall) : Builder :=
  let id := scopedId context call.definition
  let arguments := call.arguments.map (scopedId context)
  match function? x.functions call.target with
  | none => b.unknown id "VALUE_CALL_TARGET_OR_PURE_PROFILE_UNAVAILABLE"
  | some target =>
    if call.target ∉ x.eligible then
      b.unknown id "VALUE_CALL_TARGET_OR_PURE_PROFILE_UNAVAILABLE"
    else
      match stack.find? fun frame ↦ frame.1 = call.target && frame.2.1 = "result" with
      | some (_, _, ancestor) =>
        if b.nodes.size + b.unjoined (target.parameters.map (scopedId ancestor)) > x.maxNodes then
          b.unknown id "VALUE_CALL_NODE_BUDGET"
        else b.joinContext id ancestor target arguments
      | none =>
        if b.contexts ≥ x.maxContexts then b.unknown id "VALUE_CALL_CONTEXT_BUDGET"
        else
          let (summary, b) := b.prepare x target "result"
          if b.nodes.size + summary.nodes.length > x.maxNodes then
            b.unknown id "VALUE_CALL_NODE_BUDGET"
          else
            let (callee, b) := enter target arguments b
            b.setOperation id (.copy (scopedId callee "result"))

/-- The nodes of a summary in a new context. -/
def place (f : FunctionValues) (context : ℕ) (target : String) (summary : PreparedSummary)
    (b : Builder) : Builder where
  nodes := b.nodes.insertMany (placed context summary.nodes)
  origins := b.origins.insertMany (placedOrigins f.owner context summary.nodes)
  boundaries := b.boundaries.insertMany f.model.globalBoundaries
  summaries := b.summaries.insert (f.owner, target) { summary with used := true }
  hits := if summary.used then b.hits + 1 else b.hits
  contexts := context + 1

/-- Open a context, and the calls that are to be expanded in it. -/
def openContext [Sha256] (x : Expansion) (f : FunctionValues) (actuals : Option (List String))
    (b : Builder) : List ExactValueCall × Builder :=
  let context := b.contexts
  let (summary, b) := b.prepare x f (x.selectedTarget context)
  let opened := b.place f context (x.selectedTarget context) summary
  (summary.calls, match actuals with
    | none => opened
    | some arguments => opened.bindParameters context (f.parameters.zip arguments))

/-- Open the context of a function and expand its calls. Every context on the way counts against
the budget, so no more than `maxContexts` are open. -/
def instantiate [Sha256] (x : Expansion) : (depth : ℕ) → FunctionValues → Option (List String) →
    List Frame → Builder → ℕ × Builder
  | 0, _, _, _, b => (b.contexts, b)
  | depth + 1, f, actuals, stack, b =>
    let context := b.contexts
    let (calls, opened) := b.openContext x f actuals
    let frames := (f.owner, x.selectedTarget context, context) :: stack
    (context, calls.foldl (expandCall x
      (fun g arguments b ↦ instantiate x depth g (some arguments) frames b) frames context) opened)

end Builder

/-- The model of an entry without the target: what is asked for is not there. -/
def unexpanded (functions : List FunctionValues) (entry : FunctionValues) : ExpandedValues where
  model := entry.model
  origins := entry.model.nodes.map fun n ↦ ⟨n.id, entry.owner, n.id⟩
  summaryKeys := []
  summaryCacheHits := 0
  contextCount := 0
  recursiveComponents := recursiveComponents functions

/-- The model of what was built. -/
def composed [Sha256] (binding : ModelBinding) (b : Builder) : ValueModel where
  schema := valueModelSchema
  binding := { binding with
    producer := callPolicy
    policyDigest := hashBytes (Json.encodeUtf8 (chars callPolicy)) }
  nodes := b.nodes.toList.map (·.2)
  globalBoundaries := b.boundaries.toList

/-- Compose the functions that a definition of the entry depends on. -/
def expand [Sha256] (sources : Sources) (functions : List FunctionValues) (owner target : String)
    (maxContexts maxNodes : ℕ) : Except String ExpandedValues := do
  ensure (text target ∧ functions ≠ [] ∧ functions.length ≤ 256 ∧ maxContexts ≠ 0 ∧
    maxContexts ≤ 128 ∧ maxNodes ≠ 0 ∧ maxNodes ≤ maxModelNodes)
      "invalid direct-call program budget"
  ensure (functions.map (·.owner)).Nodup "ambiguous function owner"
  match function? functions owner with
  | none => throw "missing direct-call entry owner"
  | some entry =>
    functions.forM (checkFunction functions entry.model.binding)
    if (entry.model.node? target).isNone then return unexpanded functions entry
    else
      ensure ((relevant entry target).size ≤ maxNodes) "entry model exceeds expansion node budget"
      let x : Expansion := {
        functions := functions
        eligible := settleEligible functions (functions.map (·.owner))
        maxContexts := maxContexts
        maxNodes := maxNodes
        programKey := canonicalHash (.arr [.str callPolicy, .arr (functions.map (·.json))])
        entryTarget := target
        sources := sources }
      let built := (Builder.empty.instantiate x maxContexts entry none []).2
      let model := composed entry.model.binding built
      model.validate
      return {
        model := model
        origins := built.origins.toList.map (·.2)
        summaryKeys := (built.summaries.toList.filter (·.2.used)).map (·.2.key)
        summaryCacheHits := built.hits
        contextCount := built.contexts
        recursiveComponents := recursiveComponents functions }

end Codeclew.Values
