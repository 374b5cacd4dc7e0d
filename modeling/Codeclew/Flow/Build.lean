import Codeclew.Collections
import Codeclew.Program
import Codeclew.State

/-!
# Flow slices

A flow slice is what can be reached from one declaration by the uses that the facts of a fact set
record. It is built by a breadth-first traversal. A use that leads out of what is known exactly, or
beyond a budget, is not followed but leaves a boundary; a use that a declared topology hands to
another component leads to a node that is not followed further.

The facts are given as they are after reading the shards. What the files of a control-flow catalogue
hold besides the identities of their nodes is not looked into.
-/

namespace Codeclew.Flow

open Std

/-! ## Facts -/

inductive RelationshipAuthority where
  | verifiedSameSnapshotCompilationDependency
  | declaredTopology
  | unbound
  deriving DecidableEq, Repr

inductive TargetResolution where
  | exactSymbol
  | callableFamily
  deriving DecidableEq, Repr

/-- Where a fact comes from. The fields that are only written out are kept as they are written. -/
structure CallableFactProvenance where
  memberAlias : String
  repositoryNamespace : String
  inputPayloadRef : Json
  source : Option Json
  others : List (String × Json)

structure DeclarationFact where
  factId : String
  provenance : CallableFactProvenance
  symbolIdentity : String
  compilerCallableId : Option String
  exactEligible : Bool

structure UseFact where
  factId : String
  provenance : CallableFactProvenance
  relationKind : String
  sourceOwner : String
  targetCallableId : String
  targetSymbolIdentity : Option String
  targetRepositoryNamespace : Option String
  targetResolution : TargetResolution
  relationshipAuthority : RelationshipAuthority
  relationEvidence : Json

structure BoundaryFact where
  factId : String
  provenance : CallableFactProvenance
  code : String
  subject : Option String
  requiredChecks : List String

inductive CallableFact where
  | declaration (row : DeclarationFact)
  | use (row : UseFact)
  | boundary (row : BoundaryFact)

/-- A fact, with the reference of the shard that has it. -/
structure IndexedFact where
  fact : CallableFact
  shardRef : Json

structure FlowSupportRef where
  factId : String
  factShardRef : Json
  provenance : CallableFactProvenance
  inputPayloadRef : Json
  source : Option Json

def CallableFact.factId : CallableFact → String
  | .declaration row => row.factId
  | .use row => row.factId
  | .boundary row => row.factId

def CallableFact.provenance : CallableFact → CallableFactProvenance
  | .declaration row => row.provenance
  | .use row => row.provenance
  | .boundary row => row.provenance

def IndexedFact.support (indexed : IndexedFact) : FlowSupportRef where
  factId := indexed.fact.factId
  factShardRef := indexed.shardRef
  provenance := indexed.fact.provenance
  inputPayloadRef := indexed.fact.provenance.inputPayloadRef
  source := indexed.fact.provenance.source

structure CallablePairBinding where
  pairId : String
  providerMember : String
  consumerMember : String
  relationshipAuthority : RelationshipAuthority

structure CallableMemberBinding where
  memberAlias : String
  serviceAlias : String
  repositoryNamespace : String

/-- A fact set that has been verified: its members have names and namespaces of their own, and no
two facts have one identifier. -/
structure FactSet where
  threadId : String
  threadAuthorityDigest : String
  authorityDigest : String
  factSetId : String
  pairs : List CallablePairBinding
  members : List CallableMemberBinding
  facts : List IndexedFact
  unsure : Bool
  distinctAliases : (members.map (·.memberAlias)).Nodup
  distinctNamespaces : (members.map (·.repositoryNamespace)).Nodup
  distinctFacts : (facts.map (·.fact.factId)).Nodup

/-- A row of a fact set, with the support it gives. -/
structure Cited (α : Type) where
  row : α
  support : FlowSupportRef

/-- A member and a symbol of it. -/
abbrev Key := String × String

def DeclarationFact.key (row : DeclarationFact) : Key :=
  (row.provenance.memberAlias, row.symbolIdentity)

def UseFact.owner (row : UseFact) : Key := (row.provenance.memberAlias, row.sourceOwner)

namespace FactSet

variable (set : FactSet)

/-- The declarations that are known exactly. -/
def exactDeclarations : List (Cited DeclarationFact) :=
  set.facts.filterMap fun indexed ↦
    match indexed.fact with
    | .declaration row => if row.exactEligible then some ⟨row, indexed.support⟩ else none
    | _ => none

def allUses : List (Cited UseFact) :=
  set.facts.filterMap fun indexed ↦
    match indexed.fact with
    | .use row => some ⟨row, indexed.support⟩
    | _ => none

def allBoundaries : List (Cited BoundaryFact) :=
  set.facts.filterMap fun indexed ↦
    match indexed.fact with
    | .boundary row => some ⟨row, indexed.support⟩
    | _ => none

def declarations (key : Key) : List (Cited DeclarationFact) :=
  set.exactDeclarations.filter fun d ↦ d.row.key = key

/-- The declarations of a member that the compiler gives one name. -/
def callableFamily (memberAlias callableId : String) : List (Cited DeclarationFact) :=
  set.exactDeclarations.filter fun d ↦
    d.row.provenance.memberAlias = memberAlias ∧ d.row.compilerCallableId = some callableId

def uses (owner : Key) : List (Cited UseFact) := set.allUses.filter fun u ↦ u.row.owner = owner

def member? (memberAlias : String) : Option CallableMemberBinding :=
  set.members.find? (·.memberAlias = memberAlias)

/-- The member with a namespace. -/
def memberIn? (repositoryNamespace : String) : Option CallableMemberBinding :=
  set.members.find? (·.repositoryNamespace = repositoryNamespace)

end FactSet

/-! ## Slices -/

inductive FlowOrderAuthority where
  | unorderedStaticRelation
  | compilerCfg
  | unknown
  deriving DecidableEq, Repr

inductive FlowStatus where
  | complete
  | truncated
  deriving DecidableEq, Repr

inductive FlowCertainty where
  | verified
  | unsure
  deriving DecidableEq, Repr

structure FlowBudgets where
  maxDepth : ℕ
  maxNodes : ℕ
  maxEdges : ℕ
  maxBoundaries : ℕ
  maxStdoutBytes : ℕ
  maxSliceBytes : ℕ
  deriving DecidableEq, Repr

def maxFlowDepth : ℕ := 32

/-- The budgets of a depth; the others are fixed. -/
def FlowBudgets.profile (maxDepth : ℕ) : FlowBudgets where
  maxDepth
  maxNodes := 4096
  maxEdges := 8192
  maxBoundaries := 4096
  maxStdoutBytes := 64 * 1024
  maxSliceBytes := 64 * 1024 * 1024

structure FlowRequest where
  threadId : String
  threadAuthorityDigest : String
  factSetId : String
  factSetAuthorityDigest : String
  pairId : String
  memberAlias : String
  root : String
  budgets : FlowBudgets

def FlowBudgets.validate (budgets : FlowBudgets) : Except ClewError Unit :=
  ensure (budgets.maxDepth ≠ 0 ∧ budgets.maxDepth ≤ maxFlowDepth ∧
    budgets = FlowBudgets.profile budgets.maxDepth)
    (invalid "flow budgets differ from the frozen profile")

inductive FlowNodeKind where
  | callable
  | boundary
  deriving DecidableEq, Repr

structure FlowNode where
  nodeId : String
  nodeKind : FlowNodeKind
  memberAlias : String
  serviceAlias : String
  repositoryNamespace : String
  symbolIdentity : String
  depth : ℕ
  orderAuthority : FlowOrderAuthority
  supportRefs : List FlowSupportRef

def FlowNode.key (node : FlowNode) : Key := (node.memberAlias, node.symbolIdentity)

structure FlowEdge where
  edgeId : String
  sourceNodeId : String
  targetNodeId : String
  source : CallableMemberBinding
  target : CallableMemberBinding
  relationKind : String
  relationshipAuthority : RelationshipAuthority
  orderAuthority : FlowOrderAuthority
  cfgGraphId : Option String
  cfgNodeIds : List UInt64
  supportRefs : List FlowSupportRef

structure FlowBoundary where
  boundaryId : String
  code : String
  subject : String
  requiredChecks : List String
  supportRefs : List FlowSupportRef

/-- The control flow of one callable. -/
structure LocalCfg where
  graphId : String
  nodeIds : List UInt64
  payload : Json
  support : Json

abbrev LocalCfgCatalog := Key → Option LocalCfg

structure FlowControlRegion where
  regionId : String
  ownerNodeId : String
  graph : LocalCfg

structure FlowSlice where
  request : FlowRequest
  rootNodeId : String
  nodes : List FlowNode
  edges : List FlowEdge
  boundaries : List FlowBoundary
  controlFlowRegions : List FlowControlRegion
  status : FlowStatus
  certainty : FlowCertainty
  verificationObligations : List String

/-! ## Identifiers -/

def CallableFactProvenance.json (p : CallableFactProvenance) : Json :=
  .obj ([("memberAlias", .str p.memberAlias), ("repositoryNamespace", .str p.repositoryNamespace),
    ("inputPayloadRef", p.inputPayloadRef)] ++ p.others ++
    (p.source.map fun source ↦ ("source", source)).toList)

def FlowSupportRef.json (r : FlowSupportRef) : Json :=
  .obj ([("factId", .str r.factId), ("factShardRef", r.factShardRef),
    ("provenance", r.provenance.json), ("inputPayloadRef", r.inputPayloadRef)] ++
    (r.source.map fun source ↦ ("source", source)).toList)

/-- What the identifier of a callable is made from. -/
def callableMaterial (memberAlias repositoryNamespace symbol : String) : Json :=
  .obj [("member", .str memberAlias), ("repository", .str repositoryNamespace),
    ("symbol", .str symbol)]

def handoffMaterial (member : CallableMemberBinding) (targetCallableId : String) : Json :=
  .obj [("kind", .str "DECLARED_TOPOLOGY_BOUNDARY"), ("member", .str member.memberAlias),
    ("service", .str member.serviceAlias), ("repository", .str member.repositoryNamespace),
    ("callableFamily", .str targetCallableId)]

def callMaterial (source target factId : String) : Json :=
  .obj [("source", .str source), ("target", .str target), ("fact", .str factId)]

def handoffEdgeMaterial (source target factId : String) : Json :=
  .obj [("source", .str source), ("target", .str target), ("fact", .str factId),
    ("authority", .str "DECLARED_TOPOLOGY")]

section Build

variable [Sha256]

/-- A name for a value, from the digest of its canonical form. -/
def stableId (tag : String) (value : Json) : String :=
  tag ++ ":" ++ digestHex (Sha256.digest value.sortValue.bytes)

variable (set : FactSet)

def callableNode (d : Cited DeclarationFact) (depth : ℕ) : Except ClewError FlowNode :=
  match set.member? d.row.provenance.memberAlias with
  | none => .error (corrupt "callable declaration has no member authority")
  | some member =>
    if member.repositoryNamespace ≠ d.row.provenance.repositoryNamespace then
      .error (corrupt "callable declaration repository namespace differs from member authority")
    else .ok {
      nodeId := stableId "flow-node" (callableMaterial d.row.provenance.memberAlias
        d.row.provenance.repositoryNamespace d.row.symbolIdentity)
      nodeKind := .callable
      memberAlias := d.row.provenance.memberAlias
      serviceAlias := member.serviceAlias
      repositoryNamespace := d.row.provenance.repositoryNamespace
      symbolIdentity := d.row.symbolIdentity
      depth
      orderAuthority := .unorderedStaticRelation
      supportRefs := [d.support] }

def declaredHandoffNode (member : CallableMemberBinding) (targetCallableId : String) (depth : ℕ) :
    FlowNode where
  nodeId := stableId "flow-node" (handoffMaterial member targetCallableId)
  nodeKind := .boundary
  memberAlias := member.memberAlias
  serviceAlias := member.serviceAlias
  repositoryNamespace := member.repositoryNamespace
  symbolIdentity := targetCallableId
  depth
  orderAuthority := .unknown
  supportRefs := []

/-! ## The traversal -/

/-- A budget that cut something off. -/
inductive Truncation where
  | depth
  | nodes
  | edges
  deriving DecidableEq, Repr

/-- Where the traversal stands. Of the truncations the code keeps only whether there are any. -/
structure Progress where
  nodes : ExtTreeMap String FlowNode
  edges : ExtTreeMap String FlowEdge
  boundaries : ExtTreeMap String FlowBoundary
  obligations : ExtTreeSet String
  truncations : List Truncation
  queue : List (Key × ℕ)
  visited : List Key

def nodeForSymbol (nodes : ExtTreeMap String FlowNode) (key : Key) : Option FlowNode :=
  (nodes.toList.map Prod.snd).find? fun node ↦
    decide (node.memberAlias = key.1 ∧ node.symbolIdentity = key.2 ∧ node.nodeKind = .callable)

variable (request : FlowRequest)

def addBoundary (p : Progress) (code subject : String) (requiredChecks : List String)
    (supportRefs : List FlowSupportRef) : Except ClewError Progress :=
  let requiredChecks := KeyedSet.ofList id requiredChecks
  let supportRefs := supportRefs.mergeSort fun left right ↦ left.factId ≤ right.factId
  let boundaryId := stableId "flow-boundary" (.obj [("member", .str request.memberAlias),
    ("code", .str code), ("subject", .str subject), ("support", .arr (supportRefs.map (·.json)))])
  if p.boundaries.contains boundaryId = false ∧
      request.budgets.maxBoundaries ≤ p.boundaries.size then
    .error ⟨.sliceBudgetExceeded, "flow boundary budget exceeded"⟩
  else .ok { p with
    boundaries := p.boundaries.insertIfNew boundaryId
      ⟨boundaryId, code, subject, requiredChecks, supportRefs⟩
    obligations := p.obligations.insertMany requiredChecks }

/-- What a use leads to: nothing that is followed, another component, or a declaration. -/
inductive Resolution where
  | stop (code subject check : String)
  | handoff (source target : CallableMemberBinding)
  | call (source : CallableMemberBinding) (target : Cited DeclarationFact)

/-- The one declared pair in which a member consumes. -/
def declaredPair? (selectedPair : CallablePairBinding) (sourceMember : String) : Bool :=
  let declaredPairs := set.pairs.filter fun pair ↦
    pair.consumerMember = sourceMember ∧ pair.relationshipAuthority = .declaredTopology
  selectedPair.relationshipAuthority == .declaredTopology &&
    declaredPairs.map (·.pairId) == [selectedPair.pairId]

def requireMember (memberAlias message : String) : Except ClewError CallableMemberBinding :=
  match set.member? memberAlias with
  | some member => .ok member
  | none => .error (corrupt message)

def resolveHandoff (selectedPair : CallablePairBinding) (sourceMember : String) (row : UseFact) :
    Except ClewError Resolution :=
  if declaredPair? set selectedPair sourceMember = false then
    .ok (.stop "AMBIGUOUS_DECLARED_TOPOLOGY_HANDOFF" row.targetCallableId
      "DISAMBIGUATE_DECLARED_COMPONENT_PAIR")
  else if sourceMember ≠ selectedPair.consumerMember then
    .ok (.stop "DECLARED_TOPOLOGY_DIRECTION_MISMATCH" row.targetCallableId
      "VERIFY_DECLARED_CONSUMER_PROVIDER_DIRECTION")
  else do
    let target ← requireMember set selectedPair.providerMember
      "selected provider has no callable authority"
    let source ← requireMember set sourceMember "flow source has no callable authority"
    return .handoff source target

def UseFact.exactTarget (row : UseFact) : Option String :=
  if row.targetResolution = .exactSymbol then row.targetSymbolIdentity else none

def resolveCall (sourceMember : String) (row : UseFact) : Except ClewError Resolution :=
  match row.exactTarget with
  | none => .ok (.stop "UNRESOLVED_TARGET" row.targetCallableId "RESOLVE_EXACT_FULL_SYMBOL")
  | some targetSymbol =>
    match set.declarations (sourceMember, targetSymbol) with
    | [] => .ok (.stop "MISSING_TARGET_DECLARATION" targetSymbol
        "VERIFY_TARGET_DECLARATION_IN_RETAINED_FACT_SET")
    | [target] => do
      let source ← requireMember set sourceMember "flow source has no callable authority"
      return .call source target
    | _ :: _ :: _ => .ok (.stop "AMBIGUOUS_TARGET_DECLARATION" targetSymbol
        "DISAMBIGUATE_TARGET_FULL_SYMBOL")

/-- The member whose namespace a use points to. -/
def targetMember (row : UseFact) : Option String :=
  (row.targetRepositoryNamespace.bind set.memberIn?).map (·.memberAlias)

def sameMember (sourceMember : String) (row : UseFact) : Bool :=
  targetMember set row == some sourceMember &&
    row.relationshipAuthority == .verifiedSameSnapshotCompilationDependency

def resolveUse (selectedPair : CallablePairBinding) (sourceMember : String) (row : UseFact) :
    Except ClewError Resolution :=
  let subject := row.exactTarget.getD row.targetCallableId
  if sameMember set sourceMember row then resolveCall set sourceMember row
  else if (targetMember set row).any
      (· ∉ [selectedPair.providerMember, selectedPair.consumerMember]) then
    .ok (.stop "TARGET_OUTSIDE_SELECTED_PAIR" subject "SELECT_PAIR_CONTAINING_TARGET_MEMBER")
  else
    match row.relationshipAuthority with
    | .verifiedSameSnapshotCompilationDependency =>
      .ok (.stop "UNSUPPORTED_EXACT_PAIR_DEPENDENCY" subject "VERIFY_PAIR_DEPENDENCY_OUTSIDE_V1")
    | .declaredTopology => resolveHandoff set selectedPair sourceMember row
    | .unbound =>
      .ok (.stop "UNBOUND_COMPONENT_TARGET" row.targetCallableId "BIND_TARGET_TO_SELECTED_PAIR")

/-- The node that a traversal is at. -/
structure At where
  node : FlowNode
  key : Key
  depth : ℕ

/-- List a node, if the budgets allow for it, and go on to the edge. -/
def join (here : At) (use : Cited UseFact) (subject : String) (node : FlowNode) (p : Progress)
    (link : Progress → Except ClewError Progress) : Except ClewError Progress :=
  if p.nodes.contains node.nodeId = false ∧ request.budgets.maxNodes ≤ p.nodes.size then
    addBoundary request { p with truncations := .nodes :: p.truncations }
      "FLOW_NODE_BUDGET_TRUNCATED" subject ["SELECT_NARROWER_ROOT"] [use.support]
  else
    let p := { p with nodes := p.nodes.insertIfNew node.nodeId node }
    if request.budgets.maxEdges ≤ p.edges.size then
      addBoundary request { p with truncations := .edges :: p.truncations }
        "FLOW_EDGE_BUDGET_TRUNCATED" here.key.2 ["SELECT_NARROWER_ROOT"] [use.support]
    else link p

def relationCfgNodes (row : UseFact) (graph : LocalCfg) : Option (List UInt64) :=
  if (row.relationEvidence.get? "orderProvenance").bind Json.asStr? = some "K2_FIR_CFG" then
    (((row.relationEvidence.get? "cfgNodeIds").bind Json.asArr?).bind
      fun values ↦ values.mapM Json.asU64?).filter
      fun values ↦ decide (values ≠ [] ∧ values.IsChain (· < ·) ∧ ∀ v ∈ values, v ∈ graph.nodeIds)
  else none

/-- The order of an edge among the others of its source. -/
structure Order where
  graphId : Option String
  nodeIds : List UInt64
  authority : FlowOrderAuthority

def orderOf (cfg : Option LocalCfgCatalog) (here : At) (use : Cited UseFact) (p : Progress) :
    Except ClewError (Order × Progress) :=
  match cfg with
  | none => .ok (⟨none, [], .unorderedStaticRelation⟩, p)
  | some catalog =>
    match catalog here.key with
    | none => .ok (⟨none, [], .unknown⟩, p)
    | some graph =>
      match relationCfgNodes use.row graph with
      | some nodeIds => .ok (⟨some graph.graphId, nodeIds, .compilerCfg⟩, p)
      | none => do
        let p ← addBoundary request p "VERIFY_CONTROL_FLOW_ORDER" here.key.2
          ["VERIFY_CONTROL_FLOW_ORDER"] [use.support]
        return (⟨none, [], .unknown⟩, p)

def handoffEdge (here : At) (use : Cited UseFact) (source target : CallableMemberBinding)
    (targetNodeId : String) : FlowEdge where
  edgeId := stableId "flow-edge"
    (handoffEdgeMaterial here.node.nodeId targetNodeId use.row.factId)
  sourceNodeId := here.node.nodeId
  targetNodeId
  source
  target
  relationKind := use.row.relationKind
  relationshipAuthority := .declaredTopology
  orderAuthority := .unknown
  cfgGraphId := none
  cfgNodeIds := []
  supportRefs := [use.support]

def callEdge (here : At) (use : Cited UseFact) (source : CallableMemberBinding)
    (targetNodeId : String) (order : Order) : FlowEdge where
  edgeId := stableId "flow-edge" (callMaterial here.node.nodeId targetNodeId use.row.factId)
  sourceNodeId := here.node.nodeId
  targetNodeId
  source
  target := source
  relationKind := use.row.relationKind
  relationshipAuthority := use.row.relationshipAuthority
  orderAuthority := order.authority
  cfgGraphId := order.graphId
  cfgNodeIds := order.nodeIds
  supportRefs := [use.support]

def Progress.addEdge (p : Progress) (edge : FlowEdge) : Progress :=
  { p with edges := p.edges.insertIfNew edge.edgeId edge }

/-- Queue a callable the first time it is met. -/
def Progress.visit (p : Progress) (key : Key) (depth : ℕ) : Progress :=
  if key ∈ p.visited then p
  else { p with visited := p.visited ++ [key], queue := p.queue ++ [(key, depth)] }

variable (selectedPair : CallablePairBinding) (cfg : Option LocalCfgCatalog)

def followUse (here : At) (p : Progress) (use : Cited UseFact) : Except ClewError Progress := do
  match ← resolveUse set selectedPair here.key.1 use.row with
  | .stop code subject check => addBoundary request p code subject [check] [use.support]
  | .handoff source target =>
    let node := declaredHandoffNode target use.row.targetCallableId (here.depth + 1)
    join request here use use.row.targetCallableId node p fun p ↦
      addBoundary request (p.addEdge (handoffEdge here use source target node.nodeId))
        "DECLARED_TOPOLOGY_HANDOFF" use.row.targetCallableId ["VERIFY_RUNTIME_COMPONENT_HANDOFF"]
        [use.support]
  | .call source target =>
    let node ← callableNode set target (here.depth + 1)
    join request here use target.row.symbolIdentity node p fun p ↦ do
      let (order, p) ← orderOf request cfg here use p
      return (p.addEdge (callEdge here use source node.nodeId order)).visit node.key
        (here.depth + 1)

/-- Declared handoffs come first. -/
def priority (use : Cited UseFact) : ℕ :=
  if use.row.relationshipAuthority = .declaredTopology then 0 else 1

def sortUses (uses : List (Cited UseFact)) : List (Cited UseFact) :=
  uses.mergeSort fun left right ↦ decide (priority left < priority right ∨
    (priority left = priority right ∧ left.row.factId ≤ right.row.factId))

/-- The uses of a callable, if its name is its own. -/
def expand (here : At) (declaration : Cited DeclarationFact) (p : Progress) :
    Except ClewError Progress :=
  match declaration.row.compilerCallableId with
  | none => addBoundary request p "MISSING_SOURCE_CALLABLE_ID" here.key.2
      ["VERIFY_EXACT_SOURCE_CALLABLE_ID"] [declaration.support]
  | some callableId =>
    if (set.callableFamily here.key.1 callableId).length ≠ 1 then
      addBoundary request p "AMBIGUOUS_SOURCE_OWNER_OVERLOAD" callableId
        ["DISAMBIGUATE_RELATION_SOURCE_OVERLOAD"] [declaration.support]
    else
      let outgoing := sortUses (set.uses (here.key.1, callableId))
      if request.budgets.maxDepth ≤ here.depth ∧ outgoing ≠ [] then
        addBoundary request { p with truncations := .depth :: p.truncations }
          "FLOW_DEPTH_TRUNCATED" here.key.2 ["INCREASE_MAX_DEPTH_OR_SELECT_NARROWER_ROOT"] []
      else outgoing.foldlM (followUse set request selectedPair cfg here) p

/-- Take the front of the queue. -/
def step (key : Key) (depth : ℕ) (p : Progress) : Except ClewError Progress :=
  match nodeForSymbol p.nodes key with
  | none => .error (corrupt "flow traversal lost a visited callable node")
  | some node =>
    match set.declarations key with
    | [] => .error (corrupt "visited flow callable lost its declaration")
    | declaration :: _ => expand set request selectedPair cfg ⟨node, key, depth⟩ declaration p

/-- Each step takes a callable off the queue that is not queued again. -/
def traverse : ℕ → Progress → Except ClewError Progress
  | 0, p => .ok p
  | n + 1, p =>
    match p.queue with
    | [] => .ok p
    | (key, depth) :: queue => do
      let p ← step set request selectedPair cfg key depth { p with queue }
      traverse n p

/-! ## The slice -/

def validateRequest (checkIdentity : String → Except ClewError Unit) :
    Except ClewError CallablePairBinding := do
  request.budgets.validate
  checkIdentity request.root
  ensure (request.threadId = set.threadId ∧
    request.threadAuthorityDigest = set.threadAuthorityDigest ∧
    request.factSetAuthorityDigest = set.authorityDigest ∧ request.factSetId = set.factSetId)
    (invalid "flow request is not bound to its callable fact set")
  match set.pairs.find? (·.pairId = request.pairId) with
  | none => .error (invalid "flow request names an unknown selected pair")
  | some pair => do
    ensure (request.memberAlias = pair.providerMember ∨ request.memberAlias = pair.consumerMember)
      (invalid "flow root member is outside the selected pair")
    return pair

def FlowRequest.rootKey (request : FlowRequest) : Key := (request.memberAlias, request.root)

def rootDeclaration : Except ClewError (Cited DeclarationFact) :=
  match set.declarations request.rootKey with
  | [] => .error (invalid "exact flow root declaration was not found")
  | [root] => .ok root
  | _ :: _ :: _ => .error (invalid "exact flow root declaration is ambiguous")

def start (root : FlowNode) : Progress where
  nodes := ExtTreeMap.ofList [(root.nodeId, root)]
  edges := ∅
  boundaries := ∅
  obligations := ∅
  truncations := []
  queue := [(request.rootKey, 0)]
  visited := [request.rootKey]

/-- The support of nodes and edges that has no source. -/
def missingSourceSupport (p : Progress) : List (String × FlowSupportRef) :=
  (p.nodes.toList.flatMap fun (_, node) ↦
    (node.supportRefs.filter (·.source.isNone)).map fun support ↦ (node.symbolIdentity, support)) ++
  (p.edges.toList.flatMap fun (_, edge) ↦
    (edge.supportRefs.filter (·.source.isNone)).map fun support ↦ (edge.sourceNodeId, support))

def noteMissingSource (p : Progress) (missing : String × FlowSupportRef) :
    Except ClewError Progress :=
  addBoundary request p "MISSING_SOURCE_ANCHOR" missing.1 ["VERIFY_EXACT_SOURCE_ANCHOR"] [missing.2]

/-- A boundary of the facts is one of the slice, if it is about a callable that was met. -/
def noteBoundaryFact (visited : List Key) (p : Progress) (boundary : Cited BoundaryFact) :
    Except ClewError Progress :=
  let memberAlias := boundary.row.provenance.memberAlias
  match boundary.row.subject with
  | some subject =>
    if memberAlias ∈ [selectedPair.providerMember, selectedPair.consumerMember] ∧
        (memberAlias, subject) ∈ visited then
      addBoundary request p boundary.row.code subject boundary.row.requiredChecks [boundary.support]
    else .ok p
  | none => .ok p

/-- The control flow of a callable that was met. -/
def addRegion (catalog : LocalCfgCatalog) (state : List FlowControlRegion × Progress) (key : Key) :
    Except ClewError (List FlowControlRegion × Progress) :=
  match nodeForSymbol state.2.nodes key, catalog key with
  | none, _ => .ok state
  | some owner, some graph =>
    let regionId := stableId "flow-cfg-region" (.obj [("ownerNodeId", .str owner.nodeId),
      ("graphId", .str graph.graphId), ("support", graph.support)])
    .ok (state.1 ++ [⟨regionId, owner.nodeId, graph⟩], state.2)
  | some _, none => do
    let p ← addBoundary request state.2 "VERIFY_CONTROL_FLOW_ORDER" key.2
      ["VERIFY_CONTROL_FLOW_ORDER"] []
    return (state.1, p)

def controlFlowRegions (p : Progress) : Except ClewError (List FlowControlRegion × Progress) :=
  match cfg with
  | none => .ok ([], p)
  | some catalog => p.visited.foldlM (addRegion request catalog) ([], p)

/-- What has been found, put in order. -/
def slice (rootNodeId : String) (regions : List FlowControlRegion) (p : Progress) : FlowSlice where
  request
  rootNodeId
  nodes := p.nodes.toList.map Prod.snd
  edges := p.edges.toList.map Prod.snd
  boundaries := p.boundaries.toList.map Prod.snd
  controlFlowRegions := regions.mergeSort fun left right ↦ left.regionId ≤ right.regionId
  status := if p.truncations = [] then .complete else .truncated
  certainty :=
    if p.truncations ≠ [] ∨ p.boundaries.isEmpty = false ∨ set.unsure = true then .unsure
    else .verified
  verificationObligations := p.obligations.toList

/-- The boundaries that are found after the traversal. -/
def noteBoundaries (p : Progress) : Except ClewError Progress := do
  let p ← (missingSourceSupport p).foldlM (noteMissingSource request) p
  set.allBoundaries.foldlM (noteBoundaryFact request selectedPair p.visited) p

/-- What the traversal finds from the root. -/
def explore (root : FlowNode) : Except ClewError Progress :=
  traverse set request selectedPair cfg set.facts.length (start request root)

/-- The slice of a request. The length of a slice is that of its canonical form. -/
def build (checkIdentity : String → Except ClewError Unit) (length : FlowSlice → ℕ) :
    Except ClewError FlowSlice := do
  let selectedPair ← validateRequest set request checkIdentity
  let declaration ← rootDeclaration set request
  let root ← callableNode set declaration 0
  let p ← explore set request selectedPair cfg root
  let p ← noteBoundaries set request selectedPair p
  let (regions, p) ← controlFlowRegions request cfg p
  let slice := slice set request root.nodeId regions p
  ensure (length slice ≤ request.budgets.maxSliceBytes)
    (⟨.sliceBudgetExceeded, "flow slice exceeds retained 64 MiB bound"⟩ : ClewError)
  return slice

end Build

end Codeclew.Flow
