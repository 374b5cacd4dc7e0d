import Codeclew.ControlFlow.Order
import Codeclew.Flow.Build

/-!
# Explanations

An agent explains a flow slice by claims, each of which cites nodes, edges, control-flow regions and
boundaries of the slice. A claim is checked against what it cites, and gets an authority from it.

That one node of a region is ordered before another is accepted if edges lead from the first to the
second and neither is dead. The edges may be dead, and may lead through dead nodes, so that the
order may be one that no live path bears out.
-/

namespace Codeclew.ControlFlow

open Kotlin Search Codeclew.Flow List
open Relation (ReflTransGen TransGen)

/-! ## Slices and claims -/

deriving instance DecidableEq for CallableMemberBinding

structure FlowControlRegion where
  regionId : String
  ownerNodeId : String
  graph : LocalCfgPayload

/-- What an explanation looks at in a slice. -/
structure ExplainedFlow where
  flowId : String
  status : FlowStatus
  nodes : List FlowNode
  edges : List FlowEdge
  controlFlowRegions : List FlowControlRegion
  boundaries : List FlowBoundary

namespace ExplainedFlow

variable (flow : ExplainedFlow) (reference : String)

-- The maps are collected from lists: the last entry with a key stays.

def node? : Option FlowNode := flow.nodes.reverse.find? (·.nodeId = reference)

def edge? : Option FlowEdge := flow.edges.reverse.find? (·.edgeId = reference)

def region? : Option FlowControlRegion :=
  flow.controlFlowRegions.reverse.find? (·.regionId = reference)

def boundary? : Option FlowBoundary := flow.boundaries.reverse.find? (·.boundaryId = reference)

end ExplainedFlow

inductive ClaimAuthority where
  | unknown
  | agentInferred
  | declared
  | staticDerived
  | compilerProven
  deriving DecidableEq, Repr

inductive ClaimPredicate where
  | callExists (subject object : String)
  | constructs (subject object : String)
  | branchExists (subject regionId : String) (branchKind : LocalCfgEdgeKind)
  | orderedBefore (subject regionId : String) (beforeNodeId afterNodeId : UInt64)
  | reachableStaticPath (subject object : String)
  | narrativeSummary (subject : String)
  | componentHandoff (subject object : String)
  deriving DecidableEq, Repr

def ClaimPredicate.subjects : ClaimPredicate → List String
  | .callExists subject object | .constructs subject object | .reachableStaticPath subject object
  | .componentHandoff subject object => [subject, object]
  | .branchExists subject .. | .orderedBefore subject .. | .narrativeSummary subject => [subject]

structure ClaimInput where
  localId : String
  locale : String
  text : String
  predicate : ClaimPredicate
  supportRefs : List String
  boundaryRefs : List String

structure ClaimInputDocument where
  schema : String
  flowId : String
  claims : List ClaimInput

structure ExplanationClaim extends ClaimInput where
  authority : ClaimAuthority

/-! ## Checking one claim -/

section Validate

variable (flow : ExplainedFlow) (input : ClaimInput)

/-- Whether the edges of a graph lead from one node of it to another. -/
def cfgReaches (graph : LocalCfgPayload) (source target : UInt64) : Bool :=
  source ∈ graph.nodeIds && target ∈ graph.nodeIds &&
    -- The loop returns when an edge of the node in turn has the target.
    (spread graph.links (target ∈ successors graph.links ·) [source] [source]).isNone

def requireExactSupport (expected : String) : Except ClewError Unit :=
  ensure (input.supportRefs = [expected])
    (invalid "claim support does not match its predicate region")

/-- The value of a reference, or an error. -/
def found {α : Type} (value : Option α) (error : ClewError) : Except ClewError α :=
  match value with
  | some a => .ok a
  | none => .error error

def validateRelationClaim (subject object expectedKind : String) :
    Except ClewError ClaimAuthority := do
  match input.supportRefs with
  | [reference] =>
    let edge ← found (flow.edge? reference) (invalid "relation claim support is not a flow edge")
    let source ← found (flow.node? edge.sourceNodeId) (corrupt "flow edge has no source node")
    let target ← found (flow.node? edge.targetNodeId) (corrupt "flow edge has no target node")
    ensure (edge.relationKind = expectedKind ∧ source.symbolIdentity = subject ∧
      target.symbolIdentity = object) (invalid "relation claim contradicts its support edge")
    return match edge.relationshipAuthority with
      | .verifiedSameSnapshotCompilationDependency => .compilerProven
      | .declaredTopology => .declared
      | .unbound => .unknown
  | _ => throw (invalid "relation claim requires exactly one flow edge")

def validateStaticPath (subject object : String) : Except ClewError Unit := do
  let path ← input.supportRefs.mapM fun reference ↦
    found (flow.edge? reference) (invalid "static path support contains a non-edge")
  ensure (path.IsChain fun e f ↦ e.targetNodeId = f.sourceNodeId)
    (invalid "static path support is not a continuous edge chain")
  let first ← found (path.head?.bind fun edge ↦ flow.node? edge.sourceNodeId)
    (corrupt "static path has no source node")
  let last ← found (path.getLast?.bind fun edge ↦ flow.node? edge.targetNodeId)
    (corrupt "static path has no target node")
  ensure (first.symbolIdentity = subject ∧ last.symbolIdentity = object)
    (invalid "static path endpoints contradict its predicate")

def validateComponentHandoff (subject object : String) : Except ClewError ClaimAuthority := do
  match input.supportRefs with
  | [reference] =>
    let edge ← found (flow.edge? reference) (invalid "component handoff support is not a flow edge")
    let source ← found (flow.node? edge.sourceNodeId)
      (corrupt "component handoff edge has no source node")
    let target ← found (flow.node? edge.targetNodeId)
      (corrupt "component handoff edge has no target node")
    ensure (source.memberAlias ≠ target.memberAlias ∧ source.serviceAlias = subject ∧
      target.serviceAlias = object ∧
      edge.source = ⟨source.memberAlias, source.serviceAlias, source.repositoryNamespace⟩ ∧
      edge.target = ⟨target.memberAlias, target.serviceAlias, target.repositoryNamespace⟩)
      (invalid "component handoff contradicts its qualified pair edge")
    ensure (edge.relationshipAuthority = .declaredTopology ∧ target.nodeKind = .boundary)
      (invalid "component handoff is not backed by a declared topology boundary")
    return .declared
  | _ => throw (invalid "component handoff requires exactly one pair-scoped edge")

def boundaryAffectsPredicate (predicate : ClaimPredicate) (boundary : FlowBoundary) : Bool :=
  match boundary.code, predicate with
  | "VERIFY_CONTROL_FLOW_ORDER", .orderedBefore .. => true
  | "VERIFY_CONTROL_FLOW_ORDER", _ => false
  | "DECLARED_TOPOLOGY_HANDOFF", .componentHandoff .. => true
  | "DECLARED_TOPOLOGY_HANDOFF", _ => false
  | _, _ => true

def relevantBoundaries : List String :=
  let factIds := input.supportRefs.flatMap fun reference ↦
    ((flow.node? reference).toList.flatMap (·.supportRefs) ++
      (flow.edge? reference).toList.flatMap (·.supportRefs)).map (·.factId)
  (flow.boundaries.filter fun boundary ↦ boundaryAffectsPredicate input.predicate boundary ∧
    (boundary.subject ∈ input.predicate.subjects ∨
      ∃ support ∈ boundary.supportRefs, support.factId ∈ factIds)).map (·.boundaryId)

/-- The authority of the predicate, when nothing speaks against it. -/
def validatePredicate : Except ClewError ClaimAuthority :=
  match input.predicate with
  | .callExists subject object => validateRelationClaim flow input subject object "CALLS"
  | .constructs subject object => validateRelationClaim flow input subject object "CONSTRUCTS"
  | .branchExists subject regionId branchKind => do
    requireExactSupport input regionId
    let region ← found (flow.region? regionId) (invalid "branch claim names an unknown CFG region")
    let owner ← found (flow.node? region.ownerNodeId) (corrupt "CFG region has no owner flow node")
    ensure (owner.symbolIdentity = subject ∧ ∃ edge ∈ region.graph.edges, edge.kind = branchKind)
      (invalid "branch claim contradicts its CFG region")
    return .compilerProven
  | .orderedBefore subject regionId beforeNodeId afterNodeId => do
    requireExactSupport input regionId
    let region ← found (flow.region? regionId) (invalid "order claim names an unknown CFG region")
    let owner ← found (flow.node? region.ownerNodeId) (corrupt "CFG region has no owner flow node")
    ensure (owner.symbolIdentity = subject ∧ beforeNodeId ≠ afterNodeId ∧
      cfgReaches region.graph beforeNodeId afterNodeId = true ∧
      ∀ node ∈ region.graph.nodes,
        node.nodeId = beforeNodeId ∨ node.nodeId = afterNodeId → node.role ≠ .dead)
      (invalid "order claim lacks CFG reachability proof")
    return .staticDerived
  | .reachableStaticPath subject object => do
    ensure (flow.status ≠ .truncated ∧ input.supportRefs ≠ [])
      (invalid "static path claim is empty or uses a truncated flow")
    validateStaticPath flow input subject object
    return .staticDerived
  | .narrativeSummary subject => do
    ensure (input.supportRefs ≠ [] ∨ input.boundaryRefs ≠ [])
      (invalid "narrative claim has no support or boundary ref")
    ensure ((∃ node ∈ flow.nodes, node.symbolIdentity = subject) ∨ input.boundaryRefs ≠ [])
      (invalid "narrative subject is outside its parent flow")
    return if input.supportRefs = [] then .unknown else .agentInferred
  | .componentHandoff subject object => validateComponentHandoff flow input subject object

def validateClaim : Except ClewError ClaimAuthority := do
  ensure (∀ reference ∈ input.supportRefs, (flow.node? reference).isSome ∨
    (flow.edge? reference).isSome ∨ (flow.region? reference).isSome)
    (invalid "claim has a support ref outside its parent flow")
  ensure (∀ reference ∈ input.boundaryRefs, (flow.boundary? reference).isSome)
    (invalid "claim has a boundary ref outside its parent flow")
  let authority ← validatePredicate flow input
  let relevant := relevantBoundaries flow input
  ensure (relevant ⊆ input.boundaryRefs) (invalid "claim omits a relevant flow boundary")
  let onlyDeclaredHandoffs := match input.predicate with
    | .componentHandoff .. => relevant.all fun reference ↦
      (flow.boundary? reference).any (·.code = "DECLARED_TOPOLOGY_HANDOFF")
    | _ => false
  return if relevant ≠ [] ∧ onlyDeclaredHandoffs = false then .unknown else authority

end Validate

/-! ## The explanation -/

def claimInputSchema : String := "codeclew-explanation-claim-input/0.1"
def maxClaims : ℕ := 1024
def maxClaimTextBytes : ℕ := 8 * 1024

def safeLocalId (value : String) : Bool :=
  value ≠ "" && utf8Length (chars value) ≤ 64 &&
    (chars value).all fun c ↦ c.isAlphanum || c = '-' || c = '_'

section Build

variable [UnicodeNormalization]

def validateClaimText (value : String) : Except ClewError Unit :=
  ensure (value ≠ "" ∧ utf8Length (chars value) ≤ maxClaimTextBytes ∧ Char.ofNat 0 ∉ chars value ∧
    UnicodeNormalization.isNfc value = true)
    (invalid "claim text is empty, oversized, non-NFC, or unsafe")

def validateIdentityText (value : String) : Except ClewError Unit :=
  ensure (value ≠ "" ∧ utf8Length (chars value) ≤ 4096 ∧ (chars value).head? ≠ some '-' ∧
    (∀ part ∈ ["../", "/../", "&&", "||", "$(", "\x00", "\x60"], ¬chars part <:+: chars value) ∧
    UnicodeNormalization.isNfc value = true)
    (invalid "claim predicate identity is unsafe")

def uniqueRefs (label : String) (observed : List String) : List String → Except ClewError Unit
  | [] => .ok ()
  | value :: values => do
    validateIdentityText value
    ensure (value ∉ observed) (invalid (label ++ " are not unique"))
    uniqueRefs label (value :: observed) values

def validateClaims (localIds : List String) : List ClaimInput → Except ClewError Unit
  | [] => .ok ()
  | claim :: claims => do
    ensure (safeLocalId claim.localId = true ∧ claim.localId ∉ localIds)
      (invalid "claim local IDs are unsafe or duplicated")
    ensure (claim.locale ∈ ["en", "ru"]) (invalid "claim locale is outside the closed v1 set")
    validateClaimText claim.text
    claim.predicate.subjects.forM validateIdentityText
    uniqueRefs "claim support refs" [] claim.supportRefs
    uniqueRefs "claim boundary refs" [] claim.boundaryRefs
    validateClaims (claim.localId :: localIds) claims

def validateDocument (flow : ExplainedFlow) (document : ClaimInputDocument) :
    Except ClewError Unit := do
  ensure (document.schema = claimInputSchema ∧ document.flowId = flow.flowId)
    (invalid "claim input is bound to another flow")
  ensure (document.claims ≠ [] ∧ document.claims.length ≤ maxClaims)
    (invalid "claim input must contain between one and 1,024 claims")
  validateClaims [] document.claims

def ClaimInput.sorted (claim : ClaimInput) : ClaimInput where
  __ := claim
  supportRefs := match claim.predicate with
    | .reachableStaticPath .. => claim.supportRefs
    | _ => claim.supportRefs.mergeSort (· ≤ ·)
  boundaryRefs := claim.boundaryRefs.mergeSort (· ≤ ·)

/-- The claims of an explanation. Their identifiers are left out, and so is the order that these
bring about. Also left out is that the slice has to be the one of its reference, and the bound of
16 MiB on the bundle. -/
def build (flow : ExplainedFlow) (document : ClaimInputDocument) :
    Except ClewError (List ExplanationClaim) := do
  validateDocument flow document
  let claims := (document.claims.map ClaimInput.sorted).mergeSort (·.localId ≤ ·.localId)
  claims.mapM fun input ↦ do
    let authority ← validateClaim flow input
    return { input with authority }

/-- An explanation has a claim that `a` is ordered before `b` in a region with this graph, and the
claim carries no boundary. -/
def AcceptsOrder (graph : LocalCfgPayload) (a b : UInt64) : Prop :=
  ∃ flow document claims, build flow document = .ok claims ∧
    ∃ claim ∈ claims, claim.boundaryRefs = [] ∧ ∃ subject regionId region,
      claim.predicate = .orderedBefore subject regionId a b ∧
      flow.region? regionId = some region ∧ region.graph = graph

/-! ## Which orders are accepted -/

variable {graph : LocalCfgPayload} {a b : UInt64}

omit [UnicodeNormalization] in
theorem cfgReaches_iff : cfgReaches graph a b = true ↔
    a ∈ graph.nodeIds ∧ b ∈ graph.nodeIds ∧ TransGen (Step graph.links) a b := by
  obtain ⟨hstop, -⟩ := spread_start graph.links (b ∈ successors graph.links ·) a
  rw [cfgReaches, Bool.and_eq_true, Bool.and_eq_true, decide_eq_true_eq, decide_eq_true_eq,
    and_assoc, Option.isNone_iff_eq_none, hstop, Relation.TransGen.tail'_iff]
  simp only [decide_eq_true_eq, mem_successors]

/-- What the check of an order looks for. -/
structure LocalCfgPayload.Ordered (graph : LocalCfgPayload) (a b : UInt64) : Prop where
  ne : a ≠ b
  reaches : cfgReaches graph a b = true
  live : ∀ node ∈ graph.nodes, node.nodeId = a ∨ node.nodeId = b → node.role ≠ .dead

omit [UnicodeNormalization] in
theorem ordered_of_validateClaim {flow : ExplainedFlow} {input : ClaimInput}
    {authority : ClaimAuthority} {subject regionId : String} {region : FlowControlRegion}
    (h : validateClaim flow input = .ok authority)
    (hpredicate : input.predicate = .orderedBefore subject regionId a b)
    (hregion : flow.region? regionId = some region) : region.graph.Ordered a b := by
  rw [validateClaim, ensure_bind_eq_ok_iff, ensure_bind_eq_ok_iff, bind_eq_ok_iff] at h
  obtain ⟨-, -, _, h, -⟩ := h
  rw [validatePredicate, hpredicate] at h
  dsimp only at h
  rw [check_bind_eq_ok_iff, hregion, found, ok_bind, bind_eq_ok_iff] at h
  obtain ⟨-, owner, -, h⟩ := h
  rw [ensure_bind_eq_ok_iff] at h
  obtain ⟨⟨-, hne, hreaches, hlive⟩, -⟩ := h
  exact ⟨hne, hreaches, hlive⟩

/-- The plainest slice with a region. -/
def plainFlow (graph : LocalCfgPayload) : ExplainedFlow where
  flowId := "f"
  status := .complete
  nodes := [⟨"n", .callable, "m", "service", "repository", "s", 0, .compilerCfg, []⟩]
  edges := []
  controlFlowRegions := [⟨"r", "n", graph⟩]
  boundaries := []

def plainOrder (a b : UInt64) : ClaimInput :=
  ⟨"c", "en", "t", .orderedBefore "s" "r" a b, ["r"], []⟩

omit [UnicodeNormalization] in
theorem validateClaim_plainOrder (h : graph.Ordered a b) :
    validateClaim (plainFlow graph) (plainOrder a b) = .ok .staticDerived := by
  have hregion : (plainFlow graph).region? "r" = some ⟨"r", "n", graph⟩ := rfl
  have hpredicate : validatePredicate (plainFlow graph) (plainOrder a b) = .ok .staticDerived := by
    have hsupport : requireExactSupport (plainOrder a b) "r" = .ok () := rfl
    have howner : (plainFlow graph).node? "n" =
        some ⟨"n", .callable, "m", "service", "repository", "s", 0, .compilerCfg, []⟩ := rfl
    rw [validatePredicate]
    change requireExactSupport (plainOrder a b) "r" >>= _ = _
    rw [hsupport, ok_bind, hregion, found, ok_bind, howner, found, ok_bind]
    exact ensure_bind_eq_ok_iff.mpr ⟨⟨rfl, h.ne, h.reaches, h.live⟩, rfl⟩
  rw [validateClaim, ensure_bind_eq_ok_iff, ensure_bind_eq_ok_iff, hpredicate, ok_bind,
    ensure_bind_eq_ok_iff]
  refine ⟨?_, nofun, nofun, rfl⟩
  intro reference hreference
  obtain rfl := mem_singleton.mp hreference
  exact .inr (.inr rfl)

theorem build_plainOrder
    (hnfc : ∀ text : String, (∀ c ∈ text.toList, c.toNat < 128) →
      UnicodeNormalization.isNfc text = true) (h : graph.Ordered a b) :
    build (plainFlow graph) ⟨claimInputSchema, "f", [plainOrder a b]⟩ =
      .ok [{ plainOrder a b with authority := .staticDerived }] := by
  have hplain : ∀ text ∈ ["t", "s", "r"], UnicodeNormalization.isNfc text = true := by
    simp only [forall_mem_cons]
    exact ⟨hnfc _ (by simp), hnfc _ (by simp), hnfc _ (by simp), nofun⟩
  have hidentity : ∀ text ∈ ["s", "r"], validateIdentityText text = .ok () := by
    simp [validateIdentityText, ensure_eq_ok_iff, hplain]
    decide
  have hclaims : validateClaims [] [plainOrder a b] = .ok () := by
    simp [validateClaims, plainOrder, check_bind_eq_ok_iff, ensure_eq_ok_iff, uniqueRefs, hidentity,
      ClaimPredicate.subjects, validateClaimText, hplain]
    decide
  have hsorted : (plainOrder a b).sorted = plainOrder a b := by
    simp [ClaimInput.sorted, plainOrder]
  rw [build, validateDocument, ensure_bind_eq_ok_iff.mpr ⟨⟨rfl, rfl⟩, ensure_bind_eq_ok_iff.mpr
    ⟨⟨cons_ne_nil _ _, by simp [maxClaims]⟩, hclaims⟩⟩, ok_bind]
  simp [hsorted, validateClaim_plainOrder h]

theorem acceptsOrder_iff
    (hnfc : ∀ text : String, (∀ c ∈ text.toList, c.toNat < 128) →
      UnicodeNormalization.isNfc text = true) :
    AcceptsOrder graph a b ↔ graph.Ordered a b := by
  constructor
  · rintro ⟨flow, document, claims, hbuild, claim, hclaim, -, subject, regionId, region, hpredicate,
      hregion, rfl⟩
    rw [build, check_bind_eq_ok_iff] at hbuild
    obtain ⟨input, -, hinput⟩ := exists_of_mem_mapM hbuild.2 hclaim
    obtain ⟨authority, hauthority, heq⟩ := bind_eq_ok_iff.mp hinput
    obtain rfl := Except.ok.inj heq
    exact ordered_of_validateClaim hauthority hpredicate hregion
  · intro h
    exact ⟨_, _, _, build_plainOrder hnfc h, _, mem_singleton_self _, rfl, "s", "r",
      ⟨"r", "n", graph⟩, rfl, rfl, rfl⟩

/-! ## Orders that are accepted and orders that are observed -/

omit [UnicodeNormalization] in
theorem LocalCfgPayload.Live.mem_nodeIds (h : graph.Live a) : a ∈ graph.nodeIds := by
  obtain ⟨node, hnode, rfl, -⟩ := h
  exact mem_map_of_mem hnode

omit [UnicodeNormalization] in
theorem LocalCfgPayload.Shaped.role_ne_dead {node : LocalCfgNode} (h : graph.Shaped)
    (hnode : node ∈ graph.nodes) (hlive : graph.Live node.nodeId) : node.role ≠ .dead := by
  obtain ⟨other, hother, hid, hrole⟩ := hlive
  have hnodup : graph.nodeIds.Nodup := h.nodes.pairwise.imp fun hlt heq ↦ by
    rw [heq] at hlt
    exact UInt64.lt_irrefl _ hlt
  rwa [← inj_on_of_nodup_map hnodup hother hnode hid]

/-- A walk from a node that is reached, over nodes that are not, and back to one that is. -/
def LocalCfgPayload.Detour (graph : LocalCfgPayload) (u v : UInt64) : Prop :=
  graph.LiveReached u ∧ graph.LiveReached v ∧
    ∃ w, ReflTransGen (fun x y ↦ Step graph.links x y ∧ ¬graph.LiveReached y) u w ∧
      Step graph.links w v

omit [UnicodeNormalization] in
/-- If no detour leads anywhere else, walks between nodes that are reached can be made live. -/
theorem liveStep_of_step (hdetour : ∀ u v, graph.Detour u v → ReflTransGen graph.LiveStep u v)
    (ha : graph.LiveReached a) (hb : graph.LiveReached b)
    (hwalk : ReflTransGen (Step graph.links) a b) : ReflTransGen graph.LiveStep a b := by
  -- `u` is the last node on the way that is reached
  have hlast : ∀ {c}, ReflTransGen (Step graph.links) a c →
      ∃ u, graph.LiveReached u ∧ ReflTransGen graph.LiveStep a u ∧
        ReflTransGen (fun x y ↦ Step graph.links x y ∧ ¬graph.LiveReached y) u c := by
    intro c hwalk
    induction hwalk with
    | refl => exact ⟨a, ha, .refl, .refl⟩
    | @tail d c _ hstep ih =>
      obtain ⟨u, hu, hlive, hdead⟩ := ih
      by_cases hc : graph.LiveReached c
      · exact ⟨c, hc, hlive.trans (hdetour u c ⟨hu, hc, d, hdead, hstep⟩), .refl⟩
      · exact ⟨u, hu, hlive, hdead.tail ⟨hstep, hc⟩⟩
  obtain ⟨u, -, hlive, hdead⟩ := hlast hwalk
  rcases hdead.cases_tail with rfl | ⟨c, -, -, hnot⟩
  · exact hlive
  · exact absurd hb hnot

/-- Every accepted order is borne out by what is observed exactly if every detour, through dead
edges or through nodes that live paths do not reach, can be made on a live path as well. -/
theorem acceptedOrder_observed_iff [Sha256] {validateIdentity : String → Except ClewError Unit}
    (hnfc : ∀ text : String, (∀ c ∈ text.toList, c.toNat < 128) →
      UnicodeNormalization.isNfc text = true)
    (hvalid : validate validateIdentity graph = .ok ()) :
    (∀ a b, AcceptsOrder graph a b → ∀ id regionId o,
      observe validateIdentity (some graph) ⟨id, regionId, a, b⟩ = .ok o →
        o.mayReachInActiveCfg ≠ some false) ↔
    ∀ u v, graph.Detour u v → ReflTransGen graph.LiveStep u v := by
  obtain ⟨-, hshaped⟩ := (validate_eq_ok_iff validateIdentity).mp hvalid
  obtain ⟨entry, hentry, hmem, hrole, honly⟩ := graph.exists_entry hshaped.oneEntry
  have hcases := observe_cases entry hvalid hentry hmem hrole honly
  constructor
  · rintro hagree u v ⟨hu, hv, w, hdead, hstep⟩
    by_cases hne : u = v
    · rw [hne]
    have hwalk : TransGen (Step graph.links) u v :=
      .tail' (hdead.lift id fun _ _ h ↦ h.1) hstep
    have hordered : graph.Ordered u v :=
      ⟨hne, cfgReaches_iff.mpr ⟨hu.1.mem_nodeIds, hv.1.mem_nodeIds, hwalk⟩, fun node hnode hid ↦ by
        rcases hid with rfl | rfl
        · exact hshaped.role_ne_dead hnode hu.1
        · exact hshaped.role_ne_dead hnode hv.1⟩
    have hagrees := hagree u v ((acceptsOrder_iff hnfc).mpr hordered) "" ""
    rcases hcases ⟨"", "", u, v⟩ with ⟨-, -, o, ho, hmay, -⟩ | ⟨hnot, -⟩
    · have hanswer := hagrees o ho
      rw [hmay] at hanswer
      exact graph.reaches_iff.mp (by simpa using hanswer)
    · exact absurd ⟨hu, hv⟩ hnot
  · intro hdetour a b haccepts id regionId o ho hfalse
    rcases hcases ⟨id, regionId, a, b⟩ with ⟨ha, hb, o', ho', hmay, -⟩ | ⟨-, o', ho', hmay, -⟩
    · obtain rfl := Except.ok.inj (ho.symm.trans ho')
      have hreaches := (cfgReaches_iff.mp ((acceptsOrder_iff hnfc).mp haccepts).reaches).2.2
      have hlive := graph.reaches_iff.mpr (liveStep_of_step hdetour ha hb hreaches.to_reflTransGen)
      rw [hmay, hlive] at hfalse
      cases hfalse
    · obtain rfl := Except.ok.inj (ho.symm.trans ho')
      rw [hmay] at hfalse
      cases hfalse

end Build

section Example

attribute [local instance] Sha256.standard allNormalized

theorem not_liveStep_branched : ¬ReflTransGen branched.LiveStep 1 2 := by
  intro h
  obtain heq | ⟨_, ⟨edge, hedge, hsource, -, hkind, -⟩, -⟩ := h.cases_head
  · exact absurd heq (by decide)
  · have hdead : ∀ edge ∈ branched.edges, edge.sourceNodeId = 1 → edge.kind = .dead := by decide
    exact hkind (hdead edge hedge hsource)

theorem ordered_branched : branched.Ordered 1 2 := by
  refine ⟨by decide, cfgReaches_iff.mpr ⟨by decide, by decide, .single (by decide)⟩, by decide⟩

theorem liveReached_branched {id : UInt64} (hid : id = 1 ∨ id = 2) : branched.LiveReached id := by
  have hactive : ∀ id ∈ [0, 1, 2], id ∈ branched.active := by
    simp [LocalCfgPayload.active, branched]
  have hlive : ∀ id ∈ [0, 1, 2], branched.Live id := fun id hid ↦
    LocalCfgPayload.mem_active.mp (hactive id hid)
  have hmem : id ∈ [0, 1, 2] := by
    rcases hid with rfl | rfl <;> decide
  refine ⟨hlive id hmem, ⟨0, .entry, none⟩, by decide, rfl, .single ?_⟩
  rcases hid with rfl | rfl
  · exact ⟨⟨0, 1, .true, none⟩, by decide, rfl, rfl, by decide, hlive 0 (by decide), hlive 1 hmem⟩
  · exact ⟨⟨0, 2, .false, none⟩, by decide, rfl, rfl, by decide, hlive 0 (by decide), hlive 2 hmem⟩

/-- The order along the dead edge is accepted, without a boundary, and observed not to be one. -/
theorem acceptedOrder_dead : validate validateKotlinFullSymbolIdentity branched = .ok () ∧
    AcceptsOrder branched 1 2 ∧
    ∃ o, observe validateKotlinFullSymbolIdentity (some branched) ⟨"q", "r", 1, 2⟩ = .ok o ∧
      o.mayReachInActiveCfg = some false := by
  have hobserve := observe_cases ⟨0, .entry, none⟩ validate_branched rfl (by decide) rfl
    (by decide) ⟨"q", "r", 1, 2⟩
  have haccepts : AcceptsOrder branched 1 2 := (acceptsOrder_iff fun _ _ ↦ rfl).mpr ordered_branched
  rcases hobserve with ⟨-, -, o, ho, hmay, -⟩ | ⟨hnot, -⟩
  · refine ⟨validate_branched, haccepts, o, ho, ?_⟩
    rw [hmay, Option.some.injEq, ← Bool.not_eq_true, LocalCfgPayload.reaches_iff]
    exact not_liveStep_branched
  · exact absurd ⟨liveReached_branched (.inl rfl), liveReached_branched (.inr rfl)⟩ hnot

/-- The same graph: the dead edge is a detour that no live path replaces. -/
theorem acceptedOrder_observed_iff_branched :
    validate validateKotlinFullSymbolIdentity branched = .ok () ∧
      ¬∀ a b, AcceptsOrder branched a b → ∀ id regionId o,
        observe validateKotlinFullSymbolIdentity (some branched) ⟨id, regionId, a, b⟩ = .ok o →
          o.mayReachInActiveCfg ≠ some false := by
  refine ⟨validate_branched, fun hagree ↦ not_liveStep_branched ?_⟩
  refine (acceptedOrder_observed_iff (fun _ _ ↦ rfl) validate_branched).mp hagree 1 2 ?_
  exact ⟨liveReached_branched (.inl rfl), liveReached_branched (.inr rfl), 1, .refl, by decide⟩

end Example

end Codeclew.ControlFlow
