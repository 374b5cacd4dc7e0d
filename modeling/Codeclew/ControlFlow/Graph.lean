import Codeclew.Kotlin.Descriptor
import Codeclew.Search

/-!
# Local control-flow graphs

The control flow of one callable as the compiler has it: nodes with roles, and edges with kinds.
Some nodes and edges are marked as dead. A graph comes from outside and is validated: its nodes and
edges are in order, its edges join its nodes, it has one entry and an end, and every node that is
not dead can be reached from the entry.

The check of the owner's identity is a parameter. It is `validateKotlinFullSymbolIdentity` for the
graphs of a slice.
-/

namespace Codeclew.ControlFlow

open Kotlin Search List
open Relation (ReflTransGen)

def localCfgSchema : String := "local-cfg/0.1"
def maxLocalCfgNodes : ℕ := 4096
def maxLocalCfgEdges : ℕ := 8192
def maxCfgTextBytes : ℕ := 512

inductive LocalCfgNodeRole where
  | entry
  | exit
  | operation
  | decision
  | merge
  | return
  | throw
  | catch
  | finally
  | loopCondition
  | loopExit
  | dead
  deriving DecidableEq, Repr, Ord

inductive LocalCfgEdgeKind where
  | next
  | true
  | false
  | whenCase
  | exception
  | return
  | loopBack
  | break
  | continue
  | finally
  | dead
  deriving DecidableEq, Repr, Ord

structure LocalCfgSourceRange where
  start : UInt64
  finish : UInt64
  deriving DecidableEq, Repr

structure LocalCfgNode where
  nodeId : UInt64
  role : LocalCfgNodeRole
  source : Option LocalCfgSourceRange
  deriving DecidableEq, Repr

structure LocalCfgEdge where
  sourceNodeId : UInt64
  targetNodeId : UInt64
  kind : LocalCfgEdgeKind
  label : Option String
  deriving DecidableEq, Repr, Ord

structure LocalCfgPayload where
  schema : String
  graphId : String
  ownerSymbolIdentity : String
  file : String
  compilerGraphName : String
  provider : String
  sourceProvenance : String
  nodes : List LocalCfgNode
  edges : List LocalCfgEdge
  deriving DecidableEq, Repr

/-! ## The hash of a graph -/

def LocalCfgNodeRole.name : LocalCfgNodeRole → String
  | .entry => "ENTRY"
  | .exit => "EXIT"
  | .operation => "OPERATION"
  | .decision => "DECISION"
  | .merge => "MERGE"
  | .return => "RETURN"
  | .throw => "THROW"
  | .catch => "CATCH"
  | .finally => "FINALLY"
  | .loopCondition => "LOOP_CONDITION"
  | .loopExit => "LOOP_EXIT"
  | .dead => "DEAD"

def LocalCfgEdgeKind.name : LocalCfgEdgeKind → String
  | .next => "NEXT"
  | .true => "TRUE"
  | .false => "FALSE"
  | .whenCase => "WHEN_CASE"
  | .exception => "EXCEPTION"
  | .return => "RETURN"
  | .loopBack => "LOOP_BACK"
  | .break => "BREAK"
  | .continue => "CONTINUE"
  | .finally => "FINALLY"
  | .dead => "DEAD"

def LocalCfgNode.json (node : LocalCfgNode) : Json :=
  .obj ([("nodeId", .num node.nodeId.toNat), ("role", .str node.role.name)] ++
    (node.source.map fun range ↦ ("source", .obj [("start", .num range.start.toNat),
      ("end", .num range.finish.toNat)])).toList)

def LocalCfgEdge.json (edge : LocalCfgEdge) : Json :=
  .obj ([("sourceNodeId", .num edge.sourceNodeId.toNat),
    ("targetNodeId", .num edge.targetNodeId.toNat), ("kind", .str edge.kind.name)] ++
    (edge.label.map fun label ↦ ("label", .str label)).toList)

def LocalCfgPayload.json (payload : LocalCfgPayload) : Json :=
  .obj [("schema", .str payload.schema), ("graphId", .str payload.graphId),
    ("ownerSymbolIdentity", .str payload.ownerSymbolIdentity), ("file", .str payload.file),
    ("compilerGraphName", .str payload.compilerGraphName), ("provider", .str payload.provider),
    ("sourceProvenance", .str payload.sourceProvenance),
    ("nodes", .arr (payload.nodes.map LocalCfgNode.json)),
    ("edges", .arr (payload.edges.map LocalCfgEdge.json))]

/-- The identity of a graph: the hash of everything else in it. -/
def LocalCfgPayload.identity [Sha256] (payload : LocalCfgPayload) : String :=
  hashBytes { payload with graphId := "" }.json.sortValue.bytes

/-! ## Validation -/

namespace LocalCfgPayload

variable (payload : LocalCfgPayload)

def nodeIds : List UInt64 := payload.nodes.map (·.nodeId)

/-- The ends of the edges. -/
def links : List (UInt64 × UInt64) :=
  payload.edges.map fun edge ↦ (edge.sourceNodeId, edge.targetNodeId)

def entryId : Option UInt64 := (payload.nodes.find? (·.role = .entry)).map (·.nodeId)

/-- The nodes that the edges lead to from the entry. -/
def reachable : List UInt64 :=
  -- The search is not stopped, and there is an entry when it is made.
  (payload.entryId.bind fun entry ↦ spread payload.links (fun _ ↦ false) [entry] [entry]).getD []

end LocalCfgPayload

def isTerminal : LocalCfgNodeRole → Bool
  | .exit | .return | .throw => true
  | _ => false

/-- The nodes in turn; `seen` are the identifiers before, the last one first. -/
def validateNodes (seen : List UInt64) : List LocalCfgNode → Except ClewError Unit
  | [] => .ok ()
  | node :: nodes => do
    ensure ((∀ value ∈ seen.head?, value < node.nodeId) ∧ node.nodeId ∉ seen)
      (invalid "local CFG nodes are not canonical and unique")
    ensure (∀ range ∈ node.source, range.start < range.finish)
      (invalid "local CFG node source range is invalid")
    validateNodes (node.nodeId :: seen) nodes

section Validate

variable [UnicodeNormalization]

def validateText (value label : String) (maxBytes : ℕ) : Except ClewError Unit :=
  ensure (value ≠ "" ∧ utf8Length (chars value) ≤ maxBytes ∧ (chars value).any isControl = false ∧
    UnicodeNormalization.isNfc value = true)
    (invalid (label ++ " is empty, oversized, non-NFC, or unsafe"))

def validateEdges (nodeIds : List UInt64) (previous : Option LocalCfgEdge) :
    List LocalCfgEdge → Except ClewError Unit
  | [] => .ok ()
  | edge :: edges => do
    ensure (edge.sourceNodeId ∈ nodeIds ∧ edge.targetNodeId ∈ nodeIds)
      (invalid "local CFG edge has a dangling endpoint")
    ensure (∀ value ∈ previous, compare value edge = .lt)
      (invalid "local CFG edges are not canonical and unique")
    edge.label.forM fun label ↦ validateText label "local CFG edge label" maxCfgTextBytes
    validateEdges nodeIds (some edge) edges

variable [Sha256] (validateIdentity : String → Except ClewError Unit)

def validate (payload : LocalCfgPayload) : Except ClewError Unit := do
  ensure (payload.schema = localCfgSchema ∧ payload.provider = "K2_FIR_CFG" ∧
    payload.sourceProvenance = "COMPILER_UTF16_RANGE_TO_UTF8_BYTES")
    (invalid "local CFG authority fields are invalid")
  validateIdentity payload.ownerSymbolIdentity
  validateText payload.file "local CFG file" 4096
  ensure ((chars payload.file).head? ≠ some '/' ∧
    ∀ part ∈ (chars payload.file).splitOn '/', part ∉ [[], ['.'], ['.', '.']])
    (invalid "local CFG file is not repository-relative")
  validateText payload.compilerGraphName "local CFG compiler graph name" maxCfgTextBytes
  ensure (payload.nodes ≠ [] ∧ payload.nodes.length ≤ maxLocalCfgNodes ∧
    payload.edges.length ≤ maxLocalCfgEdges)
    ⟨.sliceBudgetExceeded, "local CFG exceeds its node or edge budget"⟩
  validateNodes [] payload.nodes
  ensure (payload.nodes.countP (·.role = .entry) = 1 ∧
    payload.nodes.countP (isTerminal ·.role) ≠ 0)
    (invalid "local CFG must have one entry and a terminal node")
  validateEdges payload.nodeIds none payload.edges
  ensure (∀ node ∈ payload.nodes, node.role = .dead ∨ node.nodeId ∈ payload.reachable)
    (invalid "local CFG has an unreachable non-dead node")
  ensure (payload.graphId = payload.identity) (invalid "local CFG graph identity is invalid")

/-! ## What is accepted -/

/-- The part of the validation that is not about the shape of the graph. -/
structure LocalCfgPayload.Labelled (payload : LocalCfgPayload) : Prop where
  authority : payload.schema = localCfgSchema ∧ payload.provider = "K2_FIR_CFG" ∧
    payload.sourceProvenance = "COMPILER_UTF16_RANGE_TO_UTF8_BYTES"
  owner : validateIdentity payload.ownerSymbolIdentity = .ok ()
  file : validateText payload.file "local CFG file" 4096 = .ok ()
  relative : (chars payload.file).head? ≠ some '/' ∧
    ∀ part ∈ (chars payload.file).splitOn '/', part ∉ [[], ['.'], ['.', '.']]
  graphName :
    validateText payload.compilerGraphName "local CFG compiler graph name" maxCfgTextBytes = .ok ()
  size : payload.nodes ≠ [] ∧ payload.nodes.length ≤ maxLocalCfgNodes ∧
    payload.edges.length ≤ maxLocalCfgEdges
  ranges : ∀ node ∈ payload.nodes, ∀ range ∈ node.source, range.start < range.finish
  labels : ∀ edge ∈ payload.edges, ∀ label ∈ edge.label,
    validateText label "local CFG edge label" maxCfgTextBytes = .ok ()
  identity : payload.graphId = payload.identity

/-- The shape of the graph. -/
structure LocalCfgPayload.Shaped (payload : LocalCfgPayload) : Prop where
  nodes : payload.nodeIds.IsChain (· < ·)
  edges : payload.edges.IsChain (compare · · = .lt)
  joined : ∀ edge ∈ payload.edges,
    edge.sourceNodeId ∈ payload.nodeIds ∧ edge.targetNodeId ∈ payload.nodeIds
  oneEntry : payload.nodes.countP (·.role = .entry) = 1
  terminal : ∃ node ∈ payload.nodes, isTerminal node.role = true
  reached : ∀ entry ∈ payload.nodes, entry.role = .entry → ∀ node ∈ payload.nodes,
    node.role ≠ .dead → ReflTransGen (Step payload.links) entry.nodeId node.nodeId

omit [UnicodeNormalization] [Sha256] in
theorem validateNodes_eq_ok_iff {nodes : List LocalCfgNode} {seen : List UInt64}
    (hseen : ∀ value ∈ seen, ∀ last ∈ seen.head?, value ≤ last) :
    validateNodes seen nodes = .ok () ↔
      (∀ value ∈ seen.head?, ∀ id ∈ (nodes.map (·.nodeId)).head?, value < id) ∧
      (nodes.map (·.nodeId)).IsChain (· < ·) ∧
      ∀ node ∈ nodes, ∀ range ∈ node.source, range.start < range.finish := by
  induction nodes generalizing seen with
  | nil => simp [validateNodes]
  | cons node nodes ih =>
    -- that an identifier is new follows from the order
    have hfresh : (∀ value ∈ seen.head?, value < node.nodeId) → node.nodeId ∉ seen := by
      intro hlt hmem
      cases seen with
      | nil => cases hmem
      | cons last seen => exact UInt64.not_lt.mpr (hseen _ hmem last rfl) (hlt last rfl)
    have hseen' : (∀ value ∈ seen.head?, value < node.nodeId) →
        ∀ value ∈ node.nodeId :: seen, ∀ last ∈ (node.nodeId :: seen).head?, value ≤ last := by
      rintro hlt value hvalue last ⟨⟩
      rcases mem_cons.mp hvalue with rfl | hmem
      · exact UInt64.le_refl _
      · cases seen with
        | nil => cases hmem
        | cons first seen =>
          exact UInt64.le_trans (hseen value hmem first rfl) (UInt64.le_of_lt (hlt first rfl))
    rw [validateNodes, ensure_bind_eq_ok_iff, ensure_bind_eq_ok_iff, map_cons,
      isChain_cons, forall_mem_cons]
    constructor
    · rintro ⟨⟨hlt, -⟩, hrange, hrest⟩
      obtain ⟨hnext, hchain, hranges⟩ := (ih (hseen' hlt)).mp hrest
      refine ⟨?_, ⟨hnext _ rfl, hchain⟩, hrange, hranges⟩
      rintro value hvalue id ⟨⟩
      exact hlt value hvalue
    · rintro ⟨hlt, ⟨hnext, hchain⟩, hrange, hranges⟩
      have hlt' : ∀ value ∈ seen.head?, value < node.nodeId := fun value hvalue ↦
        hlt value hvalue _ rfl
      refine ⟨⟨hlt', hfresh hlt'⟩, hrange, (ih (hseen' hlt')).mpr ⟨?_, hchain, hranges⟩⟩
      rintro value ⟨⟩
      exact hnext

omit [Sha256] in
theorem validateEdges_eq_ok_iff {nodeIds : List UInt64} {edges : List LocalCfgEdge}
    {previous : Option LocalCfgEdge} :
    validateEdges nodeIds previous edges = .ok () ↔
      (∀ edge ∈ edges, edge.sourceNodeId ∈ nodeIds ∧ edge.targetNodeId ∈ nodeIds) ∧
      (∀ value ∈ previous, ∀ edge ∈ edges.head?, compare value edge = .lt) ∧
      edges.IsChain (compare · · = .lt) ∧
      ∀ edge ∈ edges, ∀ label ∈ edge.label,
        validateText label "local CFG edge label" maxCfgTextBytes = .ok () := by
  induction edges generalizing previous with
  | nil => simp [validateEdges]
  | cons edge edges ih =>
    have hlabel : (edge.label.forM fun label ↦
        validateText label "local CFG edge label" maxCfgTextBytes) = .ok () ↔
        ∀ label ∈ edge.label, validateText label "local CFG edge label" maxCfgTextBytes =
          .ok () := by
      cases edge.label with
      | none => simp [pure, Except.pure]
      | some label => simp
    rw [validateEdges, ensure_bind_eq_ok_iff, ensure_bind_eq_ok_iff, bind_eq_ok_iff]
    simp only [ih, isChain_cons, forall_mem_cons, List.head?_cons, Option.mem_def,
      Option.some.injEq, forall_eq']
    constructor
    · rintro ⟨hjoin, hlt, ⟨⟩, htext, hjoins, hnext, hchain, htexts⟩
      exact ⟨⟨hjoin, hjoins⟩, hlt, ⟨hnext, hchain⟩, hlabel.mp htext, htexts⟩
    · rintro ⟨⟨hjoin, hjoins⟩, hlt, ⟨hnext, hchain⟩, htext, htexts⟩
      exact ⟨hjoin, hlt, (), hlabel.mpr htext, hjoins, hnext, hchain, htexts⟩

namespace LocalCfgPayload

variable {payload : LocalCfgPayload} {validateIdentity}

omit [UnicodeNormalization] [Sha256] in
theorem exists_entry (h : payload.nodes.countP (·.role = .entry) = 1) :
    ∃ entry, payload.entryId = some entry.nodeId ∧ entry ∈ payload.nodes ∧ entry.role = .entry ∧
      ∀ node ∈ payload.nodes, node.role = .entry → node = entry := by
  rw [countP_eq_length_filter, length_eq_one_iff] at h
  obtain ⟨entry, hentry⟩ := h
  have hmem : ∀ node, node ∈ payload.nodes ∧ node.role = .entry ↔ node = entry := fun node ↦ by
    have hfilter : node ∈ [entry] ↔ _ := hentry ▸ mem_filter
    rw [← mem_singleton (b := entry), hfilter, decide_eq_true_eq]
  obtain ⟨hentries, hrole⟩ := (hmem entry).mpr rfl
  refine ⟨entry, ?_, hentries, hrole, fun node hnode hrole ↦ (hmem node).mp ⟨hnode, hrole⟩⟩
  have hfind : payload.nodes.find? (·.role = .entry) = some entry := by
    rw [← List.head?_filter, hentry, List.head?_cons]
  rw [entryId, hfind, Option.map_some]

omit [UnicodeNormalization] [Sha256] in
theorem mem_reachable {entry id : UInt64} (h : payload.entryId = some entry) :
    id ∈ payload.reachable ↔ ReflTransGen (Step payload.links) entry id := by
  obtain ⟨hnone, hsome⟩ := spread_start payload.links (fun _ ↦ false) entry
  rw [reachable, h, Option.bind_some]
  cases hspread : spread payload.links (fun _ ↦ false) [entry] [entry] with
  | none => simp [hspread] at hnone
  | some found => exact hsome found hspread id

end LocalCfgPayload

/-- Validation accepts exactly the graphs that are labelled and shaped as they should be. -/
theorem validate_eq_ok_iff {payload : LocalCfgPayload} :
    validate validateIdentity payload = .ok () ↔
      payload.Labelled validateIdentity ∧ payload.Shaped := by
  have hnone : ∀ {P : UInt64 → Prop}, ∀ value ∈ ([] : List UInt64).head?, P value := nofun
  have hnoEdge : ∀ {P : LocalCfgEdge → Prop}, ∀ value ∈ (none : Option LocalCfgEdge), P value :=
    nofun
  simp only [validate, check_bind_eq_ok_iff, ensure_eq_ok_iff,
    validateNodes_eq_ok_iff (fun _ hvalue ↦ absurd hvalue not_mem_nil), validateEdges_eq_ok_iff]
  constructor
  · rintro ⟨hauthority, howner, hfile, hrelative, hname, hsize, hnodes, hcounts, hedges, hreachable,
      hidentity⟩
    obtain ⟨-, hincreasing, hranges⟩ := hnodes
    obtain ⟨hjoined, -, hchain, hlabels⟩ := hedges
    obtain ⟨entry, hentry, -, -, honly⟩ := payload.exists_entry hcounts.1
    refine ⟨⟨hauthority, howner, hfile, hrelative, hname, hsize, hranges, hlabels, hidentity⟩,
      ⟨hincreasing, hchain, hjoined, hcounts.1, ?_, ?_⟩⟩
    · simpa [countP_pos_iff] using Nat.pos_of_ne_zero hcounts.2
    · intro other hother hrole node hnode hlive
      rw [honly other hother hrole, ← payload.mem_reachable hentry]
      exact (hreachable node hnode).resolve_left hlive
  · rintro ⟨hl, hs⟩
    obtain ⟨entry, hentry, hmem, hrole, -⟩ := payload.exists_entry hs.oneEntry
    have hterminal : payload.nodes.countP (isTerminal ·.role) ≠ 0 := by
      rw [← Nat.pos_iff_ne_zero, countP_pos_iff]
      exact hs.terminal
    refine ⟨hl.authority, hl.owner, hl.file, hl.relative, hl.graphName, hl.size,
      ⟨hnone, hs.nodes, hl.ranges⟩, ⟨hs.oneEntry, hterminal⟩,
      ⟨hs.joined, hnoEdge, hs.edges, hl.labels⟩, ?_, hl.identity⟩
    intro node hnode
    refine or_iff_not_imp_left.mpr fun hlive ↦ ?_
    rw [payload.mem_reachable hentry]
    exact hs.reached entry hmem hrole node hnode hlive

/-- Validation is exact: of the graphs that are labelled as they should be it accepts those of the
right shape, with paths along any edges and through any cycles. -/
theorem validate_exact {payload : LocalCfgPayload} (h : payload.Labelled validateIdentity) :
    validate validateIdentity payload = .ok () ↔ payload.Shaped :=
  (validate_eq_ok_iff validateIdentity).trans (and_iff_right h)

end Validate

/-! ## A graph with a branch -/

section Branched

variable [Sha256]

/-- An entry, two nodes that it leads to, and an exit after the second. A dead edge leads from the
first to the second. -/
def branched : LocalCfgPayload :=
  let graph : LocalCfgPayload :=
    { schema := localCfgSchema
      graphId := ""
      ownerSymbolIdentity := "callable:p/f#jvm:(I)V"
      file := "f.kt"
      compilerGraphName := "f"
      provider := "K2_FIR_CFG"
      sourceProvenance := "COMPILER_UTF16_RANGE_TO_UTF8_BYTES"
      nodes := [⟨0, .entry, none⟩, ⟨1, .operation, none⟩, ⟨2, .operation, none⟩, ⟨3, .exit, none⟩]
      edges := [⟨0, 1, .true, none⟩, ⟨0, 2, .false, none⟩, ⟨1, 2, .dead, none⟩,
        ⟨2, 3, .next, none⟩] }
  { graph with graphId := graph.identity }

/-- Every text counts as normalized. -/
@[reducible] def allNormalized : UnicodeNormalization := ⟨fun _ ↦ true⟩

end Branched

section Example

attribute [local instance] Sha256.standard allNormalized

theorem validate_branched : validate validateKotlinFullSymbolIdentity branched = .ok () := by
  refine (validate_eq_ok_iff _).mpr
    ⟨⟨⟨rfl, rfl, rfl⟩, by decide, by decide, by decide, by decide, by decide,
    by decide, by decide, rfl⟩, ⟨by decide, by decide, by decide, by decide, by decide, ?_⟩⟩
  have hfirst : ReflTransGen (Step branched.links) 0 1 := .single (by decide)
  have hsecond : ReflTransGen (Step branched.links) 0 2 := .single (by decide)
  have hexit : ReflTransGen (Step branched.links) 0 3 := hsecond.tail (by decide)
  intro entry hentry hrole node hnode _
  simp only [branched, mem_cons, not_mem_nil, or_false] at hentry hnode
  rcases hentry with rfl | rfl | rfl | rfl
  · rcases hnode with rfl | rfl | rfl | rfl
    exacts [.refl, hfirst, hsecond, hexit]
  all_goals cases hrole

theorem validate_exact_branched : branched.Labelled validateKotlinFullSymbolIdentity ∧
    (validate validateKotlinFullSymbolIdentity branched = .ok () ↔ branched.Shaped) := by
  have hlabelled := ((validate_eq_ok_iff _).mp validate_branched).1
  exact ⟨hlabelled, validate_exact _ hlabelled⟩

end Example

end Codeclew.ControlFlow
