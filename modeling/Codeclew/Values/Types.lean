import Codeclew.Files

/-!
# Value models

The equations of one function: a node for each definition, with the operation that gives its value
and the definitions that guard it. A model is checked before anything is computed from it; after the
check the definitions are in strict order and no operand or guard is missing.
-/

namespace Codeclew.Values

open List

def valueModelSchema : String := "portable-value-model/0.1"
def maxModelNodes : ℕ := 4096
def maxDependencies : ℕ := 16384

inductive ObservationAuthority where
  | compilerObserved
  | syntaxObserved
  | declared
  deriving DecidableEq, Repr

structure ModelBinding where
  language : String
  producer : String
  snapshotDigest : String
  factsDigest : String
  configurationDigest : String
  policyDigest : String
  observationAuthority : ObservationAuthority
  deriving DecidableEq, Repr

inductive ValueOperation where
  /-- A parameter of unknown nullness. -/
  | input
  | null
  | nonNull
  | copy (value : String)
  /-- A merge; all alternatives are feasible. -/
  | join (values : List String)
  /-- The left value unless it is null, and the right one then. -/
  | coalesce (left right : String)
  /-- A transfer that is not modelled. -/
  | unknown (boundary : String)
  deriving DecidableEq, Repr

structure ValueNode where
  id : String
  operation : ValueOperation
  evidenceIds : List String
  guards : List String
  deriving DecidableEq, Repr

structure ValueModel where
  schema : String
  binding : ModelBinding
  nodes : List ValueNode
  globalBoundaries : List String
  deriving DecidableEq, Repr

namespace ValueOperation

def operands : ValueOperation → List String
  | copy value => [value]
  | join values => values
  | coalesce left right => [left, right]
  | _ => []

def boundary? : ValueOperation → Option String
  | unknown boundary => some boundary
  | _ => none

def isJoin : ValueOperation → Bool
  | join _ => true
  | _ => false

end ValueOperation

/-! ## Documents -/

def ObservationAuthority.name : ObservationAuthority → String
  | compilerObserved => "COMPILER_OBSERVED"
  | syntaxObserved => "SYNTAX_OBSERVED"
  | declared => "DECLARED"

def jsonTexts (values : List String) : Json := .arr (values.map .str)

def ModelBinding.json (b : ModelBinding) : Json :=
  .obj [("language", .str b.language), ("producer", .str b.producer),
    ("snapshotDigest", .str b.snapshotDigest), ("factsDigest", .str b.factsDigest),
    ("configurationDigest", .str b.configurationDigest), ("policyDigest", .str b.policyDigest),
    ("observationAuthority", .str b.observationAuthority.name)]

def ValueOperation.json : ValueOperation → Json
  | input => .obj [("kind", .str "INPUT")]
  | null => .obj [("kind", .str "NULL")]
  | nonNull => .obj [("kind", .str "NON_NULL")]
  | copy value => .obj [("kind", .str "COPY"), ("value", .str value)]
  | join values => .obj [("kind", .str "JOIN"), ("values", jsonTexts values)]
  | coalesce left right =>
    .obj [("kind", .str "COALESCE"), ("left", .str left), ("right", .str right)]
  | unknown boundary => .obj [("kind", .str "UNKNOWN"), ("boundary", .str boundary)]

def ValueNode.json (n : ValueNode) : Json :=
  .obj [("id", .str n.id), ("operation", n.operation.json),
    ("evidenceIds", jsonTexts n.evidenceIds), ("guards", jsonTexts n.guards)]

/-- The fields are in the order in which they are declared. -/
def ValueModel.json (m : ValueModel) : Json :=
  .obj [("schema", .str m.schema), ("binding", m.binding.json),
    ("nodes", .arr (m.nodes.map (·.json))), ("globalBoundaries", jsonTexts m.globalBoundaries)]

/-- The digest of the facts: the bytes are those of the declared order, not the canonical ones. -/
def digest [Sha256] (m : ValueModel) : String := hashBytes m.json.bytes

/-! ## Checks -/

/-- A text that is not empty, not too long and has no control characters. -/
def text (s : String) : Bool :=
  byteLength s ≠ 0 && byteLength s ≤ 1024 && !(chars s).any isControl

def sorted (values : List String) : Bool :=
  values.all text && decide (values.IsChain (· < ·))

def isDigest (s : String) : Bool :=
  match stripPrefix "sha256:" s with
  | none => false
  | some hex => isLowerHex hex 64

/-- A merge names its alternatives in order, and there is one. -/
def ValueOperation.joinsWell : ValueOperation → Bool
  | join values => values ≠ [] && sorted values
  | _ => true

def ValueOperation.boundaryWell : ValueOperation → Bool
  | unknown boundary => text boundary
  | _ => true

/-- Check one node, after so many dependencies and so much evidence. -/
def ValueNode.validate (ids : List String) (counts : ℕ × ℕ) (n : ValueNode) :
    Except String (ℕ × ℕ) := do
  ensure (n.evidenceIds ≠ [] ∧ n.evidenceIds.length ≤ maxDependencies - counts.2 ∧
    n.guards.length ≤ maxDependencies - counts.1) "value reference budget exceeded"
  let evidence := counts.2 + n.evidenceIds.length
  let dependencies := counts.1 + n.guards.length
  ensure (n.operation.operands.length ≤ maxDependencies - dependencies)
    "value dependency budget exceeded"
  ensure (sorted n.evidenceIds ∧ sorted n.guards) "invalid value definition or evidence"
  ensure n.operation.joinsWell "invalid SSA join"
  ensure n.operation.boundaryWell "invalid transfer boundary"
  ensure (∀ id ∈ n.operation.operands ++ n.guards, id ∈ ids) "dangling value or guard dependency"
  return (dependencies + n.operation.operands.length, evidence)

def ValueModel.validate (m : ValueModel) : Except String Unit := do
  ensure (m.schema = valueModelSchema ∧ m.nodes ≠ [] ∧ m.nodes.length ≤ maxModelNodes)
    "invalid value model schema or node budget"
  ensure (text m.binding.language ∧ text m.binding.producer ∧ isDigest m.binding.snapshotDigest ∧
    isDigest m.binding.factsDigest ∧ isDigest m.binding.configurationDigest ∧
    isDigest m.binding.policyDigest ∧ m.globalBoundaries.length ≤ 64 ∧ sorted m.globalBoundaries)
    "invalid model binding or boundaries"
  ensure ((∀ n ∈ m.nodes, text n.id) ∧ m.nodes.IsChain (·.id < ·.id))
    "value definitions must be unique and sorted"
  let counts ← m.nodes.foldlM (ValueNode.validate (m.nodes.map (·.id))) (0, 0)
  ensure (counts.1 ≤ maxDependencies ∧ counts.2 ≤ maxDependencies)
    "value dependency budget exceeded"

/-! ## What a checked model is like -/

/-- The node of a definition. -/
def ValueModel.node? (m : ValueModel) (id : String) : Option ValueNode :=
  m.nodes.find? fun n ↦ n.id = id

variable {m : ValueModel}

theorem ValueModel.node?_eq_some_iff (h : m.nodes.Pairwise (·.id < ·.id)) {id : String}
    {n : ValueNode} : m.node? id = some n ↔ n ∈ m.nodes ∧ n.id = id := by
  constructor
  · intro hn
    exact ⟨mem_of_find?_eq_some hn, by simpa using List.find?_some hn⟩
  · rintro ⟨hmem, rfl⟩
    rw [ValueModel.node?, List.find?_eq_some_iff_append]
    obtain ⟨before, after, hsplit⟩ := append_of_mem hmem
    refine ⟨by simp, before, after, hsplit, fun n' hn' ↦ ?_⟩
    rw [hsplit, pairwise_append] at h
    have hlt : n'.id < n.id := h.2.2 n' hn' n mem_cons_self
    simpa using hlt.ne

theorem ValueModel.node?_isSome_iff {id : String} :
    (m.node? id).isSome ↔ ∃ n ∈ m.nodes, n.id = id := by
  simp [ValueModel.node?]

/-- The facts about a model that its check establishes and the calculations rest on. -/
structure ValueModel.Checked (m : ValueModel) : Prop where
  ordered : m.nodes.Pairwise (·.id < ·.id)
  closed : ∀ n ∈ m.nodes, ∀ id ∈ n.operation.operands ++ n.guards, ∃ n' ∈ m.nodes, n'.id = id

theorem ValueModel.Checked.eq_of_id (h : m.Checked) {n n' : ValueNode} (hn : n ∈ m.nodes)
    (hn' : n' ∈ m.nodes) (hid : n.id = n'.id) : n = n' := by
  have hnode := (ValueModel.node?_eq_some_iff h.ordered).mpr ⟨hn, hid⟩
  rw [(ValueModel.node?_eq_some_iff h.ordered).mpr ⟨hn', rfl⟩] at hnode
  exact (Option.some.inj hnode).symm

variable {counts counts' : ℕ × ℕ}

theorem ValueNode.closed_of_validate {ids : List String} {n : ValueNode}
    (h : n.validate ids counts = .ok counts') :
    ∀ id ∈ n.operation.operands ++ n.guards, id ∈ ids := by
  simp only [ValueNode.validate, ensure_bind_eq_ok_iff] at h
  exact h.2.2.2.2.2.1

theorem ValueNode.closed_of_foldlM {ids : List String} {nodes : List ValueNode}
    (h : nodes.foldlM (ValueNode.validate ids) counts = .ok counts') :
    ∀ n ∈ nodes, ∀ id ∈ n.operation.operands ++ n.guards, id ∈ ids := by
  induction nodes generalizing counts with
  | nil => intro n hn; cases hn
  | cons n nodes ih =>
    rw [foldlM_cons] at h
    obtain ⟨next, hfirst, hrest⟩ := bind_eq_ok_iff.mp h
    intro n' hn'
    rcases mem_cons.mp hn' with rfl | hmem
    · exact ValueNode.closed_of_validate hfirst
    · exact ih hrest n' hmem

theorem ValueModel.checked_of_validate (h : m.validate = .ok ()) : m.Checked := by
  simp only [ValueModel.validate, ensure_bind_eq_ok_iff] at h
  obtain ⟨-, -, ⟨-, hchain⟩, hfold⟩ := h
  obtain ⟨counts, hcounts, -⟩ := bind_eq_ok_iff.mp hfold
  refine ⟨?_, fun n hn id hid ↦ ?_⟩
  · exact (isChain_iff_pairwise (R := fun n n' : ValueNode ↦ n.id < n'.id)).mp hchain
  · simpa using ValueNode.closed_of_foldlM hcounts n hn id hid

end Codeclew.Values
