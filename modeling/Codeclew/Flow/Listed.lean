import Codeclew.Flow.Follow

/-!
# What a traversal lists

Nodes and edges are listed under identifiers that are digests of what they stand for. Identifiers
that are made from different materials are assumed to be different, `NoCollisions`; this is a
statement about the finitely many materials that the facts of a set give. Then a callable is listed
at most once, and `listed` is the depth it is listed with.
-/

namespace Codeclew.Flow

open Std (ExtTreeMap)
open List

theorem getElem?_insertIfNew_of_eq_some {β : Type} {map : ExtTreeMap String β} {id id' : String}
    {b c : β} (h : map[id]? = some b) : (map.insertIfNew id' c)[id]? = some b := by
  rw [ExtTreeMap.getElem?_insertIfNew, if_neg, h]
  rintro ⟨heq, hnot⟩
  rw [compare_eq_iff_eq.mp heq, ExtTreeMap.mem_iff_isSome_getElem?, h] at hnot
  exact hnot rfl

theorem eq_or_of_getElem?_insertIfNew {β : Type} {map : ExtTreeMap String β} {id id' : String}
    {b c : β} (h : (map.insertIfNew id' c)[id]? = some b) :
    id' = id ∧ c = b ∨ map[id]? = some b := by
  rw [ExtTreeMap.getElem?_insertIfNew] at h
  split_ifs at h with hid
  · exact .inl ⟨compare_eq_iff_eq.mp hid.1, Option.some.inj h⟩
  · exact .inr h

/-- What is listed under identifiers of its own. -/
theorem mem_values_iff {β : Type} {map : ExtTreeMap String β} {name : β → String} {b : β}
    (hname : ∀ id b, map[id]? = some b → name b = id) :
    b ∈ map.toList.map Prod.snd ↔ map[name b]? = some b := by
  rw [mem_map]
  constructor
  · rintro ⟨⟨id, b⟩, h, rfl⟩
    rw [ExtTreeMap.mem_toList_iff_getElem?_eq_some] at h
    rw [hname id b h, h]
  · exact fun h ↦ ⟨(name b, b), ExtTreeMap.mem_toList_iff_getElem?_eq_some.mpr h, rfl⟩

section Listed

variable [Sha256] {set : FactSet} {nodes : ExtTreeMap String FlowNode} {node node' : FlowNode}
  {d : Cited DeclarationFact} {depth : ℕ}

/-! ## Materials -/

def DeclarationFact.material (row : DeclarationFact) : Json :=
  callableMaterial row.provenance.memberAlias row.provenance.repositoryNamespace row.symbolIdentity

def DeclarationFact.nodeId (row : DeclarationFact) : String := stableId "flow-node" row.material

variable (set) in
/-- What the nodes of a slice can stand for. -/
inductive NodeMaterial : Json → Prop
  | callable {d : Cited DeclarationFact} : d ∈ set.exactDeclarations → NodeMaterial d.row.material
  | handoff {member : CallableMemberBinding} {use : Cited UseFact} : member ∈ set.members →
      use ∈ set.allUses → NodeMaterial (handoffMaterial member use.row.targetCallableId)

variable (set) in
/-- What the edges of a slice can stand for. -/
inductive EdgeMaterial : Json → Prop
  | call {source : Key} {d t : Cited DeclarationFact} {use : Cited UseFact} :
      Owns set source use → set.declarations source = [d] → set.declarations t.row.key = [t] →
      Resolves set source.1 use.row t.row.key →
      EdgeMaterial (callMaterial d.row.nodeId t.row.nodeId use.row.factId)
  | handoff {source : Key} {d : Cited DeclarationFact} {member : CallableMemberBinding}
      {use : Cited UseFact} : Owns set source use → set.declarations source = [d] →
      member ∈ set.members →
      EdgeMaterial (handoffEdgeMaterial d.row.nodeId
        (stableId "flow-node" (handoffMaterial member use.row.targetCallableId)) use.row.factId)

variable (set) in
/-- The digests of what the facts give are different. -/
structure NoCollisions : Prop where
  nodes : Set.InjOn (stableId "flow-node") {material | NodeMaterial set material}
  edges : Set.InjOn (stableId "flow-edge") {material | EdgeMaterial set material}

/-! Whether digests are different can be computed, from all the materials there may be. -/

def nodeMaterials (set : FactSet) : List Json :=
  set.exactDeclarations.map (·.row.material) ++ set.members.flatMap fun member ↦
    set.allUses.map fun use ↦ handoffMaterial member use.row.targetCallableId

def edgeMaterials (set : FactSet) : List Json :=
  set.allUses.flatMap fun use ↦ set.exactDeclarations.flatMap fun d ↦
    (set.exactDeclarations.map fun t ↦ callMaterial d.row.nodeId t.row.nodeId use.row.factId) ++
    set.members.map fun member ↦ handoffEdgeMaterial d.row.nodeId
      (stableId "flow-node" (handoffMaterial member use.row.targetCallableId)) use.row.factId

omit [Sha256] in
theorem mem_nodeMaterials {material : Json} (h : NodeMaterial set material) :
    material ∈ nodeMaterials set := by
  cases h with
  | callable hd => exact mem_append_left _ (mem_map_of_mem hd)
  | @handoff member use hmember huse =>
    exact mem_append_right _ (mem_flatMap.mpr
      ⟨member, hmember, mem_map.mpr ⟨use, huse, rfl⟩⟩)

theorem mem_edgeMaterials {material : Json} (h : EdgeMaterial set material) :
    material ∈ edgeMaterials set := by
  have hdeclared : ∀ key d, set.declarations key = [d] → d ∈ set.exactDeclarations :=
    fun key d hd ↦ (FactSet.key_of_mem_declarations (hd ▸ mem_singleton_self d)).1
  cases h with
  | @call source d t use howns hd ht _ =>
    refine mem_flatMap.mpr ⟨use, howns.mem, mem_flatMap.mpr
      ⟨d, hdeclared _ d hd, mem_append_left _ ?_⟩⟩
    exact mem_map.mpr ⟨t, hdeclared _ t ht, rfl⟩
  | @handoff source d member use howns hd hmember =>
    refine mem_flatMap.mpr ⟨use, howns.mem, mem_flatMap.mpr
      ⟨d, hdeclared _ d hd, mem_append_right _ ?_⟩⟩
    exact mem_map.mpr ⟨member, hmember, rfl⟩

theorem noCollisions_of_nodup
    (hnodes : ((nodeMaterials set).map (stableId "flow-node")).Nodup)
    (hedges : ((edgeMaterials set).map (stableId "flow-edge")).Nodup) : NoCollisions set where
  nodes _ ha _ hb heq :=
    inj_on_of_nodup_map hnodes (mem_nodeMaterials ha) (mem_nodeMaterials hb) heq
  edges _ ha _ hb heq :=
    inj_on_of_nodup_map hedges (mem_edgeMaterials ha) (mem_edgeMaterials hb) heq

/-! ## Nodes -/

/-- The node of a declaration. -/
structure IsCallable (d : Cited DeclarationFact) (node : FlowNode) : Prop where
  nodeId : node.nodeId = d.row.nodeId
  nodeKind : node.nodeKind = .callable
  key : node.key = d.row.key

theorem isCallable_of_callableNode (h : callableNode set d depth = .ok node) :
    IsCallable d node ∧ node.depth = depth ∧
      ∃ member, set.member? d.row.key.1 = some member := by
  rw [callableNode] at h
  split at h
  · cases h
  · split_ifs at h
    cases h
    exact ⟨⟨rfl, rfl, rfl⟩, rfl, _, ‹_›⟩

variable (set) in
/-- The nodes of a slice. -/
inductive IsNode (node : FlowNode) : Prop
  | callable (d : Cited DeclarationFact) (declared : set.declarations d.row.key = [d])
      (is : IsCallable d node) (member : ∃ member, set.member? d.row.key.1 = some member)
  | handoff (member : CallableMemberBinding) (use : Cited UseFact) (mem : member ∈ set.members)
      (mem_uses : use ∈ set.allUses) (nodeKind : node.nodeKind = .boundary)
      (nodeId : node.nodeId =
        stableId "flow-node" (handoffMaterial member use.row.targetCallableId))

theorem IsNode.of_callable (h : IsNode set node) (hkind : node.nodeKind = .callable) :
    ∃ d, set.declarations node.key = [d] ∧ IsCallable d node ∧
      ∃ member, set.member? node.key.1 = some member := by
  cases h with
  | callable d declared is member => exact ⟨d, is.key ▸ declared, is, is.key ▸ member⟩
  | handoff _ _ _ _ nodeKind _ =>
    rw [hkind] at nodeKind
    cases nodeKind

omit [Sha256] in
theorem declaration_mem (h : set.declarations d.row.key = [d]) : d ∈ set.exactDeclarations :=
  (FactSet.key_of_mem_declarations (h ▸ mem_singleton_self d)).1

variable (set) in
/-- Nodes are listed under their identifiers. -/
def Nodes (nodes : ExtTreeMap String FlowNode) : Prop :=
  ∀ id node, nodes[id]? = some node → node.nodeId = id ∧ IsNode set node

/-- A node that is listed under the identifier of a callable is a node of it. -/
theorem Nodes.isCallable (hc : NoCollisions set) (hnodes : Nodes set nodes)
    (hd : set.declarations d.row.key = [d]) (h : nodes[d.row.nodeId]? = some node) :
    IsCallable d node := by
  obtain ⟨hid, hnode⟩ := hnodes _ _ h
  have hmaterial := NodeMaterial.callable (declaration_mem hd)
  cases hnode with
  | callable e declared is member =>
    have heq : e.row.material = d.row.material :=
      hc.nodes (.callable (declaration_mem declared)) hmaterial (is.nodeId.symm.trans hid)
    have hkey : e.row.key = d.row.key := by
      simp only [DeclarationFact.material, callableMaterial, Json.obj.injEq, List.cons.injEq,
        Prod.mk.injEq, Json.str.injEq] at heq
      exact Prod.ext heq.1.2 heq.2.2.1.2
    rw [hkey, hd] at declared
    obtain rfl := head_eq_of_cons_eq declared
    exact is
  | handoff member use mem mem_uses nodeKind nodeId =>
    have heq := hc.nodes (.handoff mem mem_uses) hmaterial (nodeId.symm.trans hid)
    simp [DeclarationFact.material, callableMaterial, handoffMaterial] at heq

section

variable (hnodes : Nodes set nodes)
include hnodes

theorem Nodes.insert (hnode : IsNode set node) :
    Nodes set (nodes.insertIfNew node.nodeId node) := by
  intro id n h
  rcases eq_or_of_getElem?_insertIfNew h with ⟨hid, rfl⟩ | h
  · exact ⟨hid, hnode⟩
  · exact hnodes id n h

theorem Nodes.mem_iff :
    node ∈ nodes.toList.map Prod.snd ↔ nodes[node.nodeId]? = some node :=
  mem_values_iff fun id node h ↦ (hnodes id node h).1

/-! ## Callables -/

/-- The depth with which a callable is listed. -/
def listed (nodes : ExtTreeMap String FlowNode) (key : Key) : Option ℕ :=
  (nodeForSymbol nodes key).map (·.depth)

theorem nodeForSymbol_eq_some_iff {key : Key} :
    nodeForSymbol nodes key = some node ↔
      nodes[node.nodeId]? = some node ∧ node.nodeKind = .callable ∧ node.key = key := by
  have hkey : ∀ n : FlowNode, n.memberAlias = key.1 ∧ n.symbolIdentity = key.2 ∧
      n.nodeKind = .callable ↔ n.nodeKind = .callable ∧ n.key = key := by
    intro n
    rw [FlowNode.key, Prod.ext_iff]
    tauto
  have hfind : ∀ n, nodeForSymbol nodes key = some n →
      nodes[n.nodeId]? = some n ∧ n.nodeKind = .callable ∧ n.key = key := by
    intro n hn
    refine ⟨hnodes.mem_iff.mp (mem_of_find?_eq_some hn), (hkey n).mp ?_⟩
    simpa using List.find?_some hn
  constructor
  · exact hfind node
  · rintro ⟨hlisted, hnode⟩
    -- Another node of the callable has the same identifier.
    cases hfound : nodeForSymbol nodes key with
    | none =>
      have hnone := List.find?_eq_none.mp hfound node (hnodes.mem_iff.mpr hlisted)
      exact absurd (decide_eq_true ((hkey node).mpr hnode)) hnone
    | some n =>
      obtain ⟨hn, hkind, hnkey⟩ := hfind n hfound
      obtain ⟨d, hd, his, -⟩ := (hnodes _ _ hlisted).2.of_callable hnode.1
      obtain ⟨e, he, his', -⟩ := (hnodes _ _ hn).2.of_callable hkind
      rw [hnode.2] at hd
      rw [hnkey, hd] at he
      obtain rfl := head_eq_of_cons_eq he
      rw [his'.nodeId, ← his.nodeId, hlisted] at hn
      exact hn.symm

theorem listed_eq_some_iff {key : Key} :
    listed nodes key = some depth ↔ ∃ node : FlowNode, nodes[node.nodeId]? = some node ∧
      node.nodeKind = .callable ∧ node.key = key ∧ node.depth = depth := by
  rw [listed, Option.map_eq_some_iff]
  simp only [nodeForSymbol_eq_some_iff hnodes, and_assoc]

/-- A callable that is listed has been declared once. -/
theorem Nodes.declared {key : Key} (h : (listed nodes key).isSome) :
    ∃ d, set.declarations key = [d] ∧ d.row.key = key := by
  obtain ⟨depth, hdepth⟩ := Option.isSome_iff_exists.mp h
  obtain ⟨node, hnode, hkind, rfl, -⟩ := (listed_eq_some_iff hnodes).mp hdepth
  obtain ⟨d, hd, his, -⟩ := (hnodes _ _ hnode).2.of_callable hkind
  exact ⟨d, hd, his.key.symm⟩

theorem listed_insertIfNew_of_eq_some (hnode : IsNode set node) {key : Key}
    (h : listed nodes key = some depth) :
    listed (nodes.insertIfNew node.nodeId node) key = some depth := by
  obtain ⟨n, hn, hrest⟩ := (listed_eq_some_iff hnodes).mp h
  exact (listed_eq_some_iff (hnodes.insert hnode)).mpr
    ⟨n, getElem?_insertIfNew_of_eq_some hn, hrest⟩

/-- A node changes nothing for other callables. -/
theorem listed_insertIfNew_of_ne (hnode : IsNode set node) {key : Key}
    (hne : node.nodeKind = .callable → node.key ≠ key) :
    listed (nodes.insertIfNew node.nodeId node) key = listed nodes key := by
  refine Option.ext fun depth ↦ ⟨fun h ↦ ?_, listed_insertIfNew_of_eq_some hnodes hnode⟩
  obtain ⟨n, hn, hkind, hkey, hdepth⟩ := (listed_eq_some_iff (hnodes.insert hnode)).mp h
  rcases eq_or_of_getElem?_insertIfNew hn with ⟨-, rfl⟩ | hn
  · exact absurd hkey (hne hkind)
  · exact (listed_eq_some_iff hnodes).mpr ⟨n, hn, hkind, hkey, hdepth⟩

end

section Callable

variable (hc : NoCollisions set) (hnodes : Nodes set nodes)
  (hd : set.declarations d.row.key = [d]) (hnode : callableNode set d depth = .ok node)

include hc hnodes hd hnode

/-- An identifier of a callable is in use if and only if the callable is listed. -/
theorem mem_iff_listed : node.nodeId ∈ nodes ↔ (listed nodes node.key).isSome := by
  obtain ⟨his, -, -⟩ := isCallable_of_callableNode hnode
  rw [ExtTreeMap.mem_iff_isSome_getElem?, Option.isSome_iff_exists, Option.isSome_iff_exists]
  constructor
  · rintro ⟨n, hn⟩
    rw [his.nodeId] at hn
    have hn' := hnodes.isCallable hc hd hn
    rw [← hn'.nodeId] at hn
    exact ⟨_, (listed_eq_some_iff hnodes).mpr
      ⟨n, hn, hn'.nodeKind, hn'.key.trans his.key.symm, rfl⟩⟩
  · rintro ⟨k, hk⟩
    obtain ⟨n, hn, hkind, hkey, -⟩ := (listed_eq_some_iff hnodes).mp hk
    obtain ⟨e, he, his', -⟩ := (hnodes _ _ hn).2.of_callable hkind
    rw [hkey, his.key, hd] at he
    obtain rfl := head_eq_of_cons_eq he
    rw [his'.nodeId, ← his.nodeId] at hn
    exact ⟨n, hn⟩

omit hc in
theorem listed_insertIfNew_of_callable (hnew : node.nodeId ∉ nodes) :
    listed (nodes.insertIfNew node.nodeId node) =
      Function.update (listed nodes) node.key (some depth) := by
  obtain ⟨his, rfl, hmember⟩ := isCallable_of_callableNode hnode
  have hisNode : IsNode set node := .callable d hd his hmember
  funext key
  rcases eq_or_ne key node.key with rfl | hne
  · rw [Function.update_self]
    refine (listed_eq_some_iff (hnodes.insert hisNode)).mpr ⟨node, ?_, his.nodeKind, rfl, rfl⟩
    rw [ExtTreeMap.getElem?_insertIfNew, if_pos ⟨compare_eq_iff_eq.mpr rfl, hnew⟩]
  · rw [Function.update_of_ne hne]
    exact listed_insertIfNew_of_ne hnodes hisNode fun _ ↦ hne.symm

end Callable

/-! ## Edges -/

variable {edges : ExtTreeMap String FlowEdge} {edge : FlowEdge} {source : Key}
  {use : Cited UseFact}

variable (set nodes source use) in
/-- The edge of a use. -/
structure IsEdge (edge : FlowEdge) : Prop where
  owns : Owns set source use
  source : ∃ node, nodes[edge.sourceNodeId]? = some node ∧ node.nodeKind = .callable ∧
    node.key = source
  target : edge.targetNodeId ∈ nodes
  support : edge.supportRefs = [use.support]
  material : ∃ material, EdgeMaterial set material ∧
    edge.edgeId = stableId "flow-edge" material ∧
    (material = callMaterial edge.sourceNodeId edge.targetNodeId use.row.factId ∨
      material = handoffEdgeMaterial edge.sourceNodeId edge.targetNodeId use.row.factId)

variable (set nodes) in
/-- Edges are listed under their identifiers. -/
def Edges (edges : ExtTreeMap String FlowEdge) : Prop :=
  ∀ id edge, edges[id]? = some edge →
    edge.edgeId = id ∧ ∃ source use, IsEdge set nodes source use edge

theorem Edges.mem_iff (hedges : Edges set nodes edges) :
    edge ∈ edges.toList.map Prod.snd ↔ edges[edge.edgeId]? = some edge :=
  mem_values_iff fun id edge h ↦ (hedges id edge h).1

variable (nodes edges source use) in
/-- There is an edge for a use. -/
def Represented : Prop :=
  ∃ (edge : FlowEdge) (node : FlowNode), edges[edge.edgeId]? = some edge ∧
    nodes[edge.sourceNodeId]? = some node ∧ node.nodeKind = .callable ∧ node.key = source ∧
    edge.supportRefs = [use.support]

theorem IsEdge.insertIfNew (h : IsEdge set nodes source use edge) :
    IsEdge set (nodes.insertIfNew node.nodeId node) source use edge := by
  obtain ⟨n, hn, hrest⟩ := h.source
  exact ⟨h.owns, ⟨n, getElem?_insertIfNew_of_eq_some hn, hrest⟩,
    ExtTreeMap.mem_insertIfNew.mpr (.inr h.target), h.support, h.material⟩

theorem Edges.insertNode (h : Edges set nodes edges) :
    Edges set (nodes.insertIfNew node.nodeId node) edges := by
  intro id edge hedge
  obtain ⟨hid, source, use, his⟩ := h id edge hedge
  exact ⟨hid, source, use, his.insertIfNew⟩

theorem Edges.insert (hedges : Edges set nodes edges) (h : IsEdge set nodes source use edge) :
    Edges set nodes (edges.insertIfNew edge.edgeId edge) := by
  intro id e he
  rcases eq_or_of_getElem?_insertIfNew he with ⟨hid, rfl⟩ | he
  · exact ⟨hid, source, use, h⟩
  · exact hedges id e he

/-- Edges with the same identifier are edges of the same use. -/
theorem IsEdge.eq_of_edgeId (hc : NoCollisions set) {edge' : FlowEdge} {source' : Key}
    {use' : Cited UseFact} (h : IsEdge set nodes source use edge)
    (h' : IsEdge set nodes source' use' edge') (heq : edge.edgeId = edge'.edgeId) :
    edge.sourceNodeId = edge'.sourceNodeId ∧ use = use' := by
  obtain ⟨material, hmaterial, hid, hfields⟩ := h.material
  obtain ⟨material', hmaterial', hid', hfields'⟩ := h'.material
  obtain rfl := hc.edges hmaterial hmaterial' (hid.symm.trans (heq.trans hid'))
  have hboth : edge.sourceNodeId = edge'.sourceNodeId ∧ use.row.factId = use'.row.factId := by
    rcases hfields with rfl | rfl <;> rcases hfields' with hfields | hfields <;>
      simp_all [callMaterial, handoffEdgeMaterial]
  exact ⟨hboth.1, FactSet.use_ext h.owns.mem h'.owns.mem hboth.2⟩

theorem represented_insertIfNew (hc : NoCollisions set) (hedges : Edges set nodes edges)
    (h : IsEdge set nodes source use edge) :
    Represented nodes (edges.insertIfNew edge.edgeId edge) source use := by
  obtain ⟨node, hnode, hkind, hkey⟩ := h.source
  by_cases hmem : edge.edgeId ∈ edges
  · obtain ⟨e, he⟩ :=
      Option.isSome_iff_exists.mp (ExtTreeMap.mem_iff_isSome_getElem?.mp hmem)
    obtain ⟨hid, source', use', hedge⟩ := hedges _ e he
    obtain ⟨hsource, rfl⟩ := hedge.eq_of_edgeId hc h hid
    rw [← hsource] at hnode
    rw [← hid] at he
    exact ⟨e, node, getElem?_insertIfNew_of_eq_some he, hnode, hkind, hkey, hedge.support⟩
  · refine ⟨edge, node, ?_, hnode, hkind, hkey, h.support⟩
    rw [ExtTreeMap.getElem?_insertIfNew, if_pos ⟨compare_eq_iff_eq.mpr rfl, hmem⟩]

end Listed

end Codeclew.Flow
