import Codeclew.Flow.Listed
import Codeclew.Layers

/-!
# Sound traversals

The traversal is a breadth-first search along `Calls`. `Sound` is what holds of it at every time: it
instantiates `Layers` with the nodes that are listed, and says besides that a budget that cut
something off is used up, that a callable is queued when it is listed as long as there is room for
edges, and that without a boundary every use of a callable that was dealt with has its edge. Each of
the few things that a use can do to a traversal keeps it.
-/

namespace Codeclew.Flow

open Std (ExtTreeMap)
open List

theorem insertIfNew_of_mem {β : Type} {map : ExtTreeMap String β} {id : String} {b : β}
    (h : id ∈ map) : map.insertIfNew id b = map := by
  refine ExtTreeMap.ext_getElem? fun id' ↦ ?_
  rw [ExtTreeMap.getElem?_insertIfNew, if_neg fun hid ↦ hid.2 h]

/-! ## What is not lost -/

section Grows

variable {p p' q : Progress} {node : FlowNode} {edge : FlowEdge} {use : Cited UseFact}

theorem addEdge_visit {key : Key} {depth : ℕ} :
    (p.addEdge edge).visit key depth = (p.visit key depth).addEdge edge := by
  rw [Progress.visit, Progress.visit]
  split_ifs with h h' h'
  · rfl
  · exact absurd h h'
  · exact absurd h' h
  · rfl

@[simp] theorem nodes_visit {key : Key} {depth : ℕ} : (p.visit key depth).nodes = p.nodes := by
  rw [Progress.visit]
  split_ifs <;> rfl

@[simp] theorem edges_visit {key : Key} {depth : ℕ} : (p.visit key depth).edges = p.edges := by
  rw [Progress.visit]
  split_ifs <;> rfl

/-- What a traversal has found is not lost. -/
structure Grows (p p' : Progress) : Prop where
  nodes : ∀ (id : String) (node : FlowNode), p.nodes[id]? = some node → p'.nodes[id]? = some node
  edges : ∀ (id : String) (edge : FlowEdge), p.edges[id]? = some edge → p'.edges[id]? = some edge
  truncations : p.truncations ⊆ p'.truncations
  boundaries : p'.boundaries = ∅ → p.boundaries = ∅

namespace Grows

theorem refl (p : Progress) : Grows p p :=
  ⟨fun _ _ ↦ id, fun _ _ ↦ id, List.Subset.refl _, id⟩

theorem trans (h : Grows p q) (h' : Grows q p') : Grows p p' :=
  ⟨fun id node hnode ↦ h'.nodes id node (h.nodes id node hnode),
    fun id edge hedge ↦ h'.edges id edge (h.edges id edge hedge),
    List.Subset.trans h.truncations h'.truncations,
    fun hempty ↦ h.boundaries (h'.boundaries hempty)⟩

theorem kept (h : Grows p q) (hkept : Kept q p') : Grows p p' where
  nodes := hkept.nodes ▸ h.nodes
  edges := hkept.edges ▸ h.edges
  truncations := hkept.truncations ▸ h.truncations
  boundaries hempty := h.boundaries (hkept.boundaries hempty)

theorem addNode : Grows p { p with nodes := p.nodes.insertIfNew node.nodeId node } where
  __ := Grows.refl p
  nodes _ _ := getElem?_insertIfNew_of_eq_some

theorem truncate (h : Grows p q) {cut : Truncation} :
    Grows p { q with truncations := cut :: q.truncations } where
  __ := h
  truncations := subset_cons_of_subset _ h.truncations

theorem addEdge (h : Grows p q) : Grows p (q.addEdge edge) where
  __ := h
  edges id e he := getElem?_insertIfNew_of_eq_some (h.edges id e he)

theorem visit (h : Grows p q) {key : Key} {depth : ℕ} : Grows p (q.visit key depth) := by
  rw [Progress.visit]
  split_ifs <;> exact ⟨h.nodes, h.edges, h.truncations, h.boundaries⟩

theorem represented (h : Grows p p') {key : Key} (hr : Represented p.nodes p.edges key use) :
    Represented p'.nodes p'.edges key use := by
  obtain ⟨edge, node, hedge, hnode, hrest⟩ := hr
  exact ⟨edge, node, h.edges _ _ hedge, h.nodes _ _ hnode, hrest⟩

end Grows

end Grows

/-! ## Soundness -/

section Sound

variable [Sha256]

/-- Where a traversal stands, when some callables have been dealt with and those at the front are
being dealt with. -/
structure Sound (set : FactSet) (request : FlowRequest) (taken front : List Key) (level : ℕ)
    (p : Progress) : Prop where
  nodes : Nodes set p.nodes
  edges : Edges set p.nodes p.edges
  fullNodes : .nodes ∈ p.truncations → request.budgets.maxNodes ≤ p.nodes.size
  fullEdges : .edges ∈ p.truncations → request.budgets.maxEdges ≤ p.edges.size
  visited : p.visited = taken ++ (front ++ p.queue.map Prod.fst)
  nodup : p.visited.Nodup
  visited_listed : ∀ key ∈ p.visited, (listed p.nodes key).isSome
  queued : .edges ∉ p.truncations → ∀ key, (listed p.nodes key).isSome → key ∈ p.visited
  depths : ∀ entry ∈ p.queue, listed p.nodes entry.1 = some entry.2
  layers : Layers (Calls set) request.rootKey request.budgets.maxDepth (listed p.nodes)
    (front ++ p.queue.map Prod.fst) level (.nodes ∉ p.truncations) (.edges ∉ p.truncations)
  scanned : p.boundaries = ∅ → ∀ key ∈ taken, ∀ use, Owns set key use →
    Represented p.nodes p.edges key use

variable {set : FactSet} {request : FlowRequest} {taken front : List Key} {level : ℕ}
  {p p' : Progress} {node : FlowNode} {edge : FlowEdge} {use : Cited UseFact} {here : At}
  {d : Cited DeclarationFact}

namespace Sound

section

variable (h : Sound set request taken front level p)
include h

theorem kept (hkept : Kept p p') :
    Sound set request taken front level p' := by
  obtain ⟨nodes, edges, boundaries, obligations, truncations, queue, visited⟩ := p
  obtain ⟨nodes', edges', boundaries', obligations', truncations', queue', visited'⟩ := p'
  obtain ⟨hnodes, hedges, htruncations, hqueue, hvisited, hboundaries⟩ := hkept
  simp only at hnodes hedges htruncations hqueue hvisited hboundaries
  subst hnodes hedges htruncations hqueue hvisited
  exact ⟨h.nodes, h.edges, h.fullNodes, h.fullEdges, h.visited, h.nodup, h.visited_listed,
    h.queued, h.depths, h.layers, fun hempty ↦ h.scanned (hboundaries hempty)⟩

/-- A budget that cuts something off is used up. -/
theorem truncate {cut : Truncation}
    (hnodes : cut = .nodes → request.budgets.maxNodes ≤ p.nodes.size)
    (hedges : cut = .edges → request.budgets.maxEdges ≤ p.edges.size) :
    Sound set request taken front level { p with truncations := cut :: p.truncations } where
  __ := h
  fullNodes hmem := (mem_cons.mp hmem).elim (fun heq ↦ hnodes heq.symm) h.fullNodes
  fullEdges hmem := (mem_cons.mp hmem).elim (fun heq ↦ hedges heq.symm) h.fullEdges
  queued hno := h.queued fun hmem ↦ hno (mem_cons_of_mem _ hmem)
  layers := h.layers.weaken (fun hno hmem ↦ hno (mem_cons_of_mem _ hmem))
    (fun hno hmem ↦ hno (mem_cons_of_mem _ hmem))

theorem addEdge {source : Key} {nodes : ExtTreeMap String FlowNode} (hnodes : p.nodes = nodes)
    (hedge : IsEdge set nodes source use edge) :
    Sound set request taken front level (p.addEdge edge) where
  __ := h
  edges := h.edges.insert (hnodes ▸ hedge)
  fullEdges hmem := (h.fullEdges hmem).trans ExtTreeMap.size_le_size_insertIfNew
  scanned hempty key hkey use howns :=
    (Grows.refl p).addEdge.represented (h.scanned hempty key hkey use howns)

theorem addNode (hnode : IsNode set node) (hqueued : .edges ∉ p.truncations →
      ∀ key, (listed (p.nodes.insertIfNew node.nodeId node) key).isSome → key ∈ p.visited)
    (hlayers : Layers (Calls set) request.rootKey request.budgets.maxDepth
      (listed (p.nodes.insertIfNew node.nodeId node)) (front ++ p.queue.map Prod.fst) level
      (.nodes ∉ p.truncations) (.edges ∉ p.truncations)) :
    Sound set request taken front level
      { p with nodes := p.nodes.insertIfNew node.nodeId node } where
  __ := h
  nodes := h.nodes.insert hnode
  edges := h.edges.insertNode
  fullNodes hmem := (h.fullNodes hmem).trans ExtTreeMap.size_le_size_insertIfNew
  visited_listed key hkey := by
    obtain ⟨depth, hdepth⟩ := Option.isSome_iff_exists.mp (h.visited_listed key hkey)
    rw [listed_insertIfNew_of_eq_some h.nodes hnode hdepth]
    rfl
  queued := hqueued
  depths entry hentry := listed_insertIfNew_of_eq_some h.nodes hnode (h.depths entry hentry)
  layers := hlayers
  scanned hempty key hkey use howns :=
    Grows.addNode.represented (h.scanned hempty key hkey use howns)

/-- A handoff that is listed changes nothing for the callables. -/
theorem addBoundaryNode (hnode : IsNode set node) (hkind : node.nodeKind = .boundary) :
    Sound set request taken front level
      { p with nodes := p.nodes.insertIfNew node.nodeId node } := by
  have hlisted : listed (p.nodes.insertIfNew node.nodeId node) = listed p.nodes := by
    funext key
    exact listed_insertIfNew_of_ne h.nodes hnode (by simp [hkind])
  exact h.addNode hnode (hlisted ▸ h.queued) (hlisted ▸ h.layers)

end

section Discover

variable (hc : NoCollisions set) (h : Sound set request taken [here.key] here.depth p)
  (hhere : listed p.nodes here.key = some here.depth)
  (hlt : here.depth < request.budgets.maxDepth) (hcalls : Calls set here.key d.row.key)
  (hd : set.declarations d.row.key = [d])
  (hnode : callableNode set d (here.depth + 1) = .ok node) (hnew : node.nodeId ∉ p.nodes)
  (hroom : p.nodes.size < request.budgets.maxNodes)

include hc h hhere hlt hcalls hd hnode hnew hroom

/-- A callable that is new is listed one level below, and queued if there is room for its edge. -/
theorem layers_discover {active : List Key} {room queued : Prop}
    (hactive : (active = here.key :: p.queue.map Prod.fst ++ [node.key] ∧
        .edges ∉ p.truncations) ∨
      (active = here.key :: p.queue.map Prod.fst ∧ ¬queued)) :
    Layers (Calls set) request.rootKey request.budgets.maxDepth
      (listed (p.nodes.insertIfNew node.nodeId node)) active here.depth room queued := by
  have hkey := (isCallable_of_callableNode hnode).1.key
  have hnone : listed p.nodes node.key = none := by
    rw [mem_iff_listed hc h.nodes hd hnode] at hnew
    exact Option.not_isSome_iff_eq_none.mp hnew
  rw [listed_insertIfNew_of_callable h.nodes hd hnode hnew]
  exact h.layers.discover hhere hlt (hkey ▸ hcalls) hnone
    (fun hmem ↦ absurd (h.fullNodes hmem) (Nat.not_le.mpr hroom)) hactive

theorem discoverCut (hfull : request.budgets.maxEdges ≤ p.edges.size) :
    Sound set request taken [here.key] here.depth
      { p with nodes := p.nodes.insertIfNew node.nodeId node,
               truncations := .edges :: p.truncations } := by
  obtain ⟨his, -, hmember⟩ := isCallable_of_callableNode hnode
  have hcut : Sound set request taken [here.key] here.depth
      { p with truncations := .edges :: p.truncations } := h.truncate nofun fun _ ↦ hfull
  exact hcut.addNode (.callable d hd his hmember) (fun hno ↦ absurd mem_cons_self hno)
    (h.layers_discover hc hhere hlt hcalls hd hnode hnew hroom
      (.inr ⟨rfl, fun hno ↦ hno mem_cons_self⟩))

theorem discover (hedges : p.edges.size < request.budgets.maxEdges) :
    Sound set request taken [here.key] here.depth
      (Progress.visit { p with nodes := p.nodes.insertIfNew node.nodeId node } node.key
        (here.depth + 1)) := by
  obtain ⟨his, -, hmember⟩ := isCallable_of_callableNode hnode
  have hisNode : IsNode set node := .callable d hd his hmember
  have hunlisted : ¬(listed p.nodes node.key).isSome := by
    rwa [← mem_iff_listed hc h.nodes hd hnode]
  have hunvisited : node.key ∉ p.visited := fun hmem ↦ hunlisted (h.visited_listed _ hmem)
  have hupdate := listed_insertIfNew_of_callable h.nodes hd hnode hnew
  have hself : listed (p.nodes.insertIfNew node.nodeId node) node.key = some (here.depth + 1) := by
    rw [hupdate, Function.update_self]
  rw [Progress.visit, if_neg hunvisited]
  exact {
    nodes := h.nodes.insert hisNode
    edges := h.edges.insertNode
    fullNodes := fun hmem ↦ (h.fullNodes hmem).trans ExtTreeMap.size_le_size_insertIfNew
    fullEdges := h.fullEdges
    visited := by simp [h.visited]
    nodup := by
      rw [nodup_append]
      refine ⟨h.nodup, nodup_singleton _, fun a ha b hb hab ↦ hunvisited ?_⟩
      rwa [← mem_singleton.mp hb, ← hab]
    visited_listed := fun key hkey ↦ by
      rcases mem_append.mp hkey with hkey | hkey
      · obtain ⟨depth, hdepth⟩ := Option.isSome_iff_exists.mp (h.visited_listed key hkey)
        rw [listed_insertIfNew_of_eq_some h.nodes hisNode hdepth]
        rfl
      · rw [mem_singleton.mp hkey, hself]
        rfl
    queued := fun hno key hkey ↦ by
      rcases eq_or_ne key node.key with rfl | hne
      · exact mem_append_right _ (mem_singleton_self _)
      · rw [hupdate, Function.update_of_ne hne] at hkey
        exact mem_append_left _ (h.queued hno key hkey)
    depths := fun entry hentry ↦ by
      rcases mem_append.mp hentry with hentry | hentry
      · exact listed_insertIfNew_of_eq_some h.nodes hisNode (h.depths entry hentry)
      · obtain rfl := mem_singleton.mp hentry
        exact hself
    layers := h.layers_discover hc hhere hlt hcalls hd hnode hnew hroom
      (.inl ⟨by simp, fun hmem ↦ absurd (h.fullEdges hmem) (Nat.not_le.mpr hedges)⟩)
    scanned := fun hempty key hkey use howns ↦
      Grows.addNode.represented (h.scanned hempty key hkey use howns) }

end Discover

/-! ## One use -/

section Follow

variable (hc : NoCollisions set) (h : Sound set request taken [here.key] here.depth p)
  (hnodeFor : nodeForSymbol p.nodes here.key = some here.node)
  (hhere : listed p.nodes here.key = some here.depth)
  (hlt : here.depth < request.budgets.maxDepth) (hunambiguous : Unambiguous set here.key)
  (howns : Owns set here.key use)

/-- The callable that the traversal is at has been declared. -/
theorem declared_here (hnodes : Nodes set p.nodes)
    (hnodeFor : nodeForSymbol p.nodes here.key = some here.node) :
    (p.nodes[here.node.nodeId]? = some here.node ∧ here.node.nodeKind = .callable ∧
      here.node.key = here.key) ∧
      ∃ d, set.declarations here.key = [d] ∧ here.node.nodeId = d.row.nodeId := by
  have hnode := (nodeForSymbol_eq_some_iff hnodes).mp hnodeFor
  obtain ⟨d, hd, his, -⟩ := (hnodes _ _ hnode.1).2.of_callable hnode.2.1
  exact ⟨hnode, d, hnode.2.2 ▸ hd, his.nodeId⟩

include hc h hhere hlt hunambiguous howns

theorem edgeRefused (hleads : Leads set here use node) (hrefused : EdgeRefused request node p p') :
    Sound set request taken [here.key] here.depth p' := by
  refine Sound.kept ?_ hrefused.kept
  cases hleads with
  | call d declared resolves eq_ok =>
    by_cases hnew : node.nodeId ∈ p.nodes
    · rw [insertIfNew_of_mem hnew]
      exact h.truncate nofun fun _ ↦ hrefused.full
    · exact h.discoverCut hc hhere hlt ⟨hunambiguous, use, howns, resolves⟩ declared eq_ok hnew
        (hrefused.room.resolve_left hnew) hrefused.full
  | handoff member mem unresolved eq =>
    subst eq
    exact (h.addBoundaryNode (.handoff member use mem howns.mem rfl rfl) rfl).truncate nofun
      fun _ ↦ hrefused.full

include hnodeFor

omit hc hhere hlt hunambiguous in
theorem handoff {source target : CallableMemberBinding} (hmem : target ∈ set.members)
    (hnode : node = declaredHandoffNode target use.row.targetCallableId (here.depth + 1)) :
    Sound set request taken [here.key] here.depth
      (Progress.addEdge { p with nodes := p.nodes.insertIfNew node.nodeId node }
        (handoffEdge here use source target node.nodeId)) := by
  subst hnode
  have hisNode : IsNode set
      (declaredHandoffNode target use.row.targetCallableId (here.depth + 1)) :=
    .handoff target use hmem howns.mem rfl rfl
  obtain ⟨⟨hnode, hrest⟩, d, hd, hid⟩ := declared_here h.nodes hnodeFor
  refine (h.addBoundaryNode hisNode rfl).addEdge rfl ⟨howns,
    ⟨here.node, getElem?_insertIfNew_of_eq_some hnode, hrest⟩, ExtTreeMap.mem_insertIfNew_self,
    rfl, _, .handoff howns hd hmem, ?_, .inr ?_⟩
  · rw [← hid]
    rfl
  · rw [← hid]
    rfl

omit hc hhere hlt hunambiguous in
theorem isEdge_call {order : Order} {source : CallableMemberBinding}
    (hd : set.declarations d.row.key = [d])
    (hresolves : Resolves set here.key.1 use.row d.row.key)
    (hnode : callableNode set d (here.depth + 1) = .ok node) :
    IsEdge set (p.nodes.insertIfNew node.nodeId node) here.key use
      (callEdge here use source node.nodeId order) := by
  obtain ⟨⟨hnode', hrest⟩, e, he, hid⟩ := declared_here h.nodes hnodeFor
  refine ⟨howns, ⟨here.node, getElem?_insertIfNew_of_eq_some hnode', hrest⟩,
    ExtTreeMap.mem_insertIfNew_self, rfl, _, .call howns he hd hresolves, ?_, .inl ?_⟩
  · rw [← hid, ← (isCallable_of_callableNode hnode).1.nodeId]
    rfl
  · rw [← hid, ← (isCallable_of_callableNode hnode).1.nodeId]
    rfl

theorem call {order : Order} {source : CallableMemberBinding}
    (hd : set.declarations d.row.key = [d])
    (hresolves : Resolves set here.key.1 use.row d.row.key)
    (hnode : callableNode set d (here.depth + 1) = .ok node)
    (hroom : node.nodeId ∈ p.nodes ∨ p.nodes.size < request.budgets.maxNodes)
    (hedges : p.edges.size < request.budgets.maxEdges) :
    Sound set request taken [here.key] here.depth
      ((Progress.addEdge { p with nodes := p.nodes.insertIfNew node.nodeId node }
        (callEdge here use source node.nodeId order)).visit node.key (here.depth + 1)) := by
  have hisEdge : IsEdge set (p.nodes.insertIfNew node.nodeId node) here.key use
      (callEdge here use source node.nodeId order) :=
    h.isEdge_call hnodeFor howns hd hresolves hnode
  rw [addEdge_visit]
  by_cases hnew : node.nodeId ∈ p.nodes
  · -- The callable was queued when it was listed, since there is still room for edges.
    have hvisited : node.key ∈ p.visited := h.queued
      (fun hmem ↦ absurd (h.fullEdges hmem) (Nat.not_le.mpr hedges)) node.key
      ((mem_iff_listed hc h.nodes hd hnode).mp hnew)
    rw [insertIfNew_of_mem hnew] at hisEdge ⊢
    rw [Progress.visit, if_pos hvisited]
    exact h.addEdge rfl hisEdge
  · have hsound := h.discover hc hhere hlt ⟨hunambiguous, use, howns, hresolves⟩ hd hnode hnew
      (hroom.resolve_left hnew) hedges
    exact hsound.addEdge nodes_visit hisEdge

/-- A use keeps a traversal sound. -/
theorem follow (hfollowed : Followed set request here use p p') :
    Sound set request taken [here.key] here.depth p' := by
  cases hfollowed with
  | stopped unresolved kept marked => exact h.kept kept
  | nodeRefused node refused =>
    have hcut : Sound set request taken [here.key] here.depth
        { p with truncations := .nodes :: p.truncations } :=
      h.truncate (fun _ ↦ refused.full) nofun
    exact hcut.kept refused.kept
  | edgeRefused node leads refused =>
    exact h.edgeRefused hc hhere hlt hunambiguous howns leads refused
  | handoff node source target mem unresolved eq room kept marked =>
    exact (h.handoff hnodeFor howns mem eq).kept kept
  | call node d source order declared resolves eq_ok room edges kept =>
    exact (h.call hc hnodeFor hhere hlt hunambiguous howns declared resolves eq_ok room edges).kept
      kept

end Follow

end Sound

omit [Sha256] in
theorem Resolves.unique {memberAlias : String} {row : UseFact} {key key' : Key}
    (h : Resolves set memberAlias row key) (h' : Resolves set memberAlias row key') : key = key' :=
  Prod.ext (h.same.trans h'.same.symm) (Option.some.inj (h.symbol.symm.trans h'.symbol))

/-- What a use resolves to is listed, if there is room. -/
theorem Followed.listed (h : Followed set request here use p p') (hc : NoCollisions set)
    (hnodes : Nodes set p'.nodes) (hroom : .nodes ∉ p'.truncations) {target : Key}
    (htarget : Resolves set here.key.1 use.row target) : (listed p'.nodes target).isSome := by
  have hcall : ∀ d, set.declarations d.row.key = [d] →
      Resolves set here.key.1 use.row d.row.key →
      ∀ node, callableNode set d (here.depth + 1) = .ok node → node.nodeId ∈ p'.nodes →
      (Flow.listed p'.nodes target).isSome := by
    intro d hd hresolves node hnode hmem
    rw [htarget.unique hresolves, ← (isCallable_of_callableNode hnode).1.key]
    exact (mem_iff_listed hc hnodes hd hnode).mp hmem
  cases h with
  | stopped unresolved kept marked => exact absurd htarget (unresolved target)
  | nodeRefused node refused =>
    rw [refused.kept.truncations] at hroom
    exact absurd mem_cons_self hroom
  | edgeRefused node leads refused =>
    cases leads with
    | call d declared resolves eq_ok =>
      refine hcall d declared resolves node eq_ok ?_
      rw [refused.kept.nodes]
      exact ExtTreeMap.mem_insertIfNew_self
    | handoff member mem unresolved eq => exact absurd htarget (unresolved target)
  | handoff node source member mem unresolved eq room kept marked =>
    exact absurd htarget (unresolved target)
  | call node d source order declared resolves eq_ok room edges kept =>
    refine hcall d declared resolves node eq_ok ?_
    rw [kept.nodes, nodes_visit]
    exact ExtTreeMap.mem_insertIfNew_self

/-- A use that leaves no boundary has an edge. -/
theorem Followed.represented (hf : Followed set request here use p p') (hc : NoCollisions set)
    (h : Sound set request taken [here.key] here.depth p)
    (hnodeFor : nodeForSymbol p.nodes here.key = some here.node) (howns : Owns set here.key use)
    (hempty : p'.boundaries = ∅) : Represented p'.nodes p'.edges here.key use := by
  cases hf with
  | stopped unresolved kept marked => exact absurd hempty marked
  | nodeRefused node refused => exact absurd hempty refused.marked
  | edgeRefused node leads refused => exact absurd hempty refused.marked
  | handoff node source member mem unresolved eq room kept marked => exact absurd hempty marked
  | call node d source order declared resolves eq_ok room edges kept =>
    rw [kept.nodes, kept.edges, nodes_visit, edges_visit]
    exact represented_insertIfNew hc h.edges.insertNode
      (h.isEdge_call hnodeFor howns declared resolves eq_ok)

namespace Grows

theorem listed (h : Grows p p') (hnodes : Nodes set p.nodes) (hnodes' : Nodes set p'.nodes)
    {key : Key} {depth : ℕ} (hk : listed p.nodes key = some depth) :
    Flow.listed p'.nodes key = some depth := by
  obtain ⟨node, hnode, hrest⟩ := (listed_eq_some_iff hnodes).mp hk
  exact (listed_eq_some_iff hnodes').mpr ⟨node, h.nodes _ _ hnode, hrest⟩

theorem followed (h : Followed set request here use p p') : Grows p p' := by
  cases h with
  | stopped unresolved kept marked => exact (Grows.refl p).kept kept
  | nodeRefused node refused => exact (Grows.refl p).truncate.kept refused.kept
  | edgeRefused node leads refused => exact Grows.addNode.truncate.kept refused.kept
  | handoff node source target mem unresolved eq room kept marked =>
    exact Grows.addNode.addEdge.kept kept
  | call node d source order declared resolves eq_ok room edges kept =>
    exact Grows.addNode.addEdge.visit.kept kept

end Grows

end Sound

end Codeclew.Flow
