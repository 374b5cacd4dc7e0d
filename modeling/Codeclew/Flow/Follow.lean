import Codeclew.Association
import Codeclew.Flow.Build

/-!
# Following a use

What one use of a callable can do to a traversal. The relation `Calls` says which declarations the
uses of a declaration lead to, in terms of the facts; `resolveUse_eq_call_iff` connects it with the
decisions of the traversal. `Followed` lists what can come of a use.
-/

namespace Codeclew.Flow

open Std List ExtTreeMap

/-! ## Calls -/

variable {set : FactSet}

/-- A use is one of a declaration. -/
structure Owns (set : FactSet) (key : Key) (use : Cited UseFact) : Prop where
  mem : use ∈ set.allUses
  member : use.row.provenance.memberAlias = key.1
  owner : ∃ d, set.declarations key = [d] ∧ d.row.compilerCallableId = some use.row.sourceOwner

/-- No other declaration of the member has the compiler's name for this one. -/
def Unambiguous (set : FactSet) (key : Key) : Prop :=
  ∃ d callableId, set.declarations key = [d] ∧ d.row.compilerCallableId = some callableId ∧
    (set.callableFamily key.1 callableId).length = 1

/-- A use of a member points to one symbol of the same member, which is declared once. -/
structure Resolves (set : FactSet) (memberAlias : String) (row : UseFact) (target : Key) :
    Prop where
  authority : row.relationshipAuthority = .verifiedSameSnapshotCompilationDependency
  member : ∃ member, set.member? memberAlias = some member ∧
    row.targetRepositoryNamespace = some member.repositoryNamespace
  resolution : row.targetResolution = .exactSymbol
  symbol : row.targetSymbolIdentity = some target.2
  same : target.1 = memberAlias
  declared : (set.declarations target).length = 1

/-- A declaration leads to another by one of its uses. -/
def Calls (set : FactSet) (source target : Key) : Prop :=
  Unambiguous set source ∧ ∃ use, Owns set source use ∧ Resolves set source.1 use.row target

variable {member : CallableMemberBinding} {memberAlias : String}

theorem FactSet.member?_eq_some_iff :
    set.member? memberAlias = some member ↔
      member ∈ set.members ∧ member.memberAlias = memberAlias :=
  Association.find_eq_some_iff set.distinctAliases

theorem FactSet.memberIn?_eq_some_iff {repositoryNamespace : String} :
    set.memberIn? repositoryNamespace = some member ↔
      member ∈ set.members ∧ member.repositoryNamespace = repositoryNamespace :=
  Association.find_eq_some_iff set.distinctNamespaces

variable {row : UseFact}

/-- A use leads to the member that has its namespace. -/
theorem targetMember_eq_some_iff (hmember : set.member? memberAlias = some member) :
    targetMember set row = some memberAlias ↔
      row.targetRepositoryNamespace = some member.repositoryNamespace := by
  obtain ⟨hmem, halias⟩ := FactSet.member?_eq_some_iff.mp hmember
  rw [targetMember, Option.map_eq_some_iff]
  constructor
  · rintro ⟨other, hother, halias'⟩
    obtain ⟨repositoryNamespace, hrow, hother⟩ := Option.bind_eq_some_iff.mp hother
    obtain ⟨hmem', rfl⟩ := FactSet.memberIn?_eq_some_iff.mp hother
    rw [hrow, inj_on_of_nodup_map set.distinctAliases hmem' hmem (halias'.trans halias.symm)]
  · intro hrow
    refine ⟨member, ?_, halias⟩
    rw [hrow]
    exact FactSet.memberIn?_eq_some_iff.mpr ⟨hmem, rfl⟩

theorem sameMember_iff (hmember : set.member? memberAlias = some member) :
    sameMember set memberAlias row = true ↔
      row.targetRepositoryNamespace = some member.repositoryNamespace ∧
        row.relationshipAuthority = .verifiedSameSnapshotCompilationDependency := by
  rw [sameMember, Bool.and_eq_true, beq_iff_eq, beq_iff_eq, targetMember_eq_some_iff hmember]

theorem FactSet.key_of_mem_declarations {key : Key} {d : Cited DeclarationFact}
    (h : d ∈ set.declarations key) : d ∈ set.exactDeclarations ∧ d.row.key = key := by
  simpa [FactSet.declarations] using h

theorem exactTarget_eq_some_iff {symbol : String} :
    row.exactTarget = some symbol ↔
      row.targetResolution = .exactSymbol ∧ row.targetSymbolIdentity = some symbol := by
  rw [UseFact.exactTarget, Option.ite_none_right_eq_some]

theorem requireMember_eq_ok {memberAlias message : String}
    (h : set.member? memberAlias = some member) :
    requireMember set memberAlias message = .ok member := by
  rw [requireMember, h]

/-- Uses are told apart by their identifiers. -/
theorem FactSet.use_ext {u v : Cited UseFact} (hu : u ∈ set.allUses) (hv : v ∈ set.allUses)
    (h : u.row.factId = v.row.factId) : u = v := by
  have hfact : ∀ w ∈ set.allUses, ∃ indexed ∈ set.facts,
      indexed.fact = .use w.row ∧ w.support = indexed.support := by
    intro w hw
    obtain ⟨indexed, hindexed, heq⟩ := mem_filterMap.mp hw
    split at heq
    · obtain rfl := Option.some.inj heq
      exact ⟨indexed, hindexed, ‹_›, rfl⟩
    · cases heq
  obtain ⟨i, hi, hurow, husupport⟩ := hfact u hu
  obtain ⟨j, hj, hvrow, hvsupport⟩ := hfact v hv
  have hij : i = j := by
    refine inj_on_of_nodup_map set.distinctFacts hi hj ?_
    rw [hurow, hvrow]
    exact h
  subst hij
  obtain ⟨urow, usupport⟩ := u
  obtain ⟨vrow, vsupport⟩ := v
  rw [hurow, CallableFact.use.injEq] at hvrow
  simp only at hvrow husupport hvsupport
  rw [hvrow, husupport, hvsupport]

section Resolve

variable {pair : CallablePairBinding} {memberAlias : String} {row : UseFact}
  {member source : CallableMemberBinding} {d : Cited DeclarationFact}
  (hmember : set.member? memberAlias = some member)

include hmember

theorem resolveCall_eq_call_iff :
    resolveCall set memberAlias row = .ok (.call source d) ↔
      source = member ∧ ∃ symbol, row.exactTarget = some symbol ∧
        set.declarations (memberAlias, symbol) = [d] := by
  rw [resolveCall.eq_def]
  rcases row.exactTarget with _ | symbol
  · simp
  · rcases hdeclarations : set.declarations (memberAlias, symbol) with _ | ⟨t, _ | ⟨_, _⟩⟩
    · simp [hdeclarations]
    · simp only [hdeclarations, requireMember_eq_ok hmember, ok_bind]
      constructor
      · rintro ⟨⟩
        exact ⟨rfl, symbol, rfl, hdeclarations⟩
      · rintro ⟨rfl, _, heq, hd⟩
        obtain rfl := Option.some.inj heq
        rw [hdeclarations] at hd
        obtain rfl := head_eq_of_cons_eq hd
        rfl
    · simp [hdeclarations]

omit hmember in
theorem resolveHandoff_cases {r : Resolution}
    (h : resolveHandoff set pair memberAlias row = .ok r) :
    (∃ code subject check, r = .stop code subject check) ∨
      ∃ source target, r = .handoff source target ∧ target ∈ set.members := by
  rw [resolveHandoff] at h
  split_ifs at h
  · cases h
    exact .inl ⟨_, _, _, rfl⟩
  · cases h
    exact .inl ⟨_, _, _, rfl⟩
  · obtain ⟨target, htarget, h⟩ := bind_eq_ok_iff.mp h
    obtain ⟨source, -, h⟩ := bind_eq_ok_iff.mp h
    cases h
    refine .inr ⟨source, target, rfl, ?_⟩
    rw [requireMember] at htarget
    split at htarget
    · cases htarget
      exact (FactSet.member?_eq_some_iff.mp ‹_›).1
    · cases htarget

omit hmember in
/-- A use that stays not within its member stops, or is handed to a member. -/
theorem resolveUse_cases {r : Resolution} (hsame : ¬sameMember set memberAlias row = true)
    (h : resolveUse set pair memberAlias row = .ok r) :
    (∃ code subject check, r = .stop code subject check) ∨
      ∃ source target, r = .handoff source target ∧ target ∈ set.members := by
  rw [resolveUse, if_neg hsame] at h
  split_ifs at h
  · cases h
    exact .inl ⟨_, _, _, rfl⟩
  · split at h
    · cases h
      exact .inl ⟨_, _, _, rfl⟩
    · exact resolveHandoff_cases h
    · cases h
      exact .inl ⟨_, _, _, rfl⟩

theorem target_mem_of_resolveUse {target : CallableMemberBinding}
    (h : resolveUse set pair memberAlias row = .ok (.handoff source target)) :
    target ∈ set.members := by
  by_cases hsame : sameMember set memberAlias row = true
  · rw [resolveUse, if_pos hsame, resolveCall.eq_def] at h
    split at h
    · cases h
    · split at h
      · cases h
      · rw [requireMember_eq_ok hmember] at h
        cases h
      · cases h
  · rcases resolveUse_cases hsame h with ⟨_, _, _, heq⟩ | ⟨_, _, heq, hmem⟩
    · cases heq
    · cases heq
      exact hmem

/-- The decision for a call, in terms of the facts. -/
theorem resolveUse_eq_call_iff :
    resolveUse set pair memberAlias row = .ok (.call source d) ↔
      source = member ∧ Resolves set memberAlias row d.row.key ∧
        set.declarations d.row.key = [d] := by
  by_cases hsame : sameMember set memberAlias row = true
  · rw [resolveUse, if_pos hsame, resolveCall_eq_call_iff hmember]
    obtain ⟨htarget, hauthority⟩ := (sameMember_iff hmember).mp hsame
    refine and_congr_right fun _ ↦ ⟨?_, ?_⟩
    · rintro ⟨symbol, hsymbol, hd⟩
      obtain ⟨hresolution, hsymbol⟩ := exactTarget_eq_some_iff.mp hsymbol
      have hkey : d.row.key = (memberAlias, symbol) :=
        (FactSet.key_of_mem_declarations (hd ▸ mem_singleton_self d)).2
      rw [hkey]
      exact ⟨⟨hauthority, ⟨member, hmember, htarget⟩, hresolution, hsymbol, rfl, by rw [hd]; rfl⟩,
        hd⟩
    · rintro ⟨hresolves, hd⟩
      refine ⟨d.row.key.2, exactTarget_eq_some_iff.mpr ⟨hresolves.resolution, hresolves.symbol⟩, ?_⟩
      rw [← hresolves.same]
      exact hd
  · refine iff_of_false (fun h ↦ ?_) ?_
    · rcases resolveUse_cases hsame h with ⟨_, _, _, heq⟩ | ⟨_, _, heq, -⟩ <;> cases heq
    · rintro ⟨-, hresolves, -⟩
      obtain ⟨other, hother, htarget⟩ := hresolves.member
      obtain rfl := Option.some.inj (hother.symm.trans hmember)
      exact hsame ((sameMember_iff hmember).mpr ⟨htarget, hresolves.authority⟩)

end Resolve

/-! ## Boundaries -/

/-- Nothing has changed but the boundaries, of which there are at least as many. -/
structure Kept (p p' : Progress) : Prop where
  nodes : p'.nodes = p.nodes
  edges : p'.edges = p.edges
  truncations : p'.truncations = p.truncations
  queue : p'.queue = p.queue
  visited : p'.visited = p.visited
  boundaries : p'.boundaries = ∅ → p.boundaries = ∅

theorem Kept.refl (p : Progress) : Kept p p := ⟨rfl, rfl, rfl, rfl, rfl, id⟩

theorem Kept.trans {p q r : Progress} (h : Kept p q) (h' : Kept q r) : Kept p r :=
  ⟨h'.nodes.trans h.nodes, h'.edges.trans h.edges, h'.truncations.trans h.truncations,
    h'.queue.trans h.queue, h'.visited.trans h.visited, fun hr ↦ h.boundaries (h'.boundaries hr)⟩

section Boundaries

variable [Sha256] {request : FlowRequest} {p p' : Progress}

theorem kept_of_addBoundary {code subject : String} {checks : List String}
    {refs : List FlowSupportRef} (h : addBoundary request p code subject checks refs = .ok p') :
    Kept p p' ∧ p'.boundaries ≠ ∅ := by
  rw [addBoundary] at h
  split_ifs at h
  cases h
  exact ⟨⟨rfl, rfl, rfl, rfl, rfl, fun hempty ↦ absurd hempty insertIfNew_ne_empty⟩,
    insertIfNew_ne_empty⟩

variable {use : Cited UseFact}

theorem kept_of_orderOf {cfg : Option LocalCfgCatalog} {here : At} {order : Order}
    (h : orderOf request cfg here use p = .ok (order, p')) : Kept p p' := by
  rw [orderOf.eq_def] at h
  split at h
  · cases h
    exact .refl p
  split at h
  · cases h
    exact .refl p
  split at h
  · cases h
    exact .refl p
  · obtain ⟨q, hq, h⟩ := bind_eq_ok_iff.mp h
    cases h
    exact (kept_of_addBoundary hq).1

/-! ## Steps -/

/-- The node is not listed, since there are too many. -/
structure NodeRefused (request : FlowRequest) (node : FlowNode) (p p' : Progress) : Prop where
  absent : node.nodeId ∉ p.nodes
  full : request.budgets.maxNodes ≤ p.nodes.size
  kept : Kept { p with truncations := .nodes :: p.truncations } p'
  marked : p'.boundaries ≠ ∅

/-- The node is listed, but there are too many edges for another one. -/
structure EdgeRefused (request : FlowRequest) (node : FlowNode) (p p' : Progress) : Prop where
  room : node.nodeId ∈ p.nodes ∨ p.nodes.size < request.budgets.maxNodes
  full : request.budgets.maxEdges ≤ p.edges.size
  kept : Kept { p with nodes := p.nodes.insertIfNew node.nodeId node,
                       truncations := .edges :: p.truncations } p'
  marked : p'.boundaries ≠ ∅

theorem join_cases {here : At} {subject : String} {node : FlowNode}
    {link : Progress → Except ClewError Progress}
    (h : join request here use subject node p link = .ok p') :
    NodeRefused request node p p' ∨ EdgeRefused request node p p' ∨
      ((node.nodeId ∈ p.nodes ∨ p.nodes.size < request.budgets.maxNodes) ∧
        p.edges.size < request.budgets.maxEdges ∧
        link { p with nodes := p.nodes.insertIfNew node.nodeId node } = .ok p') := by
  rw [join] at h
  split_ifs at h with hnode
  · obtain ⟨hkept, hmarked⟩ := kept_of_addBoundary h
    refine .inl ⟨fun hmem ↦ ?_, hnode.2, hkept, hmarked⟩
    rw [mem_iff_contains, hnode.1] at hmem
    cases hmem
  have hroom : node.nodeId ∈ p.nodes ∨ p.nodes.size < request.budgets.maxNodes := by
    rw [not_and_or, Bool.not_eq_false, Nat.not_le] at hnode
    exact hnode.imp_left mem_iff_contains.mpr
  dsimp only at h
  split_ifs at h with hedge
  · obtain ⟨hkept, hmarked⟩ := kept_of_addBoundary h
    exact .inr (.inl ⟨hroom, hedge, hkept, hmarked⟩)
  · exact .inr (.inr ⟨hroom, Nat.not_le.mp hedge, h⟩)

section Followed

variable (set request) (here : At) (use : Cited UseFact)

/-- The node that a use leads to. -/
inductive Leads (node : FlowNode) : Prop
  | call (d : Cited DeclarationFact) (declared : set.declarations d.row.key = [d])
      (resolves : Resolves set here.key.1 use.row d.row.key)
      (eq_ok : callableNode set d (here.depth + 1) = .ok node)
  | handoff (member : CallableMemberBinding) (mem : member ∈ set.members)
      (unresolved : ∀ target, ¬Resolves set here.key.1 use.row target)
      (eq : node = declaredHandoffNode member use.row.targetCallableId (here.depth + 1))

/-- What can come of a use: it leads nowhere, to a node that there is no room for, to another
component, or to a callable. -/
inductive Followed (p p' : Progress) : Prop
  | stopped (unresolved : ∀ target, ¬Resolves set here.key.1 use.row target)
      (kept : Kept p p') (marked : p'.boundaries ≠ ∅)
  | nodeRefused (node : FlowNode) (refused : NodeRefused request node p p')
  | edgeRefused (node : FlowNode) (leads : Leads set here use node)
      (refused : EdgeRefused request node p p')
  | handoff (node : FlowNode) (source target : CallableMemberBinding)
      (mem : target ∈ set.members)
      (unresolved : ∀ target, ¬Resolves set here.key.1 use.row target)
      (eq : node = declaredHandoffNode target use.row.targetCallableId (here.depth + 1))
      (room : node.nodeId ∈ p.nodes ∨ p.nodes.size < request.budgets.maxNodes)
      (kept : Kept (Progress.addEdge { p with nodes := p.nodes.insertIfNew node.nodeId node }
        (handoffEdge here use source target node.nodeId)) p')
      (marked : p'.boundaries ≠ ∅)
  | call (node : FlowNode) (d : Cited DeclarationFact) (source : CallableMemberBinding)
      (order : Order) (declared : set.declarations d.row.key = [d])
      (resolves : Resolves set here.key.1 use.row d.row.key)
      (eq_ok : callableNode set d (here.depth + 1) = .ok node)
      (room : node.nodeId ∈ p.nodes ∨ p.nodes.size < request.budgets.maxNodes)
      (edges : p.edges.size < request.budgets.maxEdges)
      (kept : Kept ((Progress.addEdge { p with nodes := p.nodes.insertIfNew node.nodeId node }
        (callEdge here use source node.nodeId order)).visit node.key (here.depth + 1)) p')

end Followed

variable {here : At} {use : Cited UseFact} {pair : CallablePairBinding}
  {cfg : Option LocalCfgCatalog} {member : CallableMemberBinding}

omit [Sha256] in
theorem Kept.addEdge (h : Kept p p') (edge : FlowEdge) : Kept (p.addEdge edge) (p'.addEdge edge) :=
  ⟨h.nodes, congrArg (·.insertIfNew edge.edgeId edge) h.edges, h.truncations, h.queue, h.visited,
    h.boundaries⟩

omit [Sha256] in
theorem Kept.visit (h : Kept p p') (key : Key) (depth : ℕ) :
    Kept (p.visit key depth) (p'.visit key depth) := by
  rw [Progress.visit, Progress.visit, h.visited]
  split_ifs
  · exact h
  · exact ⟨h.nodes, h.edges, h.truncations, congrArg (· ++ [(key, depth)]) h.queue, rfl,
      h.boundaries⟩

omit [Sha256] in
/-- A use that resolves is a call. -/
theorem not_resolves_of_resolveUse (hmember : set.member? here.key.1 = some member)
    {r : Resolution} (h : resolveUse set pair here.key.1 use.row = .ok r)
    (hr : ∀ source target, r ≠ .call source target) (target : Key) :
    ¬Resolves set here.key.1 use.row target := by
  intro hresolves
  obtain ⟨d, hd⟩ := length_eq_one_iff.mp hresolves.declared
  have hkey := (FactSet.key_of_mem_declarations (hd ▸ mem_singleton_self d)).2
  rw [← hkey] at hresolves hd
  have hcall : resolveUse set pair here.key.1 use.row = .ok (.call member d) :=
    (resolveUse_eq_call_iff hmember).mpr ⟨rfl, hresolves, hd⟩
  exact hr _ _ (Except.ok.inj (h.symm.trans hcall))

theorem followUse_cases (hmember : set.member? here.key.1 = some member)
    (h : followUse set request pair cfg here p use = .ok p') :
    Followed set request here use p p' := by
  rw [followUse] at h
  obtain ⟨r, hr, h⟩ := bind_eq_ok_iff.mp h
  cases r with
  | stop code subject check =>
    obtain ⟨hkept, hmarked⟩ := kept_of_addBoundary h
    exact .stopped (not_resolves_of_resolveUse hmember hr nofun) hkept hmarked
  | handoff source target =>
    have hunresolved := not_resolves_of_resolveUse hmember hr nofun
    have hmem := target_mem_of_resolveUse hmember hr
    rcases join_cases h with hrefused | hrefused | ⟨hroom, -, h⟩
    · exact .nodeRefused _ hrefused
    · exact .edgeRefused _ (.handoff target hmem hunresolved rfl) hrefused
    · obtain ⟨hkept, hmarked⟩ := kept_of_addBoundary h
      exact .handoff _ source target hmem hunresolved rfl hroom hkept hmarked
  | call source d =>
    obtain ⟨-, hresolves, hdeclared⟩ := (resolveUse_eq_call_iff hmember).mp hr
    obtain ⟨node, hnode, h⟩ := bind_eq_ok_iff.mp h
    rcases join_cases h with hrefused | hrefused | ⟨hroom, hedges, h⟩
    · exact .nodeRefused _ hrefused
    · exact .edgeRefused _ (.call d hdeclared hresolves hnode) hrefused
    · obtain ⟨⟨order, q⟩, horder, h⟩ := bind_eq_ok_iff.mp h
      cases h
      exact .call node d source order hdeclared hresolves hnode hroom hedges
        (((kept_of_orderOf horder).addEdge _).visit _ _)

end Boundaries

end Codeclew.Flow
