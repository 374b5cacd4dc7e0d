import Codeclew.Flow.Sound
import Codeclew.Kotlin.Descriptor

/-!
# Flow slices are bounded reachability

A slice that is built lists the declarations that can be reached from the root by `Calls` within the
depth that is asked for, each with its distance from the root. This is what `Layers` says of a
search that has come to its end, and the traversal does: each of its steps takes one callable off
the queue, and there are no more callables than facts.
-/

namespace Codeclew.Flow

open Std (ExtTreeMap)
open List

section Reach

variable [Sha256] {set : FactSet} {request : FlowRequest} {taken : List Key} {level : ℕ}
  {p p' : Progress} {use : Cited UseFact} {here : At} {d : Cited DeclarationFact}
  {pair : CallablePairBinding} {cfg : Option LocalCfgCatalog}

/-! ## All uses of a callable -/

/-- Some uses of a callable have been followed. -/
structure Surveyed (set : FactSet) (request : FlowRequest) (taken : List Key) (here : At)
    (uses : List (Cited UseFact)) (p p' : Progress) : Prop where
  sound : Sound set request taken [here.key] here.depth p'
  grows : Grows p p'
  listed : .nodes ∉ p'.truncations → ∀ use ∈ uses, ∀ target,
    Resolves set here.key.1 use.row target → (listed p'.nodes target).isSome
  represented : p'.boundaries = ∅ → ∀ use ∈ uses, Represented p'.nodes p'.edges here.key use

theorem surveyed_of_foldlM (hc : NoCollisions set) (hlt : here.depth < request.budgets.maxDepth)
    (hunambiguous : Unambiguous set here.key) {uses : List (Cited UseFact)}
    (howns : ∀ use ∈ uses, Owns set here.key use)
    (h : Sound set request taken [here.key] here.depth p)
    (hnodeFor : nodeForSymbol p.nodes here.key = some here.node)
    (hhere : listed p.nodes here.key = some here.depth)
    (hfold : uses.foldlM (followUse set request pair cfg here) p = .ok p') :
    Surveyed set request taken here uses p p' := by
  induction uses generalizing p with
  | nil =>
    cases hfold
    exact ⟨h, .refl _, nofun, nofun⟩
  | cons use uses ih =>
    rw [foldlM_cons] at hfold
    obtain ⟨q, hq, hfold⟩ := bind_eq_ok_iff.mp hfold
    have howns' := howns use mem_cons_self
    obtain ⟨hnode, hkind, hkey⟩ := (nodeForSymbol_eq_some_iff h.nodes).mp hnodeFor
    obtain ⟨-, -, -, member, hmember⟩ := (h.nodes _ _ hnode).2.of_callable hkind
    rw [hkey] at hmember
    have hfollowed := followUse_cases hmember hq
    have hsound := h.follow hc hnodeFor hhere hlt hunambiguous howns' hfollowed
    have hgrows := Grows.followed hfollowed
    have hrest := ih (fun u hu ↦ howns u (mem_cons_of_mem _ hu)) hsound
      ((nodeForSymbol_eq_some_iff hsound.nodes).mpr ⟨hgrows.nodes _ _ hnode, hkind, hkey⟩)
      (hgrows.listed h.nodes hsound.nodes hhere) hfold
    refine ⟨hrest.sound, hgrows.trans hrest.grows, fun hroom u hu target htarget ↦ ?_,
      fun hempty u hu ↦ ?_⟩
    · rcases mem_cons.mp hu with rfl | hu
      · have hroom' : .nodes ∉ q.truncations := fun hmem ↦ hroom (hrest.grows.truncations hmem)
        obtain ⟨depth, hdepth⟩ := Option.isSome_iff_exists.mp
          (hfollowed.listed hc hsound.nodes hroom' htarget)
        rw [hrest.grows.listed hsound.nodes hrest.sound.nodes hdepth]
        rfl
      · exact hrest.listed hroom u hu target htarget
    · rcases mem_cons.mp hu with rfl | hu
      · exact hrest.grows.represented (hfollowed.represented hc h hnodeFor howns'
          (hrest.grows.boundaries hempty))
      · exact hrest.represented hempty u hu

/-- A callable has been dealt with. -/
theorem Sound.finish (h : Sound set request taken [here.key] here.depth p)
    (hhere : listed p.nodes here.key = some here.depth)
    (hlisted : .nodes ∉ p.truncations → here.depth < request.budgets.maxDepth →
      ∀ target, Calls set here.key target → (listed p.nodes target).isSome)
    (hrepresented : p.boundaries = ∅ → ∀ use, Owns set here.key use →
      Represented p.nodes p.edges here.key use) :
    Sound set request (taken ++ [here.key]) [] here.depth p where
  __ := h
  visited := by simp [h.visited]
  layers := h.layers.finish hhere hlisted
  scanned hempty key hkey use howns := by
    rcases mem_append.mp hkey with hkey | hkey
    · exact h.scanned hempty key hkey use howns
    · obtain rfl := mem_singleton.mp hkey
      exact hrepresented hempty use howns

omit [Sha256] in
theorem mem_sortUses_iff (hd : set.declarations here.key = [d]) {callableId : String}
    (hid : d.row.compilerCallableId = some callableId) :
    use ∈ sortUses (set.uses (here.key.1, callableId)) ↔ Owns set here.key use := by
  rw [sortUses, mem_mergeSort, FactSet.uses, mem_filter, decide_eq_true_iff, UseFact.owner,
    Prod.mk.injEq]
  constructor
  · rintro ⟨hmem, hmember, rfl⟩
    exact ⟨hmem, hmember, d, hd, hid⟩
  · rintro ⟨hmem, hmember, e, he, heq⟩
    rw [hd] at he
    obtain rfl := head_eq_of_cons_eq he
    exact ⟨hmem, hmember, Option.some.inj (heq.symm.trans hid)⟩

theorem Sound.expand (hc : NoCollisions set)
    (h : Sound set request taken [here.key] here.depth p)
    (hnodeFor : nodeForSymbol p.nodes here.key = some here.node)
    (hhere : listed p.nodes here.key = some here.depth) (hd : set.declarations here.key = [d])
    (hexpand : Flow.expand set request pair cfg here d p = .ok p') :
    Sound set request (taken ++ [here.key]) [] here.depth p' := by
  -- A callable that is not expanded leaves a boundary.
  have hboundary : ∀ q, Sound set request taken [here.key] here.depth q →
      q.nodes = p.nodes → Kept q p' ∧ p'.boundaries ≠ ∅ →
      (here.depth < request.budgets.maxDepth → ¬Unambiguous set here.key) →
      Sound set request (taken ++ [here.key]) [] here.depth p' := by
    rintro q hq hnodes ⟨hkept, hmarked⟩ hunambiguous
    refine (hq.kept hkept).finish ?_ (fun _ hlt target hcalls ↦ absurd hcalls.1 (hunambiguous hlt))
      fun hempty ↦ absurd hempty hmarked
    rw [hkept.nodes, hnodes, hhere]
  rw [Flow.expand.eq_def] at hexpand
  split at hexpand
  next hid =>
    refine hboundary p h rfl (kept_of_addBoundary hexpand) fun _ hunambiguous ↦ ?_
    obtain ⟨e, callableId, he, hcallableId, -⟩ := hunambiguous
    rw [hd] at he
    obtain rfl := head_eq_of_cons_eq he
    rw [hid] at hcallableId
    cases hcallableId
  next callableId hid =>
    split_ifs at hexpand with hfamily
    · refine hboundary p h rfl (kept_of_addBoundary hexpand) fun _ hunambiguous ↦ ?_
      obtain ⟨e, callableId', he, hcallableId, hlength⟩ := hunambiguous
      rw [hd] at he
      obtain rfl := head_eq_of_cons_eq he
      obtain rfl := Option.some.inj (hid.symm.trans hcallableId)
      exact hfamily hlength
    dsimp only at hexpand
    split_ifs at hexpand with hdepth
    · have hcut : Sound set request taken [here.key] here.depth
          { p with truncations := .depth :: p.truncations } := h.truncate nofun nofun
      exact hboundary _ hcut rfl (kept_of_addBoundary hexpand)
        fun hlt ↦ absurd hdepth.1 (Nat.not_le.mpr hlt)
    rcases Nat.lt_or_ge here.depth request.budgets.maxDepth with hlt | hge
    · have hunambiguous : Unambiguous set here.key :=
        ⟨d, callableId, hd, hid, not_not.mp hfamily⟩
      have hsurveyed := surveyed_of_foldlM hc hlt hunambiguous
        (fun use hmem ↦ (mem_sortUses_iff hd hid).mp hmem) h hnodeFor hhere hexpand
      refine hsurveyed.sound.finish (hsurveyed.grows.listed h.nodes hsurveyed.sound.nodes hhere)
        (fun hroom _ target hcalls ↦ ?_)
        fun hempty use howns ↦
          hsurveyed.represented hempty use ((mem_sortUses_iff hd hid).mpr howns)
      obtain ⟨-, use, howns, hresolves⟩ := hcalls
      exact hsurveyed.listed hroom use ((mem_sortUses_iff hd hid).mpr howns) target hresolves
    · -- At the last level a callable is dealt with only if it has no uses.
      have hnone : sortUses (set.uses (here.key.1, callableId)) = [] := by
        by_contra hne
        exact hdepth ⟨hge, hne⟩
      rw [hnone] at hexpand
      cases hexpand
      refine h.finish hhere (fun _ hlt ↦ absurd hge (Nat.not_le.mpr hlt)) fun _ use howns ↦ ?_
      have hmem := (mem_sortUses_iff hd hid).mpr howns
      rw [hnone] at hmem
      cases hmem

/-! ## The whole traversal -/

theorem Sound.step (hc : NoCollisions set) (h : Sound set request taken [] level p) {key : Key}
    {depth : ℕ} {queue : List (Key × ℕ)} (hqueue : p.queue = (key, depth) :: queue)
    (hstep : Flow.step set request pair cfg key depth { p with queue } = .ok p') :
    Sound set request (taken ++ [key]) [] depth p' := by
  have hdepth : listed p.nodes key = some depth :=
    h.depths (key, depth) (hqueue ▸ mem_cons_self)
  -- The front of the queue is the callable that the traversal is at.
  have hfront : Sound set request taken [key] depth { p with queue } := by
    have hlayers := h.layers
    simp only [hqueue, map_cons, nil_append] at hlayers
    obtain ⟨level', hlevel, hlayers⟩ := hlayers.exists_level
    obtain rfl := Option.some.inj (hlevel.symm.trans hdepth)
    exact {
      __ := h
      visited := by simp [h.visited, hqueue]
      depths := fun entry hentry ↦ h.depths entry (hqueue ▸ mem_cons_of_mem _ hentry)
      layers := hlayers }
  rw [Flow.step.eq_def] at hstep
  split at hstep
  · cases hstep
  next node hnode =>
    obtain ⟨here, rfl, rfl, rfl⟩ : ∃ here : At, here.node = node ∧ here.key = key ∧
        here.depth = depth := ⟨⟨node, key, depth⟩, rfl, rfl, rfl⟩
    obtain ⟨-, d, hd, -⟩ := declared_here h.nodes hnode
    simp only [hd] at hstep
    exact hfront.expand hc hnode hdepth hd hstep

/-- There are no more callables than facts. -/
theorem Sound.length_le (h : Sound set request taken [] level p) :
    taken.length + p.queue.length ≤ set.facts.length := by
  have hsubset : p.visited ⊆ set.exactDeclarations.map (·.row.key) := by
    intro key hkey
    obtain ⟨d, hd, rfl⟩ := h.nodes.declared (h.visited_listed key hkey)
    exact mem_map_of_mem (declaration_mem hd)
  calc taken.length + p.queue.length = p.visited.length := by simp [h.visited]
    _ ≤ (set.exactDeclarations.map (·.row.key)).length :=
      (subperm_of_subset h.nodup hsubset).length_le
    _ = set.exactDeclarations.length := length_map _
    _ ≤ set.facts.length := length_filterMap_le _ _

theorem Sound.traverse (hc : NoCollisions set) {n : ℕ} (h : Sound set request taken [] level p)
    (hn : taken.length + n = set.facts.length)
    (htraverse : Flow.traverse set request pair cfg n p = .ok p') :
    p'.queue = [] ∧ ∃ taken level, Sound set request taken [] level p' := by
  induction n generalizing p taken level with
  | zero =>
    cases htraverse
    have hle := h.length_le
    exact ⟨length_eq_zero_iff.mp (by omega), taken, level, h⟩
  | succ n ih =>
    rcases hqueue : p.queue with _ | ⟨⟨key, depth⟩, queue⟩
    · simp only [Flow.traverse, hqueue] at htraverse
      cases htraverse
      exact ⟨hqueue, taken, level, h⟩
    · simp only [Flow.traverse, hqueue] at htraverse
      obtain ⟨q, hq, htraverse⟩ := bind_eq_ok_iff.mp htraverse
      refine ih (h.step hc hqueue hq) ?_ htraverse
      rw [length_append, length_singleton]
      omega

omit [Sha256] in
theorem start_nodes {root : FlowNode} : (start request root).nodes =
    (∅ : ExtTreeMap String FlowNode).insertIfNew root.nodeId root := by
  refine ExtTreeMap.ext_getElem? fun id ↦ ?_
  rw [ExtTreeMap.getElem?_insertIfNew, start, ExtTreeMap.ofList_singleton,
    ExtTreeMap.getElem?_insert]
  simp

theorem listed_start {root : FlowNode} (hd : set.declarations request.rootKey = [d])
    (hroot : callableNode set d 0 = .ok root) :
    Nodes set (start request root).nodes ∧ listed (start request root).nodes =
      fun key ↦ if key = request.rootKey then some 0 else none := by
  obtain ⟨his, -, hmember⟩ := isCallable_of_callableNode hroot
  have hkey := (FactSet.key_of_mem_declarations (hd ▸ mem_singleton_self d)).2
  rw [← hkey] at hd
  have hempty : Nodes set ∅ := fun id node h ↦ by simp at h
  rw [start_nodes, listed_insertIfNew_of_callable hempty hd hroot (by simp), his.key, hkey]
  refine ⟨hempty.insert (.callable d hd his hmember), ?_⟩
  funext key
  rw [Function.update_apply]
  rfl

theorem sound_start {root : FlowNode} (hd : set.declarations request.rootKey = [d])
    (hroot : callableNode set d 0 = .ok root) :
    Sound set request [] [] 0 (start request root) := by
  obtain ⟨hnodes, hlisted⟩ := listed_start hd hroot
  exact {
    nodes := hnodes
    edges := fun id edge h ↦ by simp [start] at h
    fullNodes := nofun
    fullEdges := nofun
    visited := rfl
    nodup := nodup_singleton _
    visited_listed := fun key hkey ↦ by
      rw [hlisted, mem_singleton.mp hkey]
      simp
    queued := fun _ key hkey ↦ by
      obtain rfl : key = request.rootKey := by simpa [hlisted] using hkey
      exact mem_singleton_self _
    depths := fun entry hentry ↦ by
      rw [hlisted, mem_singleton.mp hentry]
      simp
    layers := by
      rw [hlisted]
      exact Layers.start _ _ _ _ _
    scanned := nofun }

/-! ## After the traversal -/

theorem kept_of_noteBoundaries (h : noteBoundaries set request pair p = .ok p') : Kept p p' := by
  obtain ⟨q, hq, h⟩ := bind_eq_ok_iff.mp h
  have hmissing : Kept p q := of_foldlM_eq_ok
    (fun b a b' hb hstep ↦ hb.trans (kept_of_addBoundary hstep).1) (.refl p) hq
  refine of_foldlM_eq_ok (fun b a b' hb hstep ↦ hb.trans ?_) hmissing h
  rw [noteBoundaryFact.eq_def] at hstep
  split at hstep
  · dsimp only at hstep
    split_ifs at hstep
    · exact (kept_of_addBoundary hstep).1
    · cases hstep
      exact .refl _
  · cases hstep
    exact .refl _

theorem kept_of_controlFlowRegions {regions : List FlowControlRegion}
    (h : controlFlowRegions request cfg p = .ok (regions, p')) : Kept p p' := by
  rw [controlFlowRegions.eq_def] at h
  split at h
  · cases h
    exact .refl _
  · refine of_foldlM_eq_ok (P := fun state ↦ Kept p state.2) (fun b a b' hb hstep ↦ hb.trans ?_)
      (.refl p) h
    rw [addRegion.eq_def] at hstep
    split at hstep
    · cases hstep
      exact .refl _
    · cases hstep
      exact .refl _
    · obtain ⟨q, hq, hstep⟩ := bind_eq_ok_iff.mp hstep
      cases hstep
      exact (kept_of_addBoundary hq).1

/-- A node or an edge was met that there was no room for. -/
def BudgetHit (set : FactSet) (request : FlowRequest) (cfg : Option LocalCfgCatalog)
    (checkIdentity : String → Except ClewError Unit) : Prop :=
  ∃ pair d root p, validateRequest set request checkIdentity = .ok pair ∧
    rootDeclaration set request = .ok d ∧ callableNode set d 0 = .ok root ∧
    explore set request pair cfg root = .ok p ∧
    (.nodes ∈ p.truncations ∨ .edges ∈ p.truncations)

omit [Sha256] in
theorem rootDeclaration_eq_ok (h : rootDeclaration set request = .ok d) :
    set.declarations request.rootKey = [d] := by
  rw [rootDeclaration] at h
  split at h
  · cases h
  · cases h
    assumption
  · cases h

/-! ## Slices -/

/-- What a slice is made of: a traversal that has come to its end. -/
theorem exists_explored {checkIdentity : String → Except ClewError Unit} {length : FlowSlice → ℕ}
    {slice : FlowSlice} (hc : NoCollisions set)
    (h : build set request cfg checkIdentity length = .ok slice) :
    ∃ p taken level rootNodeId regions, Sound set request taken [] level p ∧ p.queue = [] ∧
      slice = Flow.slice set request rootNodeId regions p ∧
      (BudgetHit set request cfg checkIdentity ↔
        .nodes ∈ p.truncations ∨ .edges ∈ p.truncations) := by
  obtain ⟨pair, hpair, h⟩ := bind_eq_ok_iff.mp h
  obtain ⟨d, hd, h⟩ := bind_eq_ok_iff.mp h
  obtain ⟨root, hroot, h⟩ := bind_eq_ok_iff.mp h
  obtain ⟨p, hp, h⟩ := bind_eq_ok_iff.mp h
  obtain ⟨q, hq, h⟩ := bind_eq_ok_iff.mp h
  obtain ⟨⟨regions, r⟩, hr, h⟩ := bind_eq_ok_iff.mp h
  obtain ⟨-, h⟩ := ensure_bind_eq_ok_iff.mp h
  have hkept : Kept p r := (kept_of_noteBoundaries hq).trans (kept_of_controlFlowRegions hr)
  obtain ⟨hqueue, taken, level, hsound⟩ :=
    (sound_start (rootDeclaration_eq_ok hd) hroot).traverse hc (Nat.zero_add _) hp
  refine ⟨r, taken, level, root.nodeId, regions, hsound.kept hkept, hkept.queue.trans hqueue,
    (Except.ok.inj h).symm, ?_⟩
  rw [hkept.truncations]
  constructor
  · rintro ⟨pair', d', root', p', hpair', hd', hroot', hp', hhit⟩
    obtain rfl := Except.ok.inj (hpair.symm.trans hpair')
    obtain rfl := Except.ok.inj (hd.symm.trans hd')
    obtain rfl := Except.ok.inj (hroot.symm.trans hroot')
    obtain rfl := Except.ok.inj (hp.symm.trans hp')
    exact hhit
  · exact fun hhit ↦ ⟨pair, d, root, p, hpair, hd, hroot, hp, hhit⟩

/-- A callable is listed in a slice. -/
def FlowSlice.Lists (slice : FlowSlice) (key : Key) : Prop :=
  ∃ node ∈ slice.nodes, node.nodeKind = .callable ∧ node.key = key

section Slice

variable {rootNodeId : String} {regions : List FlowControlRegion}
  (h : Sound set request taken [] level p) (hqueue : p.queue = [])

include h

theorem lists_iff {key : Key} : (slice set request rootNodeId regions p).Lists key ↔
    (listed p.nodes key).isSome := by
  rw [Option.isSome_iff_exists]
  simp only [listed_eq_some_iff h.nodes]
  constructor
  · rintro ⟨node, hnode, hkind, hkey⟩
    exact ⟨node.depth, node, h.nodes.mem_iff.mp hnode, hkind, hkey, rfl⟩
  · rintro ⟨_, node, hnode, hkind, hkey, -⟩
    exact ⟨node, h.nodes.mem_iff.mpr hnode, hkind, hkey⟩

theorem isDistance_depth {node : FlowNode}
    (hnode : node ∈ (slice set request rootNodeId regions p).nodes)
    (hkind : node.nodeKind = .callable) :
    IsDistance (Calls set) request.rootKey node.key node.depth :=
  h.layers.distance _ _ ((listed_eq_some_iff h.nodes).mpr
    ⟨node, h.nodes.mem_iff.mp hnode, hkind, rfl, rfl⟩)

theorem edge_of_mem {edge : FlowEdge}
    (hedge : edge ∈ (slice set request rootNodeId regions p).edges) :
    ∃ source ∈ (slice set request rootNodeId regions p).nodes,
      ∃ target ∈ (slice set request rootNodeId regions p).nodes, ∃ use,
        edge.sourceNodeId = source.nodeId ∧ edge.targetNodeId = target.nodeId ∧
        source.nodeKind = .callable ∧ Owns set source.key use ∧
        edge.supportRefs = [use.support] := by
  obtain ⟨-, source, use, his⟩ := h.edges _ _ (h.edges.mem_iff.mp hedge)
  obtain ⟨node, hnode, hkind, rfl⟩ := his.source
  obtain ⟨target, htarget⟩ :=
    Option.isSome_iff_exists.mp (ExtTreeMap.mem_iff_isSome_getElem?.mp his.target)
  have hid := (h.nodes _ _ hnode).1
  have hid' := (h.nodes _ _ htarget).1
  rw [← hid] at hnode
  rw [← hid'] at htarget
  exact ⟨node, h.nodes.mem_iff.mpr hnode, target, h.nodes.mem_iff.mpr htarget, use, hid.symm,
    hid'.symm, hkind, his.owns, his.support⟩

include hqueue

theorem lists_iff_steps (hnodes : .nodes ∉ p.truncations) (hedges : .edges ∉ p.truncations)
    {key : Key} : (slice set request rootNodeId regions p).Lists key ↔
      ∃ n ≤ request.budgets.maxDepth, Steps (Calls set) request.rootKey n key := by
  have hlayers := h.layers
  simp only [hqueue, map_nil, nil_append] at hlayers
  rw [lists_iff h, hlayers.isSome_iff hnodes hedges]

theorem complete_of_verified
    (hverified : (slice set request rootNodeId regions p).certainty = .verified) :
    (slice set request rootNodeId regions p).status = .complete ∧
      ∀ node ∈ (slice set request rootNodeId regions p).nodes, node.nodeKind = .callable →
        ∀ use, Owns set node.key use → ∃ edge ∈ (slice set request rootNodeId regions p).edges,
          edge.sourceNodeId = node.nodeId ∧ edge.supportRefs = [use.support] := by
  have hcertain : p.truncations = [] ∧ p.boundaries = ∅ := by
    by_contra hno
    rw [slice, ite_eq_right_iff] at hverified
    refine absurd (hverified ?_) nofun
    rw [ExtTreeMap.isEmpty_eq_false_iff]
    tauto
  refine ⟨if_pos hcertain.1, fun node hnode hkind use howns ↦ ?_⟩
  have hnode' := h.nodes.mem_iff.mp hnode
  have hvisited : node.key ∈ p.visited :=
    h.queued (by simp [hcertain.1]) node.key ((lists_iff h).mp ⟨node, hnode, hkind, rfl⟩)
  rw [h.visited, hqueue] at hvisited
  obtain ⟨edge, n, hedge, hn, hkind', hkey, hsupport⟩ :=
    h.scanned hcertain.2 node.key (by simpa using hvisited) use howns
  have hid := (h.nodes _ _ hn).1
  rw [← hid] at hn
  have hsame : some n = some node :=
    ((nodeForSymbol_eq_some_iff h.nodes).mpr ⟨hn, hkind', hkey⟩).symm.trans
      ((nodeForSymbol_eq_some_iff h.nodes).mpr ⟨hnode', hkind, rfl⟩)
  obtain rfl := Option.some.inj hsame
  exact ⟨edge, h.edges.mem_iff.mpr hedge, hid.symm, hsupport⟩

end Slice

/-- A slice is bounded reachability: it lists what can be reached within the depth, unless there is
no room for it, with the distances; its edges are uses; and if it is certain nothing is missing. -/
theorem build_reaches {checkIdentity : String → Except ClewError Unit} {length : FlowSlice → ℕ}
    {slice : FlowSlice} (hc : NoCollisions set)
    (h : build set request cfg checkIdentity length = .ok slice) :
    (¬BudgetHit set request cfg checkIdentity → ∀ key, slice.Lists key ↔
      ∃ n ≤ request.budgets.maxDepth, Steps (Calls set) request.rootKey n key) ∧
    (BudgetHit set request cfg checkIdentity →
      request.budgets.maxNodes ≤ slice.nodes.length ∨
        request.budgets.maxEdges ≤ slice.edges.length) ∧
    (∀ node ∈ slice.nodes, node.nodeKind = .callable →
      IsDistance (Calls set) request.rootKey node.key node.depth) ∧
    (∀ edge ∈ slice.edges, ∃ source ∈ slice.nodes, ∃ target ∈ slice.nodes, ∃ use,
      edge.sourceNodeId = source.nodeId ∧ edge.targetNodeId = target.nodeId ∧
      source.nodeKind = .callable ∧ Owns set source.key use ∧
      edge.supportRefs = [use.support]) ∧
    (slice.certainty = .verified → slice.status = .complete ∧
      ∀ node ∈ slice.nodes, node.nodeKind = .callable → ∀ use, Owns set node.key use →
        ∃ edge ∈ slice.edges, edge.sourceNodeId = node.nodeId ∧
          edge.supportRefs = [use.support]) := by
  obtain ⟨p, taken, level, rootNodeId, regions, hsound, hqueue, rfl, hhit⟩ := exists_explored hc h
  rw [hhit]
  refine ⟨fun hno key ↦ ?_, fun hfull ↦ ?_, fun node hnode ↦ isDistance_depth hsound hnode,
    fun edge hedge ↦ edge_of_mem hsound hedge, complete_of_verified hsound hqueue⟩
  · rw [not_or] at hno
    exact lists_iff_steps hsound hqueue hno.1 hno.2
  · refine hfull.imp (fun hmem ↦ ?_) (fun hmem ↦ ?_)
    · simpa [slice] using hsound.fullNodes hmem
    · simpa [slice] using hsound.fullEdges hmem

end Reach

section Greeting

attribute [local instance] Sha256.standard

/-- One function of a provider calls another. -/
def greeting : FactSet :=
  let provenance : CallableFactProvenance := ⟨"provider", "provides", .null, some .null, []⟩
  { threadId := "thread"
    threadAuthorityDigest := "authority"
    authorityDigest := "facts"
    factSetId := "set"
    pairs := [⟨"pair", "provider", "consumer", .declaredTopology⟩]
    members := [⟨"provider", "service", "provides"⟩, ⟨"consumer", "client", "consumes"⟩]
    facts := [
      ⟨.declaration ⟨"1", provenance, "callable:p/greet#jvm:()V", some "p/greet", true⟩, .null⟩,
      ⟨.use ⟨"2", provenance, "CALLS", "p/greet", "p/name",
        some "callable:p/name#jvm:()Ljava/lang/String;", some "provides", .exactSymbol,
        .verifiedSameSnapshotCompilationDependency, .null⟩, .null⟩,
      ⟨.declaration ⟨"3", provenance, "callable:p/name#jvm:()Ljava/lang/String;",
        some "p/name", true⟩, .null⟩]
    unsure := false
    distinctAliases := by decide
    distinctNamespaces := by decide
    distinctFacts := by decide }

def greetingRequest : FlowRequest :=
  ⟨"thread", "authority", "set", "facts", "pair", "provider", "callable:p/greet#jvm:()V",
    .profile 1⟩

theorem greeting_noCollisions : NoCollisions greeting :=
  noCollisions_of_nodup (by decide +kernel) (by decide +kernel)

theorem exists_greetingSlice : ∃ slice,
    build greeting greetingRequest none Kotlin.validateKotlinFullSymbolIdentity (fun _ ↦ 0) =
      .ok slice ∧
      slice.nodes.length = 2 ∧ slice.edges.length = 1 ∧ slice.certainty = .verified := by
  decide +kernel

theorem build_reaches_greeting : ∃ slice,
    build greeting greetingRequest none Kotlin.validateKotlinFullSymbolIdentity (fun _ ↦ 0) =
      .ok slice ∧
      (∀ key, slice.Lists key ↔
        ∃ n ≤ 1, Steps (Calls greeting) ("provider", greetingRequest.root) n key) ∧
      slice.status = .complete ∧
      ∀ node ∈ slice.nodes, node.nodeKind = .callable → ∀ use, Owns greeting node.key use →
        ∃ edge ∈ slice.edges, edge.sourceNodeId = node.nodeId ∧
          edge.supportRefs = [use.support] := by
  obtain ⟨slice, hslice, hnodes, hedges, hverified⟩ := exists_greetingSlice
  obtain ⟨hlists, hfull, -, -, hcertain⟩ := build_reaches greeting_noCollisions hslice
  refine ⟨slice, hslice, hlists fun hhit ↦ ?_, hcertain hverified⟩
  have hcontra : 4096 ≤ slice.nodes.length ∨ 8192 ≤ slice.edges.length := hfull hhit
  omega

end Greeting

end Codeclew.Flow
