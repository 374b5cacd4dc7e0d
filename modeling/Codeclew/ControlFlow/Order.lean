import Codeclew.ControlFlow.Graph

/-!
# Observations of local order

Two nodes of a control-flow graph are asked about: may the second be reached from the first, and
does every path from the entry to the second visit the first. Dead nodes and dead edges are left
out. The answers are searches; dominance is answered by a search that does not pass through the
first node.

Both answers are exact, and they are given exactly for nodes that can be reached from the entry.
-/

namespace Codeclew.ControlFlow

open Kotlin Search List
open Relation (ReflTransGen)

structure OrderQuery where
  id : String
  regionId : String
  before : UInt64
  after : UInt64

structure OrderObservation where
  queryId : String
  regionId : String
  mayReachInActiveCfg : Option Bool
  strictlyDominatesInActiveCfg : Option Bool
  unknownReason : Option String

namespace LocalCfgPayload

variable (graph : LocalCfgPayload)

def active : List UInt64 := (graph.nodes.filter (·.role ≠ .dead)).map (·.nodeId)

/-- The ends of the edges that are not dead and join active nodes. -/
def activeLinks : List (UInt64 × UInt64) :=
  (graph.edges.filter fun edge ↦ edge.kind ≠ .dead ∧ edge.sourceNodeId ∈ graph.active ∧
    edge.targetNodeId ∈ graph.active).map fun edge ↦ (edge.sourceNodeId, edge.targetNodeId)

end LocalCfgPayload

/-- Whether `target` can be reached from `start` without `blocked`. -/
def reaches (links : List (UInt64 × UInt64)) (start target : UInt64) (blocked : Option UInt64) :
    Bool :=
  finds links (some · = blocked) target [] [start]

section Observe

variable [UnicodeNormalization] [Sha256] (validateIdentity : String → Except ClewError Unit)

def observe (graph : Option LocalCfgPayload) (query : OrderQuery) :
    Except ClewError OrderObservation := do
  let result : OrderObservation := ⟨query.id, query.regionId, none, none, none⟩
  match graph with
  | none => return { result with unknownReason := some "LOCAL_CFG_REGION_NOT_FOUND" }
  | some graph =>
    validate validateIdentity graph
    if query.before ∉ graph.active ∨ query.after ∉ graph.active then
      return { result with unknownReason := some "LOCAL_CFG_NODE_MISSING_OR_DEAD" }
    else match graph.entryId with
      | none => throw (invalid "local order requires an entry node")
      | some entry =>
        if reaches graph.activeLinks entry query.before none = false ∨
            reaches graph.activeLinks entry query.after none = false then
          return { result with unknownReason := some "LOCAL_CFG_NODE_NOT_ACTIVE_REACHABLE" }
        else return { result with
          mayReachInActiveCfg := some (reaches graph.activeLinks query.before query.after none)
          strictlyDominatesInActiveCfg := some (query.before ≠ query.after &&
            !reaches graph.activeLinks entry query.after (some query.before)) }

end Observe

/-! ## Live paths -/

namespace LocalCfgPayload

variable (graph : LocalCfgPayload)

def Live (id : UInt64) : Prop := ∃ node ∈ graph.nodes, node.nodeId = id ∧ node.role ≠ .dead

/-- An edge that is not dead and joins live nodes. -/
def LiveStep (a b : UInt64) : Prop :=
  ∃ edge ∈ graph.edges, edge.sourceNodeId = a ∧ edge.targetNodeId = b ∧ edge.kind ≠ .dead ∧
    graph.Live a ∧ graph.Live b

/-- A live node that live steps lead to from the entry. -/
def LiveReached (id : UInt64) : Prop :=
  graph.Live id ∧ ∃ entry ∈ graph.nodes, entry.role = .entry ∧
    ReflTransGen graph.LiveStep entry.nodeId id

variable {graph} {a b : UInt64}

theorem mem_active : a ∈ graph.active ↔ graph.Live a := by
  simp only [active, mem_map, mem_filter, decide_eq_true_eq, Live, and_assoc]
  exact exists_congr fun _ ↦ and_congr_right fun _ ↦ and_comm

theorem step_activeLinks : Step graph.activeLinks a b ↔ graph.LiveStep a b := by
  simp only [Step, activeLinks, mem_map, mem_filter, decide_eq_true_eq, mem_active,
    LiveStep, Prod.mk.injEq]
  constructor
  · rintro ⟨edge, ⟨hedge, hkind, hsource, htarget⟩, rfl, rfl⟩
    exact ⟨edge, hedge, rfl, rfl, hkind, hsource, htarget⟩
  · rintro ⟨edge, hedge, rfl, rfl, hkind, hsource, htarget⟩
    exact ⟨edge, ⟨hedge, hkind, hsource, htarget⟩, rfl, rfl⟩

theorem reaches_iff : reaches graph.activeLinks a b none = true ↔
    ReflTransGen graph.LiveStep a b := by
  have hstep : StepAround graph.activeLinks (some · = none) = graph.LiveStep := by
    funext u v
    simp [StepAround, step_activeLinks]
  rw [reaches, finds_start (by simp), hstep]

/-- A search that avoids `x` finds the paths that do not visit `x`. -/
theorem reaches_avoiding_iff {x : UInt64} : reaches graph.activeLinks a b (some x) = true ↔
    ∃ p, Path graph.LiveStep a b p ∧ x ∉ p := by
  rw [exists_path_notMem_iff, reaches]
  by_cases ha : a = x
  · rw [finds, if_pos (by simp [ha]), finds]
    simp [ha]
  · have hstep : StepAround graph.activeLinks (some · = some x) =
        fun u v ↦ graph.LiveStep u v ∧ v ≠ x := by
      funext u v
      simp [StepAround, step_activeLinks]
    rw [finds_start (by simpa using ha), hstep, and_iff_right ha]

end LocalCfgPayload

/-! ## The answers -/

section Answers

variable [UnicodeNormalization] [Sha256] {validateIdentity : String → Except ClewError Unit}
  {graph : LocalCfgPayload}

/-- What is observed of two nodes: the two answers if both are reached, and otherwise none. -/
theorem observe_cases (entry : LocalCfgNode) (hvalid : validate validateIdentity graph = .ok ())
    (hentry : graph.entryId = some entry.nodeId) (hmem : entry ∈ graph.nodes)
    (hrole : entry.role = .entry)
    (honly : ∀ node ∈ graph.nodes, node.role = .entry → node = entry) (query : OrderQuery) :
    (graph.LiveReached query.before ∧ graph.LiveReached query.after ∧
      ∃ o, observe validateIdentity (some graph) query = .ok o ∧
        o.mayReachInActiveCfg = some (reaches graph.activeLinks query.before query.after none) ∧
        o.strictlyDominatesInActiveCfg = some (query.before ≠ query.after &&
          !reaches graph.activeLinks entry.nodeId query.after (some query.before))) ∨
    (¬(graph.LiveReached query.before ∧ graph.LiveReached query.after) ∧
      ∃ o, observe validateIdentity (some graph) query = .ok o ∧ o.mayReachInActiveCfg = none ∧
        o.strictlyDominatesInActiveCfg = none) := by
  have hreached : ∀ id, graph.LiveReached id ↔ id ∈ graph.active ∧
      reaches graph.activeLinks entry.nodeId id none = true := fun id ↦ by
    rw [graph.mem_active, graph.reaches_iff, LocalCfgPayload.LiveReached]
    refine and_congr_right fun _ ↦ ⟨?_, fun h ↦ ⟨entry, hmem, hrole, h⟩⟩
    rintro ⟨other, hother, hrole, h⟩
    rwa [honly other hother hrole] at h
  simp only [observe, hvalid, ok_bind, hentry, hreached]
  by_cases hlive : query.before ∉ graph.active ∨ query.after ∉ graph.active
  · rw [if_pos hlive]
    exact .inr ⟨by tauto, _, rfl, rfl, rfl⟩
  · rw [if_neg hlive]
    rw [not_or, not_not, not_not] at hlive
    by_cases hsome : reaches graph.activeLinks entry.nodeId query.before none = false ∨
        reaches graph.activeLinks entry.nodeId query.after none = false
    · rw [if_pos hsome]
      refine .inr ⟨?_, _, rfl, rfl, rfl⟩
      rintro ⟨⟨-, hbefore⟩, -, hafter⟩
      simp [hbefore, hafter] at hsome
    · rw [if_neg hsome]
      rw [not_or, Bool.not_eq_false, Bool.not_eq_false] at hsome
      exact .inl ⟨⟨hlive.1, hsome.1⟩, ⟨hlive.2, hsome.2⟩, _, rfl, rfl, rfl⟩

omit [UnicodeNormalization] [Sha256] in
theorem dominance_iff {entry a b : UInt64} :
    (a ≠ b && !reaches graph.activeLinks entry b (some a)) = true ↔
      StrictlyDominates graph.LiveStep entry a b := by
  have hpaths : reaches graph.activeLinks entry b (some a) = false ↔
      ∀ p, Path graph.LiveStep entry b p → a ∈ p := by
    rw [← Bool.not_eq_true, graph.reaches_avoiding_iff]
    push Not
    rfl
  simp [hpaths, StrictlyDominates]

/-- What the observations say of `a` and `b`: every way to `b` leads through `a`. -/
def ObservedToDominate (validateIdentity : String → Except ClewError Unit) (graph : LocalCfgPayload)
    (a b : UInt64) : Prop :=
  ∃ id regionId o, observe validateIdentity (some graph) ⟨id, regionId, a, b⟩ = .ok o ∧
    o.strictlyDominatesInActiveCfg = some true

/-- Observations of local order are exact: they are answered exactly for nodes that are reached, may
reach is being joined by live steps, and strict dominance is being on all live paths from the entry.
So strict dominance is transitive and asymmetric. -/
theorem observe_exact (hvalid : validate validateIdentity graph = .ok ()) :
    ∃ entry ∈ graph.nodes, entry.role = .entry ∧
      (∀ query, ∃ o, observe validateIdentity (some graph) query = .ok o ∧
        (o.mayReachInActiveCfg.isSome ↔
          graph.LiveReached query.before ∧ graph.LiveReached query.after) ∧
        (o.strictlyDominatesInActiveCfg.isSome ↔
          graph.LiveReached query.before ∧ graph.LiveReached query.after) ∧
        (∀ answer ∈ o.mayReachInActiveCfg,
          answer = true ↔ ReflTransGen graph.LiveStep query.before query.after) ∧
        ∀ answer ∈ o.strictlyDominatesInActiveCfg,
          answer = true ↔ query.before ≠ query.after ∧
            ∀ p, Path graph.LiveStep entry.nodeId query.after p → query.before ∈ p) ∧
      (∀ a b c, ObservedToDominate validateIdentity graph a b →
        ObservedToDominate validateIdentity graph b c →
        ObservedToDominate validateIdentity graph a c) ∧
      ∀ a b, ObservedToDominate validateIdentity graph a b →
        ¬ObservedToDominate validateIdentity graph b a := by
  obtain ⟨-, hshaped⟩ := (validate_eq_ok_iff validateIdentity).mp hvalid
  obtain ⟨entry, hentry, hmem, hrole, honly⟩ := graph.exists_entry hshaped.oneEntry
  have hcases := observe_cases entry hvalid hentry hmem hrole honly
  -- what is observed of dominance, in terms of paths
  have hdominates : ∀ a b, ObservedToDominate validateIdentity graph a b ↔
      graph.LiveReached a ∧ graph.LiveReached b ∧
        StrictlyDominates graph.LiveStep entry.nodeId a b := by
    intro a b
    constructor
    · rintro ⟨id, regionId, o, ho, htrue⟩
      rcases hcases ⟨id, regionId, a, b⟩ with ⟨ha, hb, o', ho', -, hdom⟩ | ⟨-, o', ho', -, hdom⟩
      · obtain rfl := Except.ok.inj (ho.symm.trans ho')
        exact ⟨ha, hb, dominance_iff.mp (Option.some.inj (hdom.symm.trans htrue))⟩
      · obtain rfl := Except.ok.inj (ho.symm.trans ho')
        rw [hdom] at htrue
        cases htrue
    · rintro ⟨ha, hb, hdom⟩
      rcases hcases ⟨"", "", a, b⟩ with ⟨-, -, o, ho, -, hanswer⟩ | ⟨hnot, -⟩
      · exact ⟨"", "", o, ho, hanswer.trans (congrArg some (dominance_iff.mpr hdom))⟩
      · exact absurd ⟨ha, hb⟩ hnot
  have hfrom : ∀ {id}, graph.LiveReached id → ReflTransGen graph.LiveStep entry.nodeId id := by
    rintro id ⟨-, other, hother, hrole, h⟩
    rwa [honly other hother hrole] at h
  refine ⟨entry, hmem, hrole, fun query ↦ ?_, fun a b c hab hbc ↦ ?_, fun a b hab hba ↦ ?_⟩
  · rcases hcases query with ⟨hbefore, hafter, o, ho, hmay, hdom⟩ | ⟨hnot, o, ho, hmay, hdom⟩
    · refine ⟨o, ho, by simp [hmay, hbefore, hafter], by simp [hdom, hbefore, hafter], ?_, ?_⟩
      · rw [hmay]
        rintro answer ⟨⟩
        exact graph.reaches_iff
      · rw [hdom]
        rintro answer ⟨⟩
        exact dominance_iff
    · refine ⟨o, ho, by simp [hmay, hnot], by simp [hdom, hnot], ?_, ?_⟩
      · simp [hmay]
      · simp [hdom]
  · obtain ⟨ha, hb, hdab⟩ := (hdominates a b).mp hab
    obtain ⟨-, hc, hdbc⟩ := (hdominates b c).mp hbc
    exact (hdominates a c).mpr ⟨ha, hc, hdab.trans hdbc (hfrom hb)⟩
  · obtain ⟨-, hb, hdab⟩ := (hdominates a b).mp hab
    exact hdab.asymm (hfrom hb) ((hdominates b a).mp hba).2.2

end Answers

section Example

attribute [local instance] Sha256.standard allNormalized

theorem observe_exact_branched : validate validateKotlinFullSymbolIdentity branched = .ok () ∧
    ∃ o, observe validateKotlinFullSymbolIdentity (some branched) ⟨"", "", 1, 2⟩ = .ok o ∧
      ∀ answer ∈ o.mayReachInActiveCfg,
        answer = true ↔ ReflTransGen branched.LiveStep 1 2 := by
  obtain ⟨_, _, _, hobserve, -⟩ := observe_exact validate_branched
  obtain ⟨o, ho, -, -, hmay, -⟩ := hobserve ⟨"", "", 1, 2⟩
  exact ⟨validate_branched, o, ho, hmay⟩

end Example

end Codeclew.ControlFlow
