import Codeclew.KeyedDelta
import Codeclew.Navigation.Candidates

/-!
# Navigation deltas

A client that holds the candidates of a context is told those of a child context by a delta. With a
declared identifier the candidates of the child are listed with the identifier in mind, but the
candidates of the parent that they are compared with are not. So a candidate may be left out of a
delta that the client was never told, and the delta does not replay. `replay_eq_some_iff` says for
which contexts it does.
-/

namespace Codeclew.Navigation

open Json Query Association List

inductive NavigationFacet where
  | callers
  | callees
  | tests
  deriving DecidableEq

inductive Change where
  | added
  | updated
  deriving DecidableEq

/-- The `candidateDelta` of a result. -/
structure NavigationDelta where
  upserts : List (Candidate × Change)
  removals : List CandidateKey
  unchangedCount : ℕ
  candidateOrder : List CandidateKey
  deriving DecidableEq

/-- Whether a result is at most 64 KiB, which depends on members that are not modelled. -/
class Stdout where
  queryFits : ContextObject → List NavigationFacet → Option String → List Candidate → Bool
  deltaFits : ContextObject → ContextObject → List String → List NavigationFacet → Option String →
    NavigationDelta → Bool

def stdoutError : ClewError :=
  ⟨.sliceBudgetExceeded, "navigation stdout exceeds 64 KiB; narrow terms or roots"⟩

/-- The order of the keys in a map. -/
def CandidateKey.order (key : CandidateKey) : String ×ₗ String :=
  toLex (key.compilation, key.factKey)

/-- The candidates of a view in the order of their keys, which are distinct. -/
def candidateMap (view : List Candidate) : List Candidate :=
  view.insertionSort fun a b ↦ a.candidateKey.order ≤ b.candidateKey.order

/-- What is said of a candidate of the child, by the candidate that the parent has. -/
def candidateChange (previous : Option Candidate) (candidate : Candidate) : Option Change :=
  match previous with
  | none => some .added
  | some previous => if previous = candidate then none else some .updated

def candidateDelta (parentView childView : List Candidate) : NavigationDelta :=
  let previous (candidate : Candidate) :=
    find Candidate.candidateKey candidate.candidateKey (candidateMap parentView)
  { upserts := (candidateMap childView).filterMap fun candidate ↦
      (candidateChange (previous candidate) candidate).map (candidate, ·)
    removals := ((candidateMap parentView).map (·.candidateKey)).filter fun key ↦
      key ∉ childView.map (·.candidateKey)
    unchangedCount := childView.countP fun candidate ↦
      candidateChange (previous candidate) candidate = none
    candidateOrder := childView.map (·.candidateKey) }

section

variable [Sha256] [Unicode] [TextCase] [Stdout]

def queryWithDecisionIdentifier (context : ContextObject) (facets : List NavigationFacet)
    (decisionIdentifier : Option String) : Except ClewError (List Candidate) := do
  let candidates ← assembleWithDecisionIdentifier context decisionIdentifier
  ensure (Stdout.queryFits context facets decisionIdentifier candidates = true) stdoutError
  return candidates

def expandDeltaWithDecisionIdentifier (parent child : ContextObject) (requestedTerms : List String)
    (facets : List NavigationFacet) (decisionIdentifier : Option String) :
    Except ClewError NavigationDelta := do
  ensure (requestedTerms ≠ [] ∧ parent.sessionId = child.sessionId ∧
      child.parentContextId = some parent.contextId)
    (invalid "navigation delta requires a direct child context in the same session")
  let parentView ← assembleWithDecisionIdentifier parent none
  let childView ← assembleWithDecisionIdentifier child decisionIdentifier
  let delta := candidateDelta parentView childView
  ensure (Stdout.deltaFits parent child requestedTerms facets decisionIdentifier delta = true)
    stdoutError
  return delta

end

/-! ## The client -/

/-- The delta without what it says about the changes. -/
def NavigationDelta.keyed (delta : NavigationDelta) : KeyedDelta Candidate CandidateKey :=
  ⟨delta.upserts.map Prod.fst, delta.removals, delta.candidateOrder⟩

/-- What a client makes of the candidates it holds. -/
def NavigationDelta.replay (delta : NavigationDelta) (held : List Candidate) :
    Option (List Candidate) :=
  delta.keyed.apply Candidate.candidateKey held

variable {view : List Candidate}

theorem find_candidateMap (h : Distinct Candidate.candidateKey view) (key : CandidateKey) :
    find Candidate.candidateKey key (candidateMap view) = find Candidate.candidateKey key view := by
  have hperm : (candidateMap view).Perm view := perm_insertionSort _ view
  have hsorted : Distinct Candidate.candidateKey (candidateMap view) :=
    (hperm.map Candidate.candidateKey).nodup_iff.mpr h
  refine Option.ext fun a ↦ ?_
  rw [find_eq_some_iff hsorted, find_eq_some_iff h]
  exact and_congr_left fun _ ↦ hperm.mem_iff

theorem mem_candidateMap {a : Candidate} : a ∈ candidateMap view ↔ a ∈ view :=
  mem_insertionSort _

theorem candidateChange_eq_none_iff {previous : Option Candidate} {candidate : Candidate} :
    candidateChange previous candidate = none ↔ previous = some candidate := by
  rcases previous with _ | previous
  · simp [candidateChange]
  · simp [candidateChange]

/-- The delta has all differences of the two views. -/
theorem between_candidateDelta {parentView childView : List Candidate}
    (hparent : Distinct Candidate.candidateKey parentView) :
    (candidateDelta parentView childView).keyed.Between Candidate.candidateKey parentView
      childView where
  mem_upserts_iff a := by
    simp only [NavigationDelta.keyed, candidateDelta, mem_map, mem_filterMap, Prod.exists,
      exists_and_right, exists_eq_right, Option.map_eq_some_iff, Prod.mk.injEq, mem_candidateMap,
      find_candidateMap hparent]
    constructor
    · rintro ⟨change, b, hb, _, hchange, rfl, rfl⟩
      refine ⟨hb, fun hsome ↦ ?_⟩
      cases (candidateChange_eq_none_iff.mpr hsome).symm.trans hchange
    · rintro ⟨ha, hne⟩
      obtain ⟨change, hchange⟩ := Option.ne_none_iff_exists'.mp
        (fun hnone ↦ hne (candidateChange_eq_none_iff.mp hnone))
      exact ⟨change, a, ha, change, hchange, rfl, rfl⟩
  removed key hkey := by simpa using (mem_filter.mp hkey).2
  order_eq := rfl

/-! ## The declarations of a context -/

section

variable [Sha256] [Unicode] [TextCase]

variable {sources : List Json} {terms : List String}

omit [Unicode] in
theorem addDeclaration_eq_ok {found found' : List Declaration} {entry : Json × ℕ}
    (h : addDeclaration sources terms found entry = .ok found') :
    found' = found ∨ ∃ d : Declaration, found' = found ++ [d] ∧ d.ordinal = entry.2 ∧
      candidateHandle d.candidateKey ∉ found.map fun d ↦ candidateHandle d.candidateKey := by
  obtain ⟨matched, ordinal⟩ := entry
  rw [addDeclaration] at h
  dsimp only at h
  split at h
  · exact .inl (Except.ok.inj h).symm
  · split_ifs at h
    · obtain ⟨factKey, -, h⟩ := bind_eq_ok_iff.mp h
      obtain ⟨compilation, -, h⟩ := bind_eq_ok_iff.mp h
      obtain ⟨hnew, h⟩ := ensure_bind_eq_ok_iff.mp h
      exact .inr ⟨_, (Except.ok.inj h).symm, rfl, hnew⟩
    · exact .inl (Except.ok.inj h).symm

/-- The declarations have handles of their own, and places of their own. -/
structure Listed (found : List Declaration) (next : ℕ) : Prop where
  handles : (found.map fun d ↦ candidateHandle d.candidateKey).Nodup
  ordinals : (found.map Declaration.ordinal).Nodup
  ordinal_lt : ∀ d ∈ found, d.ordinal < next

variable {next : ℕ}

omit [Unicode] in
theorem Listed.foldlM (matched : List Json) {found found' : List Declaration}
    (h : Listed found next)
    (hfold : (matched.zipIdx next).foldlM (addDeclaration sources terms) found = .ok found') :
    Listed found' (next + matched.length) := by
  induction matched generalizing found next with
  | nil =>
    obtain rfl := Except.ok.inj hfold
    exact h
  | cons value matched ih =>
    rw [zipIdx_cons, foldlM_cons] at hfold
    obtain ⟨middle, hadd, hfold⟩ := bind_eq_ok_iff.mp hfold
    have hmiddle : Listed middle (next + 1) := by
      rcases addDeclaration_eq_ok hadd with rfl | ⟨d, rfl, hordinal, hnew⟩
      · exact ⟨h.handles, h.ordinals, fun d hd ↦ (h.ordinal_lt d hd).trans next.lt_succ_self⟩
      · have hordinal' : d.ordinal ∉ found.map Declaration.ordinal := by
          intro hmem
          obtain ⟨e, he, heq⟩ := mem_map.mp hmem
          exact absurd (h.ordinal_lt e he) (by rw [heq, hordinal]; exact lt_irrefl next)
        refine ⟨?_, ?_, fun e he ↦ ?_⟩
        · rw [map_append, map_singleton]
          exact h.handles.append (nodup_singleton _) (disjoint_singleton.mpr hnew)
        · rw [map_append, map_singleton]
          exact h.ordinals.append (nodup_singleton _) (disjoint_singleton.mpr hordinal')
        · rcases mem_append.mp he with he | he
          · exact (h.ordinal_lt e he).trans next.lt_succ_self
          · rw [mem_singleton.mp he, hordinal]
            exact next.lt_succ_self
    have hrest := ih hmiddle hfold
    rwa [length_cons, ← add_assoc, add_right_comm]

variable {context : ContextObject} {decisionIdentifier : Option String} {found : List Declaration}

theorem declarations_listed (h : declarations context decisionIdentifier = .ok (sources, found)) :
    ∃ next, Listed found next := by
  obtain ⟨retained, -, h⟩ := bind_eq_ok_iff.mp h
  obtain ⟨matched, -, h⟩ := bind_eq_ok_iff.mp h
  obtain ⟨sources', -, h⟩ := bind_eq_ok_iff.mp h
  obtain ⟨-, -, h⟩ := bind_eq_ok_iff.mp h
  obtain ⟨found', hfold, h⟩ := bind_eq_ok_iff.mp h
  obtain ⟨-, rfl⟩ := Prod.mk.inj (Except.ok.inj h)
  have hnone : Listed ([] : List Declaration) 0 := ⟨nodup_nil, nodup_nil, by simp⟩
  exact ⟨_, hnone.foldlM matched hfold⟩

/-- The identifier has a say in the order only. -/
theorem declarations_none {listed : List Json × List Declaration}
    (h : declarations context decisionIdentifier = .ok listed) :
    declarations context none = .ok listed := by
  obtain ⟨retained, hretained, h⟩ := bind_eq_ok_iff.mp h
  obtain ⟨matched, hmatched, h⟩ := bind_eq_ok_iff.mp h
  obtain ⟨sources, hsources, h⟩ := bind_eq_ok_iff.mp h
  obtain ⟨-, -, h⟩ := bind_eq_ok_iff.mp h
  refine bind_eq_ok_iff.mpr ⟨retained, hretained, bind_eq_ok_iff.mpr ⟨matched, hmatched, ?_⟩⟩
  exact bind_eq_ok_iff.mpr ⟨sources, hsources, bind_eq_ok_iff.mpr ⟨⟨⟩, rfl, h⟩⟩

omit [Unicode] [TextCase] in
theorem Listed.distinct (h : Listed found next) :
    (found.map Declaration.candidateKey).Nodup := by
  refine List.Nodup.of_map candidateHandle ?_
  rw [map_map]
  exact h.handles

omit [Unicode] [TextCase] in
/-- The places decide between declarations that are otherwise equal. -/
theorem Listed.ranks (h : Listed found next) (decisionIdentifier : Option String) :
    (found.map (Declaration.rank decisionIdentifier)).Nodup := by
  refine pairwise_map.mpr ((pairwise_map.mp h.ordinals).imp fun hne heq ↦ hne ?_)
  simp only [Declaration.rank, EmbeddingLike.apply_eq_iff_eq, Prod.mk.injEq] at heq
  exact heq.2.2.2.2.2.2

/-- The candidates of a context, by its declarations. -/
structure Views (context : ContextObject) (decisionIdentifier : Option String)
    (sources : List Json) (found : List Declaration) (view : List Candidate) : Prop where
  declarations_eq : declarations context none = .ok (sources, found)
  distinct : Distinct Candidate.candidateKey view
  mem_iff : ∀ a, a ∈ view ↔ ∃ d ∈ found,
    Ranking.ahead (Declaration.rank decisionIdentifier) found d < maxNavCandidates ∧
      d.candidate sources = a

theorem views_of_assemble {view : List Candidate}
    (h : assembleWithDecisionIdentifier context decisionIdentifier = .ok view) :
    ∃ sources found, Views context decisionIdentifier sources found view := by
  obtain ⟨⟨sources, found⟩, hfound, h⟩ := bind_eq_ok_iff.mp h
  obtain rfl := Except.ok.inj h
  obtain ⟨next, hlisted⟩ := declarations_listed hfound
  refine ⟨sources, found, declarations_none hfound, ?_, fun a ↦ ?_⟩
  · rw [Distinct, map_map]
    exact Ranking.nodup_map_best hlisted.distinct
  · simp only [mem_map, Ranking.mem_best_iff (hlisted.ranks decisionIdentifier), and_assoc]

/-! ## Replay -/

/-- A declaration that is described for parent and child in the same way, and that is in both lists
as the delta has them, is in the parent's list as the client has it: it is not displaced by
declarations of the declared name. -/
def Steady (decisionIdentifier : Option String) (parent child : ContextObject) : Prop :=
  ∀ sources found sources' found', declarations parent none = .ok (sources, found) →
    declarations child none = .ok (sources', found') →
      ∀ d ∈ found, ∀ d' ∈ found', d.candidate sources = d'.candidate sources' →
        Ranking.ahead (Declaration.rank none) found d < maxNavCandidates →
        Ranking.ahead (Declaration.rank decisionIdentifier) found' d' < maxNavCandidates →
          Ranking.ahead (Declaration.rank decisionIdentifier) found d < maxNavCandidates

variable [Stdout]

/-- A client has the candidates of a context by a query, or by a chain of deltas. -/
inductive Holds (decisionIdentifier : Option String) : ContextObject → List Candidate → Prop
  | query {context : ContextObject} {facets : List NavigationFacet} {held : List Candidate} :
      queryWithDecisionIdentifier context facets decisionIdentifier = .ok held →
      Holds decisionIdentifier context held
  | replay {parent child : ContextObject} {requestedTerms : List String}
      {facets : List NavigationFacet} {delta : NavigationDelta} {held held' : List Candidate} :
      Holds decisionIdentifier parent held → Steady decisionIdentifier parent child →
      expandDeltaWithDecisionIdentifier parent child requestedTerms facets decisionIdentifier =
        .ok delta →
      delta.replay held = some held' → Holds decisionIdentifier child held'

variable {facets : List NavigationFacet} {parent child : ContextObject}

theorem expandDelta_eq_ok {requestedTerms : List String} {delta : NavigationDelta}
    (h : expandDeltaWithDecisionIdentifier parent child requestedTerms facets decisionIdentifier =
      .ok delta) :
    ∃ parentView childView, assembleWithDecisionIdentifier parent none = .ok parentView ∧
      assembleWithDecisionIdentifier child decisionIdentifier = .ok childView ∧
      delta = candidateDelta parentView childView := by
  obtain ⟨-, h⟩ := ensure_bind_eq_ok_iff.mp h
  obtain ⟨parentView, hparent, h⟩ := bind_eq_ok_iff.mp h
  obtain ⟨childView, hchild, h⟩ := bind_eq_ok_iff.mp h
  obtain ⟨-, h⟩ := ensure_bind_eq_ok_iff.mp h
  exact ⟨parentView, childView, hparent, hchild, (Except.ok.inj h).symm⟩

theorem assemble_of_query {result : List Candidate}
    (h : queryWithDecisionIdentifier context facets decisionIdentifier = .ok result) :
    assembleWithDecisionIdentifier context decisionIdentifier = .ok result := by
  obtain ⟨candidates, hcandidates, h⟩ := bind_eq_ok_iff.mp h
  obtain ⟨-, h⟩ := ensure_bind_eq_ok_iff.mp h
  rwa [← Except.ok.inj h]

omit [Stdout] in
/-- A delta from the list without the identifier does for the list with it, exactly if nothing that
it leaves out was displaced. -/
theorem replay_eq_some_iff {parentView held childView : List Candidate}
    (hparent : assembleWithDecisionIdentifier parent none = .ok parentView)
    (hheld : assembleWithDecisionIdentifier parent decisionIdentifier = .ok held)
    (hchild : assembleWithDecisionIdentifier child decisionIdentifier = .ok childView) :
    (candidateDelta parentView childView).replay held = some childView ↔
      Steady decisionIdentifier parent child := by
  obtain ⟨sources, found, hparent⟩ := views_of_assemble hparent
  obtain ⟨_, _, hheld⟩ := views_of_assemble hheld
  obtain ⟨rfl, rfl⟩ := Prod.mk.inj
    (Except.ok.inj (hparent.declarations_eq.symm.trans hheld.declarations_eq))
  obtain ⟨sources', found', hchild⟩ := views_of_assemble hchild
  rw [NavigationDelta.replay,
    KeyedDelta.apply_eq_some_iff (between_candidateDelta hparent.distinct) hchild.distinct]
  simp only [find_eq_some_iff hparent.distinct, find_eq_some_iff hheld.distinct, and_true]
  constructor
  · intro hkept _ _ _ _ hdeclarations hdeclarations' d hd d' hd' heq hahead hahead'
    obtain ⟨rfl, rfl⟩ :=
      Prod.mk.inj (Except.ok.inj (hparent.declarations_eq.symm.trans hdeclarations))
    obtain ⟨rfl, rfl⟩ :=
      Prod.mk.inj (Except.ok.inj (hchild.declarations_eq.symm.trans hdeclarations'))
    have hmem := hkept _ ((hchild.mem_iff _).mpr ⟨d', hd', hahead', heq.symm⟩)
      ((hparent.mem_iff _).mpr ⟨d, hd, hahead, rfl⟩)
    obtain ⟨e, he, hahead_e, heq⟩ := (hheld.mem_iff _).mp hmem
    obtain ⟨next, hlisted⟩ := declarations_listed hdeclarations
    -- keys are distinct, so a declaration is known by its description
    have hkey : e.candidateKey = d.candidateKey := congrArg Candidate.candidateKey heq
    obtain rfl := inj_on_of_nodup_map hlisted.distinct he hd hkey
    exact hahead_e
  · intro hsteady a ha hold
    obtain ⟨d', hd', hahead', rfl⟩ := (hchild.mem_iff a).mp ha
    obtain ⟨d, hd, hahead, heq⟩ := (hparent.mem_iff _).mp hold
    exact (hheld.mem_iff _).mpr
      ⟨d, hd, hsteady sources found sources' found' hparent.declarations_eq
      hchild.declarations_eq d hd d' hd' heq hahead hahead', heq⟩

/-- Along a chain of steady deltas the client has what a query would give. -/
theorem Holds.assemble {held : List Candidate} (h : Holds decisionIdentifier context held) :
    assembleWithDecisionIdentifier context decisionIdentifier = .ok held := by
  induction h with
  | query h => exact assemble_of_query h
  | replay _ hsteady hdelta hreplay ih =>
    obtain ⟨parentView, childView, hparent, hchild, rfl⟩ := expandDelta_eq_ok hdelta
    have hresult := (replay_eq_some_iff hparent ih hchild).mpr hsteady
    obtain rfl := Option.some.inj (hreplay.symm.trans hresult)
    exact hchild

/-- A delta replays to the result of a query of the child exactly if the step to the child is
steady. -/
theorem expandDelta_replays_iff {parent child : ContextObject} {requestedTerms : List String}
    {facets facets' : List NavigationFacet} {decisionIdentifier : Option String}
    {delta : NavigationDelta} {held result : List Candidate}
    (hheld : Holds decisionIdentifier parent held)
    (hdelta : expandDeltaWithDecisionIdentifier parent child requestedTerms facets
      decisionIdentifier = .ok delta)
    (hresult : queryWithDecisionIdentifier child facets' decisionIdentifier = .ok result) :
    delta.replay held = some result ↔ Steady decisionIdentifier parent child := by
  obtain ⟨parentView, childView, hparent, hchild, rfl⟩ := expandDelta_eq_ok hdelta
  obtain rfl := Except.ok.inj ((assemble_of_query hresult).symm.trans hchild)
  exact replay_eq_some_iff hparent hheld.assemble hchild

end

/-! ## A delta that does not replay -/

section Example

attribute [local instance] Sha256.standard Unicode.basic

/-- The lower case of each character. -/
@[reducible] def TextCase.simple : TextCase where
  lowercase text := text.flatMap toLowercase

/-- All results fit. -/
@[reducible] def Stdout.wide : Stdout where
  queryFits _ _ _ _ := true
  deltaFits _ _ _ _ _ _ := true

attribute [local instance] TextCase.simple Stdout.wide

def exampleMatch (factKey name : String) : Json :=
  .obj [("compilation", .str "main"), ("factKey", .str factKey),
    ("payload", .obj [("kind", .str "declaration"), ("name", .str name)])]

/-- Four declarations, the last of them with the declared name. -/
def exampleEvidence : Json :=
  .obj [("context", .obj [("matches", .arr [exampleMatch "1" "foo.a", exampleMatch "2" "foo.b",
    exampleMatch "3" "foo.bar", exampleMatch "4" "foo"]), ("sources", .arr [])])]

def exampleParent : ContextObject := ⟨"parent", "session", none, ["foo"], exampleEvidence⟩

def exampleChild : ContextObject :=
  ⟨"child", "session", some "parent", ["foo", "bar"], exampleEvidence⟩

def exampleCandidate (factKey name : String) : Candidate :=
  Declaration.candidate [] ⟨⟨"main", factKey⟩, .obj [("name", .str name)], 0, 0, 0, 0, 0, 0⟩

/-- Of the parent the client has `foo`, `foo.a` and `foo.b`. For the child `foo.bar` is listed, too,
but it is not sent, since it is in the parent's list without the identifier. -/
theorem expandDelta_not_replayed : ∃ (parent child : ContextObject) (requestedTerms : List String)
    (identifier : String) (held result : List Candidate) (delta : NavigationDelta),
    queryWithDecisionIdentifier parent [] (some identifier) = .ok held ∧
      expandDeltaWithDecisionIdentifier parent child requestedTerms [] (some identifier) =
        .ok delta ∧
      queryWithDecisionIdentifier child [] (some identifier) = .ok result ∧
      delta.replay held ≠ some result := by
  refine ⟨exampleParent, exampleChild, ["bar"], "foo",
    [exampleCandidate "4" "foo", exampleCandidate "1" "foo.a", exampleCandidate "2" "foo.b"],
    [exampleCandidate "4" "foo", exampleCandidate "3" "foo.bar", exampleCandidate "1" "foo.a"],
    ⟨[(exampleCandidate "4" "foo", .added)], [⟨"main", "2"⟩], 2,
      [⟨"main", "4"⟩, ⟨"main", "3"⟩, ⟨"main", "1"⟩]⟩, ?_, ?_, ?_, ?_⟩
  · decide +kernel
  · decide +kernel
  · decide +kernel
  · decide

/-- With the same terms the step is steady: `foo.bar` is not listed for the child. -/
theorem expandDelta_replays_iff_foo :
    Steady (some "foo") exampleParent { exampleChild with terms := ["foo"] } := by
  have hheld : queryWithDecisionIdentifier exampleParent [] (some "foo") = .ok
      [exampleCandidate "4" "foo", exampleCandidate "1" "foo.a", exampleCandidate "2" "foo.b"] := by
    decide +kernel
  refine (expandDelta_replays_iff (.query hheld)
    (show expandDeltaWithDecisionIdentifier exampleParent { exampleChild with terms := ["foo"] }
      ["foo"] [] (some "foo") = .ok ⟨[(exampleCandidate "4" "foo", .added)], [⟨"main", "3"⟩], 2,
        [⟨"main", "4"⟩, ⟨"main", "1"⟩, ⟨"main", "2"⟩]⟩ by decide +kernel)
    (show queryWithDecisionIdentifier { exampleChild with terms := ["foo"] } [] (some "foo") = .ok
      [exampleCandidate "4" "foo", exampleCandidate "1" "foo.a", exampleCandidate "2" "foo.b"] by
        decide +kernel)).mp ?_
  decide +kernel

end Example

end Codeclew.Navigation
