import Codeclew.Program
import Codeclew.State

/-!
# Compact bindings

The fragments of a documentation snapshot keep the observations and sources they rest on. Those that
are the same in the whole snapshot are stored once: compaction leaves their names in the fragment,
and expansion puts them back. Dependencies that can be read off the observations are left out as
well. An older version of an observation or a source stays with its fragment.

Observations, sources, influence scopes and reviewed answers are only told apart, so they are of
arbitrary types; `digest` is the digest an observation carries.
-/

namespace Codeclew.Fragments

open Std List

abbrev Named (α : Type) := ExtTreeMap String α compare

variable {Observation Source Scope Answer : Type}

structure FragmentEvidence (Observation Source : Type) where
  observations : Named Observation
  sources : Named Source
  sharedObservations : List String
  sharedSources : List String

structure FragmentBinding (Observation Source : Type) where
  influenceScope : Option String
  dependencies : Named String
  dependenciesFromEvidence : Bool
  evidence : Option (FragmentEvidence Observation Source)

structure Influence where
  scope : String

structure AcceptedVersion where
  influence : Influence

structure Bindings (Observation Source Scope Answer : Type) where
  schema : String
  reviewedAnswers : Named Answer
  influenceScopes : Named Scope
  fragments : Named (FragmentBinding Observation Source)
  observations : Named Observation
  retainedSources : Named Source
  acceptedVersions : Named AcceptedVersion

/-! ## Compaction -/

section Compact

variable [DecidableEq Observation] [DecidableEq Source] (digest : Observation → String)

/-- `retain`, with the names of what is taken out in their order. -/
def share {α : Type} [DecidableEq α] (shared own : Named α) : Named α × List String :=
  (own.filter fun id value ↦ shared[id]? ≠ some value,
    (own.filter fun id value ↦ shared[id]? = some value).keys)

/-- The digests of observations. -/
def derived (observations : Named Observation) : Named String :=
  observations.map fun _ observation ↦ digest observation

def compactFragment (observations : Named Observation) (retainedSources : Named Source)
    (fragment : FragmentBinding Observation Source) : FragmentBinding Observation Source :=
  match fragment.evidence with
  | none => fragment
  | some evidence =>
    -- what is older than in the snapshot stays here
    let own := share observations evidence.observations
    let ownSources := share retainedSources evidence.sources
    let fragment := if fragment.dependencies = derived digest evidence.observations then
      { fragment with dependencies := ∅, dependenciesFromEvidence := true } else fragment
    { fragment with evidence := some ⟨own.1, ownSources.1, evidence.sharedObservations ++ own.2,
        evidence.sharedSources ++ ownSources.2⟩ }

/-- The scopes that fragments and accepted versions name. -/
def referenced (binding : Bindings Observation Source Scope Answer) : List String :=
  binding.fragments.toList.filterMap (·.2.influenceScope) ++
    binding.acceptedVersions.toList.map (·.2.influence.scope)

def pruneInfluenceScopes (binding : Bindings Observation Source Scope Answer) : Named Scope :=
  binding.influenceScopes.filter fun scope _ ↦ scope ∈ referenced binding

def compact (binding : Bindings Observation Source Scope Answer) :
    Bindings Observation Source Scope Answer :=
  { binding with
    influenceScopes := pruneInfluenceScopes binding
    schema := if binding.reviewedAnswers.isEmpty then "codeclew-documentation-bindings/1.4"
      else "codeclew-documentation-bindings/1.5"
    fragments := binding.fragments.map fun _ fragment ↦
      compactFragment digest binding.observations binding.retainedSources fragment }

end Compact

/-! ## Expansion -/

section Expand

variable (digest : Observation → String)

/-- Put back what is shared; `kind` is what the errors call it. -/
def unshare {α : Type} (kind : String) (shared : Named α) : List String → Named α →
    Except ClewError (Named α)
  | [], own => .ok own
  | id :: ids, own =>
    match shared[id]? with
    | none => .error (invalid ("shared fragment " ++ kind ++ " is missing"))
    | some value =>
      if id ∈ own then .error (invalid ("duplicate shared fragment " ++ kind))
      else unshare kind shared ids (own.insert id value)

def expandFragment (observations : Named Observation) (retainedSources : Named Source)
    (fragment : FragmentBinding Observation Source) :
    Except ClewError (FragmentBinding Observation Source) :=
  match fragment.evidence with
  | none =>
    if fragment.dependenciesFromEvidence then
      .error (invalid "derived fragment dependencies require retained evidence")
    else .ok fragment
  | some evidence => do
    let own ← unshare "observation" observations evidence.sharedObservations evidence.observations
    let ownSources ← unshare "source" retainedSources evidence.sharedSources evidence.sources
    let fragment := { fragment with evidence := some ⟨own, ownSources, [], []⟩ }
    if fragment.dependenciesFromEvidence then
      if fragment.dependencies = ∅ then
        return { fragment with
          dependencies := derived digest own
          dependenciesFromEvidence := false }
      else throw (invalid "derived fragment dependencies cannot also be inline")
    else return fragment

def expandShared (binding : Bindings Observation Source Scope Answer) :
    Except ClewError (Bindings Observation Source Scope Answer) := do
  let fragments ← binding.fragments.toList.mapM fun (name, fragment) ↦ do
    let fragment ← expandFragment digest binding.observations binding.retainedSources fragment
    return (name, fragment)
  return { binding with fragments := ExtTreeMap.ofList fragments compare }

end Expand

/-! ## Expansion undoes compaction -/

/-- What is left to put back is what `own` has and the map does not. -/
theorem unshare_eq_ok {α : Type} {kind : String} {shared own m : Named α} {ids : List String}
    (hnodup : ids.Nodup) (hmissing : ∀ id, m[id]? = if id ∈ ids then none else own[id]?)
    (hshared : ∀ id ∈ ids, ∃ value, own[id]? = some value ∧ shared[id]? = some value) :
    unshare kind shared ids m = .ok own := by
  induction ids generalizing m with
  | nil => exact congrArg Except.ok (ExtTreeMap.ext_getElem? fun id ↦ by simp [hmissing])
  | cons id ids ih =>
    -- the name is missing in `m`, and with its value the rest of the names is
    obtain ⟨hid, hnodup⟩ := nodup_cons.mp hnodup
    obtain ⟨value, hown, hvalue⟩ := hshared id mem_cons_self
    have hnew : id ∉ m := by simp [ExtTreeMap.mem_iff_isSome_getElem?, hmissing]
    rw [unshare, hvalue]
    dsimp only
    rw [if_neg hnew]
    refine ih hnodup (fun other ↦ ?_) fun other hother ↦ hshared other (mem_cons_of_mem _ hother)
    rw [ExtTreeMap.getElem?_insert, hmissing]
    by_cases heq : id = other
    · subst heq
      simp [hid, hown]
    · simp [heq, Ne.symm heq]

theorem unshare_share {α : Type} [DecidableEq α] (kind : String) (shared own : Named α) :
    unshare kind shared (share shared own).2 (share shared own).1 = .ok own := by
  have hmem : ∀ id, id ∈ (share shared own).2 ↔
      ∃ value, own[id]? = some value ∧ shared[id]? = some value := fun id ↦ by
    rw [share, ExtTreeMap.mem_keys, ExtTreeMap.mem_iff_isSome_getElem?, ExtTreeMap.getElem?_filter']
    cases own[id]? <;> simp [Option.filter_some]
  refine unshare_eq_ok ExtTreeMap.nodup_keys (fun id ↦ ?_) fun id ↦ (hmem id).mp
  have hkept : (share shared own).1[id]? = own[id]?.filter (shared[id]? ≠ some ·) := by
    rw [share, ExtTreeMap.getElem?_filter']
  simp only [hkept, hmem]
  cases own[id]? with
  | none => simp
  | some value => simp [Option.filter_some, ite_not]

theorem ofList_toList {α : Type} (m : Named α) : ExtTreeMap.ofList m.toList compare = m := by
  refine ExtTreeMap.ext_getElem? fun id ↦ ?_
  cases h : m[id]? with
  | none =>
    refine ExtTreeMap.getElem?_ofList_of_contains_eq_false ?_
    simpa [ExtTreeMap.map_fst_toList_eq_keys] using h
  | some value =>
    exact ExtTreeMap.getElem?_ofList_of_mem ReflCmp.compare_self ExtTreeMap.distinct_keys_toList
      (ExtTreeMap.mem_toList_iff_getElem?_eq_some.mpr h)

/-- A fragment as it is before compaction. -/
def FragmentBinding.Whole (fragment : FragmentBinding Observation Source) : Prop :=
  fragment.dependenciesFromEvidence = false ∧
    ∀ evidence ∈ fragment.evidence, evidence.sharedObservations = [] ∧ evidence.sharedSources = []

section Inverse

variable [DecidableEq Observation] [DecidableEq Source] (digest : Observation → String)

theorem expandFragment_compactFragment {fragment : FragmentBinding Observation Source}
    (h : fragment.Whole) (observations : Named Observation) (retainedSources : Named Source) :
    expandFragment digest observations retainedSources
      (compactFragment digest observations retainedSources fragment) = .ok fragment := by
  obtain ⟨scope, dependencies, flag, evidence⟩ := fragment
  obtain ⟨rfl, hshared⟩ := h
  cases evidence with
  | none => rfl
  | some evidence =>
    obtain ⟨own, sources, _, _⟩ := evidence
    obtain ⟨rfl, rfl⟩ := hshared _ rfl
    simp only [compactFragment, expandFragment, nil_append, unshare_share, ok_bind]
    -- dependencies that were left out are those of the observations put back
    by_cases hderived : dependencies = derived digest own
    · rw [if_pos hderived]
      simp only [if_true]
      rw [hderived]
      rfl
    · rw [if_neg hderived]
      rfl

/-- A fragment or an accepted version names the scope. -/
def Referenced (binding : Bindings Observation Source Scope Answer) (scope : String) : Prop :=
  (∃ name : String, ∃ fragment, binding.fragments[name]? = some fragment ∧
      fragment.influenceScope = some scope) ∨
    ∃ name : String, ∃ version, binding.acceptedVersions[name]? = some version ∧
      version.influence.scope = scope

omit [DecidableEq Observation] [DecidableEq Source] in
theorem mem_referenced {binding : Bindings Observation Source Scope Answer} {scope : String} :
    scope ∈ referenced binding ↔ Referenced binding scope := by
  simp only [referenced, Referenced, mem_append, mem_filterMap, mem_map, Prod.exists,
    ExtTreeMap.mem_toList_iff_getElem?_eq_some]

theorem expandShared_compactFragments {binding : Bindings Observation Source Scope Answer}
    (h : ∀ name : String, ∀ fragment, binding.fragments[name]? = some fragment → fragment.Whole) :
    (compact digest binding).fragments.toList.mapM (fun q ↦ do
      let fragment ← expandFragment digest binding.observations binding.retainedSources q.2
      return (q.1, fragment)) = .ok binding.fragments.toList := by
  rw [compact, ExtTreeMap.toList_map]
  refine mapM_eq_ok_iff.mpr (forall₂_map_left_iff.mpr (forall₂_same.mpr ?_))
  rintro ⟨name, fragment⟩ hmem
  have hwhole := h name fragment (ExtTreeMap.mem_toList_iff_getElem?_eq_some.mp hmem)
  dsimp only
  rw [expandFragment_compactFragment digest hwhole, ok_bind]
  rfl

/-- Expansion undoes compaction, except that the schema is replaced and that the influence scopes
nothing names are dropped. -/
theorem expandShared_compact {binding : Bindings Observation Source Scope Answer}
    (h : ∀ name : String, ∀ fragment, binding.fragments[name]? = some fragment → fragment.Whole) :
    expandShared digest (compact digest binding) = .ok { binding with
      schema := if binding.reviewedAnswers.isEmpty then "codeclew-documentation-bindings/1.4"
        else "codeclew-documentation-bindings/1.5"
      influenceScopes := pruneInfluenceScopes binding } ∧
    ∀ (scope : String) (value : Scope), (pruneInfluenceScopes binding)[scope]? = some value ↔
      binding.influenceScopes[scope]? = some value ∧ Referenced binding scope := by
  constructor
  · refine (congrArg (· >>= _) (expandShared_compactFragments digest h)).trans ?_
    rw [ok_bind, ofList_toList]
    rfl
  · intro scope value
    rw [pruneInfluenceScopes, ExtTreeMap.getElem?_filter', Option.filter_eq_some_iff,
      decide_eq_true_iff, mem_referenced]

end Inverse

/-- A fragment with an observation that is shared and an older source, a fragment without evidence,
and a scope that nothing names. -/
def exampleBindings : Bindings String String String String where
  schema := ""
  reviewedAnswers := ∅
  influenceScopes := (∅ : Named String).insert "used" "" |>.insert "unused" ""
  fragments := (∅ : Named (FragmentBinding String String)).insert "claim"
      ⟨some "used", (∅ : Named String).insert "o" "new", false,
        some ⟨(∅ : Named String).insert "o" "new", (∅ : Named String).insert "s" "old", [], []⟩⟩
    |>.insert "note" ⟨none, (∅ : Named String).insert "p" "other", false, none⟩
  observations := (∅ : Named String).insert "o" "new"
  retainedSources := (∅ : Named String).insert "s" "new"
  acceptedVersions := ∅

theorem expandShared_compact_older :
    (compact id exampleBindings).fragments["claim"]?.bind (·.evidence.map fun evidence ↦
      (evidence.sharedObservations, evidence.sharedSources)) = some (["o"], []) ∧
    (∃ expanded, expandShared id (compact id exampleBindings) = .ok expanded ∧
      expanded.fragments = exampleBindings.fragments ∧
      "used" ∈ expanded.influenceScopes ∧ "unused" ∉ expanded.influenceScopes) := by
  refine ⟨by decide +kernel, ?_⟩
  have hwhole : ∀ name : String, ∀ fragment,
      exampleBindings.fragments[name]? = some fragment → fragment.Whole := by
    intro name fragment h
    simp only [exampleBindings, ExtTreeMap.getElem?_insert] at h
    split at h
    · cases h
      exact ⟨rfl, by simp⟩
    · split at h
      · cases h
        exact ⟨rfl, by simp⟩
      · simp at h
  obtain ⟨hexpanded, hscopes⟩ := expandShared_compact id hwhole
  refine ⟨_, hexpanded, rfl, ?_, ?_⟩
  · decide +kernel
  · decide +kernel

end Codeclew.Fragments
