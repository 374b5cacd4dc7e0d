import Codeclew.Collections
import Codeclew.Kotlin.Accepted

/-!
# Change sets

The declarations of two lanes are matched by their symbols. The declarations of a symbol that both
lanes have are compared part by part, with an observation for each part that differs; what is left
over on either side is reported as a whole.

`exists_compareLane` says which pairs of declarations of one symbol an observation names: those that
have differences. Parts of a shape may differ without that, so not every change is seen.
-/

namespace Codeclew.Kotlin

open Std List ExtTreeMap

/-! ## Observations -/

inductive ImpactSide where
  | provider
  | consumer
  deriving DecidableEq, Repr

def ImpactSide.name : ImpactSide → String
  | provider => "PROVIDER"
  | consumer => "CONSUMER"

def KotlinChangeCode.name : KotlinChangeCode → String
  | callableAdded => "KCD_CALLABLE_ADDED"
  | callableRemoved => "KCD_CALLABLE_REMOVED"
  | overloadSetChanged => "KCD_OVERLOAD_SET_CHANGED"
  | jvmDescriptorChanged => "KCD_JVM_DESCRIPTOR_CHANGED"
  | parameterTypesChanged => "KCD_PARAMETER_TYPES_CHANGED"
  | returnTypeChanged => "KCD_RETURN_TYPE_CHANGED"
  | receiverTypeChanged => "KCD_RECEIVER_TYPE_CHANGED"
  | nullabilityChanged => "KCD_NULLABILITY_CHANGED"
  | typeParameterBoundsChanged => "KCD_TYPE_PARAMETER_BOUNDS_CHANGED"
  | visibilityChanged => "KCD_VISIBILITY_CHANGED"
  | modalityChanged => "KCD_MODALITY_CHANGED"
  | overrideStatusChanged => "KCD_OVERRIDE_STATUS_CHANGED"
  | unsupportedComparison => "KCD_UNSUPPORTED_COMPARISON"

/-- An optional member is left out if there is no value. -/
def optionalMember (name : String) (value : Option String) : List (String × Json) :=
  (value.map fun value ↦ (name, Json.str value)).toList

def ChangeDeclarationEvidence.json (d : ChangeDeclarationEvidence) : Json :=
  .obj ([("findingId", .str d.findingId), ("factId", .str d.factId),
    ("memberAlias", .str d.memberAlias), ("authority", .str d.authority.name),
    ("declarationKind", .str d.declarationKind.name), ("symbolIdentity", .str d.symbolIdentity)] ++
    optionalMember "compilerCallableId" d.compilerCallableId ++
    optionalMember "compilerClassId" d.compilerClassId ++
    optionalMember "shapeDigest" d.shapeDigest ++ [("projectedShape", d.projectedShape)])

structure KotlinChangeObservation where
  observationId : String
  code : KotlinChangeCode
  side : ImpactSide
  before : List ChangeDeclarationEvidence
  after : List ChangeDeclarationEvidence
  deriving DecidableEq

def sortByFinding (ds : List ChangeDeclarationEvidence) : List ChangeDeclarationEvidence :=
  ds.mergeSort fun left right ↦ left.findingId ≤ right.findingId

inductive ComparisonObligationCode where
  | disambiguateOverloadSet
  | verifyUnsupportedComparison
  | verifyTruncatedImpactEvidence
  deriving DecidableEq, Repr

/-- A check that is left to the reader of a comparison. -/
structure ComparisonObligation where
  side : ImpactSide
  code : ComparisonObligationCode
  beforeFindingIds : List String
  afterFindingIds : List String
  deriving DecidableEq

/-- What a comparison comes to. -/
structure Comparison where
  observations : List KotlinChangeObservation
  obligations : List ComparisonObligation
  deriving DecidableEq

namespace Comparison

def empty : Comparison := ⟨[], []⟩

def append (a b : Comparison) : Comparison :=
  ⟨a.observations ++ b.observations, a.obligations ++ b.obligations⟩

def flatten (parts : List Comparison) : Comparison := parts.foldr append empty

@[simp] theorem observations_empty : empty.observations = [] := rfl

@[simp] theorem observations_append (a b : Comparison) :
    (a.append b).observations = a.observations ++ b.observations := rfl

theorem mem_observations_flatten {parts : List Comparison} {o : KotlinChangeObservation} :
    o ∈ (flatten parts).observations ↔ ∃ part ∈ parts, o ∈ part.observations := by
  induction parts with
  | nil => simp [flatten]
  | cons part parts ih =>
    rw [flatten, foldr_cons, observations_append, mem_append, ← flatten, ih]
    simp

end Comparison

/-! ## Lanes -/

/-- A finding about one side. -/
inductive ImpactFinding where
  | declaration (evidence : ChangeDeclarationEvidence)
  | use
  | boundary (findingId : String)

/-- The findings about one side of an impact, in one of its two states. -/
structure Impact where
  findings : List ImpactFinding
  findingsTruncated : Bool
  /-- The facts are complete, and no open obligation stands in the way of reading an absence. -/
  factsComplete : Bool

structure LaneDeclarations where
  exact : List ChangeDeclarationEvidence
  unsupportedDeclarations : List ChangeDeclarationEvidence
  unsupportedFindingIds : List String
  absenceComplete : Bool

/-- The evidence is about a whole declaration, and its shape has been settled. -/
def isExact (d : ChangeDeclarationEvidence) : Bool :=
  d.authority == .exactProjectedDeclaration && d.shapeDigest.isSome

def sortBySymbol (ds : List ChangeDeclarationEvidence) : List ChangeDeclarationEvidence :=
  ds.mergeSort fun left right ↦ left.symbolIdentity ≤ right.symbolIdentity

def Impact.declarations (impact : Impact) : List ChangeDeclarationEvidence :=
  impact.findings.filterMap fun
    | .declaration evidence => some evidence
    | _ => none

def Impact.unsupportedFindingIds (impact : Impact) : List String :=
  impact.findings.filterMap fun
    | .declaration evidence => if isExact evidence then none else some evidence.findingId
    | .boundary findingId => some findingId
    | .use => none

def laneDeclarations (impact : Impact) : LaneDeclarations :=
  let unsupportedFindingIds := KeyedSet.ofList id impact.unsupportedFindingIds
  { exact := sortBySymbol (impact.declarations.filter isExact)
    unsupportedDeclarations := sortBySymbol (impact.declarations.filter (!isExact ·))
    unsupportedFindingIds
    absenceComplete :=
      unsupportedFindingIds.isEmpty && !impact.findingsTruncated && impact.factsComplete }

abbrev BySymbol := ExtTreeMap String ChangeDeclarationEvidence

def addBySymbol (bySymbol : BySymbol) (d : ChangeDeclarationEvidence) : Except ClewError BySymbol :=
  if bySymbol.contains d.symbolIdentity then
    .error (corrupt "impact repeats a declaration symbol within one comparison lane")
  else .ok (bySymbol.insert d.symbolIdentity d)

def uniqueBySymbol (ds : List ChangeDeclarationEvidence) : Except ClewError BySymbol :=
  ds.foldlM addBySymbol ∅

section Compare

variable [Sha256] (side : ImpactSide)

def observation (code : KotlinChangeCode) (before after : List ChangeDeclarationEvidence) :
    KotlinChangeObservation :=
  let before := sortByFinding before
  let after := sortByFinding after
  let material := Json.obj [("schema", .str "codeclew-kotlin-change-observation/1.0"),
    ("code", .str code.name), ("side", .str side.name),
    ("before", .arr (before.map (·.json))), ("after", .arr (after.map (·.json)))]
  ⟨hashBytes material.sortValue.bytes, code, side, before, after⟩

def obligation (code : ComparisonObligationCode) (before after : List ChangeDeclarationEvidence) :
    ComparisonObligation :=
  ⟨side, code, before.map (·.findingId), after.map (·.findingId)⟩

def compareDeclarationPair (before after : ChangeDeclarationEvidence) : Comparison :=
  ⟨(differences before after).map fun code ↦ observation side code [before] [after],
    if residualChanged before after then
      [obligation side .verifyUnsupportedComparison [before] [after]] else []⟩

/-- The declarations of the symbols that both sides have. -/
def compareMatched (before after : BySymbol) (symbols : List String) : Comparison :=
  .flatten (symbols.map fun symbol ↦
    match before[symbol]?, after[symbol]? with
    | some b, some a => compareDeclarationPair side b a
    | _, _ => .empty)

/-- The declarations that are left on both sides. -/
def compareUnmatched (hadMatched complete : Bool) :
    (before after : List ChangeDeclarationEvidence) → Comparison
  | [], [] => .empty
  | before, after =>
    if !complete then
      ⟨[observation side .unsupportedComparison before after],
        [obligation side .verifyUnsupportedComparison before after]⟩
    else if before = [] then
      ⟨[observation side (if hadMatched then .overloadSetChanged else .callableAdded) [] after], []⟩
    else if after = [] then
      ⟨[observation side (if hadMatched then .overloadSetChanged else .callableRemoved) before []],
        []⟩
    else
      ⟨[observation side .overloadSetChanged before after],
        [obligation side .disambiguateOverloadSet before after]⟩

/-- A single declaration on each side that the compiler gives the same name is one that changed. -/
def compareRest (hadMatched complete : Bool) (before after : List ChangeDeclarationEvidence) :
    Comparison :=
  match before, after with
  | [b], [a] =>
    if hadMatched = false ∧ b.compilerCallableId.isSome ∧
        b.compilerCallableId = a.compilerCallableId then compareDeclarationPair side b a
    else compareUnmatched side hadMatched complete [b] [a]
  | before, after => compareUnmatched side hadMatched complete before after

def compareExactLanes (beforeLane afterLane : LaneDeclarations) : Except ClewError Comparison := do
  let before ← uniqueBySymbol beforeLane.exact
  let after ← uniqueBySymbol afterLane.exact
  let commonSymbols := before.keys.filter (after.contains ·)
  let unmatchedBefore := before.filter fun symbol _ ↦ !commonSymbols.contains symbol
  let unmatchedAfter := after.filter fun symbol _ ↦ !commonSymbols.contains symbol
  return (compareMatched side before after commonSymbols).append
    (compareRest side (!commonSymbols.isEmpty)
      (beforeLane.absenceComplete && afterLane.absenceComplete)
      (unmatchedBefore.toList.map Prod.snd) (unmatchedAfter.toList.map Prod.snd))

/-- What cannot be compared is reported first. -/
def compareUnsupported (before after : Impact) (beforeLane afterLane : LaneDeclarations) :
    Comparison :=
  let truncated := before.findingsTruncated || after.findingsTruncated
  if beforeLane.unsupportedFindingIds = [] ∧ afterLane.unsupportedFindingIds = [] ∧
      truncated = false then .empty
  else
    ⟨[observation side .unsupportedComparison beforeLane.unsupportedDeclarations
      afterLane.unsupportedDeclarations],
      [⟨side, if truncated then .verifyTruncatedImpactEvidence else .verifyUnsupportedComparison,
        beforeLane.unsupportedFindingIds, afterLane.unsupportedFindingIds⟩]⟩

def compareLane (before after : Impact) : Except ClewError Comparison := do
  let beforeLane := laneDeclarations before
  let afterLane := laneDeclarations after
  let exact ← compareExactLanes side beforeLane afterLane
  return (compareUnsupported side before after beforeLane afterLane).append exact

end Compare

/-! ## Symbols -/

/-- A map that has the declarations of a list under their symbols. -/
def Lists (bySymbol : BySymbol) (ds : List ChangeDeclarationEvidence) : Prop :=
  ∀ symbol d, bySymbol[symbol]? = some d ↔ d ∈ ds ∧ d.symbolIdentity = symbol

theorem exists_foldlM_addBySymbol {bySymbol : BySymbol} {seen ds : List ChangeDeclarationEvidence}
    (hlists : Lists bySymbol seen) (hnodup : ((seen ++ ds).map (·.symbolIdentity)).Nodup) :
    ∃ bySymbol', ds.foldlM addBySymbol bySymbol = .ok bySymbol' ∧ Lists bySymbol' (seen ++ ds) := by
  induction ds generalizing bySymbol seen with
  | nil => exact ⟨bySymbol, rfl, by rwa [append_nil]⟩
  | cons d ds ih =>
    have hnew : ∀ e ∈ seen, e.symbolIdentity ≠ d.symbolIdentity := by
      rw [map_append, nodup_append] at hnodup
      exact fun e he ↦ hnodup.2.2 _ (mem_map_of_mem he) _ (by simp)
    have hcontains : ¬bySymbol.contains d.symbolIdentity = true := by
      rw [contains_eq_isSome_getElem?, Option.isSome_iff_exists]
      rintro ⟨e, he⟩
      obtain ⟨hmem, hsymbol⟩ := (hlists _ _).mp he
      exact hnew e hmem hsymbol
    have hinsert : Lists (bySymbol.insert d.symbolIdentity d) (seen ++ [d]) := by
      intro symbol e
      rw [ExtTreeMap.getElem?_insert, mem_append, mem_singleton]
      by_cases hsymbol : d.symbolIdentity = symbol
      · subst hsymbol
        rw [if_pos ReflCmp.compare_self, Option.some.injEq]
        constructor
        · rintro rfl
          exact ⟨.inr rfl, rfl⟩
        · rintro ⟨hmem | rfl, hsymbol⟩
          · exact absurd hsymbol (hnew e hmem)
          · rfl
      · rw [if_neg fun h ↦ hsymbol (LawfulEqCmp.eq_of_compare h), hlists]
        refine and_congr_left fun he ↦ ⟨.inl, ?_⟩
        rintro (hmem | rfl)
        · exact hmem
        · exact absurd he hsymbol
    rw [append_cons] at hnodup ⊢
    rw [foldlM_cons, addBySymbol, if_neg hcontains]
    exact ih hinsert hnodup

theorem exists_uniqueBySymbol {ds : List ChangeDeclarationEvidence}
    (hnodup : (ds.map (·.symbolIdentity)).Nodup) :
    ∃ bySymbol, uniqueBySymbol ds = .ok bySymbol ∧ Lists bySymbol ds := by
  have hempty : Lists ∅ [] := by
    intro symbol d
    simp
  exact exists_foldlM_addBySymbol hempty hnodup

/-! ## Names in observations -/

/-- An observation names two declarations together. -/
def KotlinChangeObservation.Names (o : KotlinChangeObservation)
    (before after : ChangeDeclarationEvidence) : Prop :=
  before ∈ o.before ∧ after ∈ o.after

variable {d : ChangeDeclarationEvidence}

theorem mem_exact_iff {impact : Impact} :
    d ∈ (laneDeclarations impact).exact ↔ d ∈ impact.declarations ∧ isExact d = true := by
  rw [laneDeclarations, ← mem_filter]
  exact mem_mergeSort

theorem isExact_of_mem_unsupported {impact : Impact}
    (h : d ∈ (laneDeclarations impact).unsupportedDeclarations) : isExact d = false := by
  have hmem : d ∈ impact.declarations.filter (!isExact ·) := mem_mergeSort.mp h
  simpa using (mem_filter.mp hmem).2

section Names

variable [Sha256] {side : ImpactSide} {b a : ChangeDeclarationEvidence}

variable {before after : List ChangeDeclarationEvidence} {code : KotlinChangeCode}

theorem mem_before_observation :
    b ∈ (observation side code before after).before ↔ b ∈ before := mem_mergeSort

theorem mem_after_observation :
    a ∈ (observation side code before after).after ↔ a ∈ after := mem_mergeSort

/-- The observations of a pair name this pair alone. -/
theorem names_compareDeclarationPair_iff {before after : ChangeDeclarationEvidence} :
    (∃ o ∈ (compareDeclarationPair side before after).observations, o.Names b a) ↔
      b = before ∧ a = after ∧ differences before after ≠ [] := by
  rw [compareDeclarationPair]
  constructor
  · rintro ⟨o, ho, hbefore, hafter⟩
    obtain ⟨code, hcode, rfl⟩ := mem_map.mp ho
    rw [mem_before_observation, mem_singleton] at hbefore
    rw [mem_after_observation, mem_singleton] at hafter
    exact ⟨hbefore, hafter, ne_nil_of_mem hcode⟩
  · rintro ⟨rfl, rfl, hne⟩
    obtain ⟨code, hcode⟩ := exists_mem_of_ne_nil _ hne
    exact ⟨_, mem_map_of_mem hcode, mem_before_observation.mpr (mem_singleton_self b),
      mem_after_observation.mpr (mem_singleton_self a)⟩

variable {hadMatched complete : Bool} {o : KotlinChangeObservation}

theorem mem_of_mem_compareUnmatched
    (ho : o ∈ (compareUnmatched side hadMatched complete before after).observations)
    (hb : b ∈ o.before) : b ∈ before := by
  rw [compareUnmatched.eq_def] at ho
  split at ho
  · cases ho
  · split_ifs at ho with hcomplete hbefore hafter <;> rw [mem_singleton] at ho <;>
      rw [ho, mem_before_observation] at hb <;> first | exact hb | cases hb

/-- What remains on the one side is reported with declarations that remain there. -/
theorem mem_of_mem_compareRest
    (ho : o ∈ (compareRest side hadMatched complete before after).observations)
    (hb : b ∈ o.before) :
    b ∈ before := by
  rw [compareRest.eq_def] at ho
  split at ho
  · split_ifs at ho
    · obtain ⟨code, -, rfl⟩ := mem_map.mp ho
      exact mem_before_observation.mp hb
    · exact mem_of_mem_compareUnmatched ho hb
  · exact mem_of_mem_compareUnmatched ho hb

theorem names_compareMatched_iff {before after : BySymbol} {symbols : List String} :
    (∃ o ∈ (compareMatched side before after symbols).observations, o.Names b a) ↔
      ∃ symbol ∈ symbols, before[symbol]? = some b ∧ after[symbol]? = some a ∧
        differences b a ≠ [] := by
  rw [compareMatched]
  constructor
  · rintro ⟨o, ho, hnames⟩
    obtain ⟨part, hpart, ho⟩ := Comparison.mem_observations_flatten.mp ho
    obtain ⟨symbol, hsymbol, rfl⟩ := mem_map.mp hpart
    split at ho
    · obtain ⟨rfl, rfl, hne⟩ := names_compareDeclarationPair_iff.mp ⟨o, ho, hnames⟩
      exact ⟨symbol, hsymbol, ‹_›, ‹_›, hne⟩
    · cases ho
  · rintro ⟨symbol, hsymbol, hb, ha, hne⟩
    have hpair : ∃ o ∈ (compareDeclarationPair side b a).observations, o.Names b a :=
      names_compareDeclarationPair_iff.mpr ⟨rfl, rfl, hne⟩
    obtain ⟨o, ho, hnames⟩ := hpair
    refine ⟨o, Comparison.mem_observations_flatten.mpr ⟨_, mem_map_of_mem hsymbol, ?_⟩, hnames⟩
    simp only [hb, ha]
    exact ho

/-- Lanes in which no symbol is repeated are compared, and the declarations of a symbol are named
together if they have differences. -/
theorem exists_compareExactLanes {beforeLane afterLane : LaneDeclarations}
    (hbefore : (beforeLane.exact.map (·.symbolIdentity)).Nodup)
    (hafter : (afterLane.exact.map (·.symbolIdentity)).Nodup) :
    ∃ comparison, compareExactLanes side beforeLane afterLane = .ok comparison ∧
      ∀ b ∈ beforeLane.exact, ∀ a ∈ afterLane.exact, b.symbolIdentity = a.symbolIdentity →
        ((∃ o ∈ comparison.observations, o.Names b a) ↔ differences b a ≠ []) := by
  obtain ⟨before, hbeforeMap, hlistsBefore⟩ := exists_uniqueBySymbol hbefore
  obtain ⟨after, hafterMap, hlistsAfter⟩ := exists_uniqueBySymbol hafter
  refine ⟨_, by rw [compareExactLanes, hbeforeMap, ok_bind, hafterMap, ok_bind]; rfl, ?_⟩
  intro b hb a ha hsymbol
  have hb' := (hlistsBefore _ _).mpr ⟨hb, rfl⟩
  have ha' := (hlistsAfter _ _).mpr ⟨ha, hsymbol.symm⟩
  have hcommon : b.symbolIdentity ∈ before.keys.filter (after.contains ·) := by
    rw [mem_filter, ExtTreeMap.mem_keys, ExtTreeMap.mem_iff_isSome_getElem?, hb',
      contains_eq_isSome_getElem?, ha']
    exact ⟨rfl, rfl⟩
  constructor
  · rintro ⟨o, ho, hnames⟩
    rcases mem_append.mp ho with ho | ho
    · obtain ⟨-, -, -, -, hne⟩ := names_compareMatched_iff.mp ⟨o, ho, hnames⟩
      exact hne
    · -- A declaration of a common symbol does not remain.
      obtain ⟨⟨symbol, d⟩, hmem, rfl⟩ := mem_map.mp (mem_of_mem_compareRest ho hnames.1)
      rw [mem_toList_iff_getElem?_eq_some, ExtTreeMap.getElem?_filter',
        Option.filter_eq_some_iff] at hmem
      obtain ⟨hget, hrest⟩ := hmem
      obtain rfl : d.symbolIdentity = symbol := ((hlistsBefore _ _).mp hget).2
      rw [contains_iff_mem.mpr hcommon] at hrest
      cases hrest
  · intro hne
    obtain ⟨o, ho, hnames⟩ := names_compareMatched_iff.mpr ⟨_, hcommon, hb', ha', hne⟩
    exact ⟨o, mem_append_left _ ho, hnames⟩

theorem isExact_of_mem_compareUnsupported {before after : Impact}
    (ho : o ∈ (compareUnsupported side before after (laneDeclarations before)
      (laneDeclarations after)).observations) (hb : b ∈ o.before) : isExact b = false := by
  rw [compareUnsupported] at ho
  split at ho
  · cases ho
  · rw [mem_singleton] at ho
    rw [ho, mem_before_observation] at hb
    exact isExact_of_mem_unsupported hb

theorem exists_compareLane {before after : Impact}
    (hbefore : ((laneDeclarations before).exact.map (·.symbolIdentity)).Nodup)
    (hafter : ((laneDeclarations after).exact.map (·.symbolIdentity)).Nodup) :
    ∃ comparison, compareLane side before after = .ok comparison ∧
      ∀ b ∈ (laneDeclarations before).exact, ∀ a ∈ (laneDeclarations after).exact,
        b.symbolIdentity = a.symbolIdentity →
        ((∃ o ∈ comparison.observations, o.Names b a) ↔ differences b a ≠ []) := by
  obtain ⟨comparison, hcomparison, hnames⟩ := exists_compareExactLanes hbefore hafter
  refine ⟨_, by rw [compareLane, hcomparison]; rfl, fun b hb a ha hsymbol ↦ ?_⟩
  rw [← hnames b hb a ha hsymbol]
  constructor
  · rintro ⟨o, ho, hobserved⟩
    rcases mem_append.mp ho with ho | ho
    · have hexact := (mem_exact_iff.mp hb).2
      rw [isExact_of_mem_compareUnsupported ho hobserved.1] at hexact
      cases hexact
    · exact ⟨o, ho, hobserved⟩
  · rintro ⟨o, ho, hobserved⟩
    exact ⟨o, mem_append_right _ ho, hobserved⟩

/-- The exact declarations of an impact have symbols of their own, and descriptors that have passed
the check. -/
structure Impact.Settled (checks : ForeignChecks) (impact : Impact) : Prop where
  exact : ∀ d ∈ (laneDeclarations impact).exact, Exact checks d
  distinct : ((laneDeclarations impact).exact.map (·.symbolIdentity)).Nodup

/-- Two lanes of exact declarations are compared, and the declarations of a symbol that both have
are named together unless their shapes are alike. -/
theorem compareLane_names_iff {checks : ForeignChecks} {before after : Impact}
    (hbefore : before.Settled checks) (hafter : after.Settled checks) :
    ∃ comparison, compareLane side before after = .ok comparison ∧
      ∀ b ∈ (laneDeclarations before).exact, ∀ a ∈ (laneDeclarations after).exact,
        b.symbolIdentity = a.symbolIdentity →
        ((∃ o ∈ comparison.observations, b ∈ o.before ∧ a ∈ o.after) ↔
          ¬Alike b.projectedShape a.projectedShape) := by
  obtain ⟨comparison, hcomparison, hnames⟩ := exists_compareLane hbefore.distinct hafter.distinct
  refine ⟨comparison, hcomparison, fun b hb a ha hsymbol ↦ ?_⟩
  have hb' := (hbefore.exact b hb).described
  have ha' := (hafter.exact a ha).described
  rw [← differences_eq_nil_iff hb' ha' hsymbol]
  exact hnames b hb a ha hsymbol

end Names

/-! ## A silent change -/

section Examples

attribute [local instance] Sha256.standard

def acceptAll : ForeignChecks where
  annotationFacts _ _ := .ok ()
  springMetadata _ := .ok ()
  constructorStorage _ := .ok ()
  stringConstant _ := .ok ()
  propertyStorage _ := .ok ()

/-- The descriptor of a function with one parameter, which may have a default. -/
def exampleMembers (visibility : String) (hasDefault : Bool) (returnType : String) :
    List (String × Json) :=
  [("compilerAuthority", .str "fir-facts-extractor/0.6"), ("compilerCallableId", .str "p/f"),
    ("containment", .arr []), ("declarationKind", .str "FUNCTION"),
    ("effectiveVisibility", .str "public"), ("end", .num 10), ("exportBoundary", .str "PUBLIC_API"),
    ("file", .str "F.kt"), ("isOverride", .bool false), ("modality", .str "FINAL"),
    ("module", .str "m"), ("ownerIdentity", .str "package:p"),
    ("parameterTypes", .arr [.obj [("hasDefault", .bool hasDefault), ("index", .num 0),
      ("nullable", .bool false), ("type", .str "kotlin/Int")]]),
    ("provider", .str "K2_FIR"), ("resolution", .str "PROVEN"), ("returnNullable", .bool false),
    ("returnType", .str returnType), ("schema", .str "declaration-descriptor/0.1"),
    ("sourceProvenance", .str "COMPILER_UTF16_RANGE_TO_UTF8_BYTES"), ("sourceSet", .str "main"),
    ("start", .num 0), ("symbolIdentity", .str "callable:p/f#jvm:(I)V"),
    ("typeParameters", .arr []), ("visibility", .str visibility)]

def exampleGraph : Graph := ⟨"COMPLETE_SUPPORTED_SUBSET", fun _ ↦ some ("m", "main")⟩

def exampleEvidence (visibility : String) (hasDefault : Bool)
    (returnType : String := "kotlin/Unit") : ChangeDeclarationEvidence where
  findingId := "finding"
  factId := "fact"
  memberAlias := "member"
  authority := .exactProjectedDeclaration
  declarationKind := .function
  symbolIdentity := "callable:p/f#jvm:(I)V"
  compilerCallableId := some "p/f"
  compilerClassId := none
  shapeDigest := some "digest"
  projectedShape := projectedPayload (.obj (exampleMembers visibility hasDefault returnType))

def exampleImpact (visibility : String) (hasDefault : Bool)
    (returnType : String := "kotlin/Unit") : Impact :=
  ⟨[.declaration (exampleEvidence visibility hasDefault returnType)], false, true⟩

variable (visibility : String) (hasDefault : Bool) (returnType : String)

theorem exact_exampleImpact :
    (laneDeclarations (exampleImpact visibility hasDefault returnType)).exact =
      [exampleEvidence visibility hasDefault returnType] := mergeSort_singleton _

variable {visibility hasDefault returnType}

theorem exact_exampleEvidence (h : validateDescriptor acceptAll exampleGraph
      (.obj (exampleMembers visibility hasDefault returnType)) = .ok ()) :
    Exact acceptAll (exampleEvidence visibility hasDefault returnType) := by
  have hnodup : ((exampleMembers visibility hasDefault returnType).map Prod.fst).Nodup := by
    simp [exampleMembers]
  exact ⟨exampleGraph, _, hnodup, h, rfl, ⟨rfl, rfl, rfl, rfl, rfl⟩⟩

theorem settled_exampleImpact (h : validateDescriptor acceptAll exampleGraph
      (.obj (exampleMembers visibility hasDefault returnType)) = .ok ()) :
    (exampleImpact visibility hasDefault returnType).Settled acceptAll := by
  constructor
  · rw [exact_exampleImpact]
    simpa using exact_exampleEvidence h
  · rw [exact_exampleImpact]
    simp

theorem compareLane_names_iff_visibility :
    ∃ comparison, compareLane .provider (exampleImpact "public" false)
        (exampleImpact "protected" false) = .ok comparison ∧
      ∃ o ∈ comparison.observations, exampleEvidence "public" false ∈ o.before ∧
        exampleEvidence "protected" false ∈ o.after := by
  have hpublic : (exampleImpact "public" false).Settled acceptAll :=
    settled_exampleImpact (by decide)
  have hprotected : (exampleImpact "protected" false).Settled acceptAll :=
    settled_exampleImpact (by decide)
  obtain ⟨comparison, hcomparison, hnames⟩ := compareLane_names_iff hpublic hprotected
  refine ⟨comparison, hcomparison, (hnames (exampleEvidence "public" false) ?_
    (exampleEvidence "protected" false) ?_ rfl).mpr fun halike ↦ ?_⟩
  · simp [exact_exampleImpact]
  · simp [exact_exampleImpact]
  · exact absurd (halike.others "visibility" (by decide)) (by decide)

/-- A parameter that gets a default changes the shape of its function, and so does a function type
whose result is no longer nullable: the last question mark is not the type's own. No observation
says so. -/
theorem compareLane_default :
    (exampleImpact "public" false).Settled acceptAll ∧
    (exampleImpact "public" true).Settled acceptAll ∧
    (exampleEvidence "public" false).projectedShape ≠
      (exampleEvidence "public" true).projectedShape ∧
    (∃ comparison, compareLane .provider (exampleImpact "public" false)
        (exampleImpact "public" true) = .ok comparison ∧
      ∀ o ∈ comparison.observations, ¬(exampleEvidence "public" false ∈ o.before ∧
        exampleEvidence "public" true ∈ o.after)) ∧
    (exampleImpact "public" false "(T?) -> T?").Settled acceptAll ∧
    (exampleImpact "public" false "(T?) -> T").Settled acceptAll ∧
    (exampleEvidence "public" false "(T?) -> T?").projectedShape ≠
      (exampleEvidence "public" false "(T?) -> T").projectedShape ∧
    ∃ comparison, compareLane .provider (exampleImpact "public" false "(T?) -> T?")
        (exampleImpact "public" false "(T?) -> T") = .ok comparison ∧
      ∀ o ∈ comparison.observations, ¬(exampleEvidence "public" false "(T?) -> T?" ∈ o.before ∧
        exampleEvidence "public" false "(T?) -> T" ∈ o.after) := by
  refine ⟨settled_exampleImpact (by decide), settled_exampleImpact (by decide), by decide, ?_,
    settled_exampleImpact (by decide), settled_exampleImpact (by decide), by decide, ?_⟩
  · decide +kernel
  · decide +kernel

end Examples

end Codeclew.Kotlin
