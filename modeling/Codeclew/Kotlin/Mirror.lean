import Codeclew.Kotlin.ChangeSet

/-!
# The mirror image of a comparison

A comparison does not prefer one of its two states. Read from the other side it has the same
observations and obligations, in the same order, with the two states exchanged: what was added has
been removed. A lane that is compared with itself has no differences, so there is nothing to say
about it.

The identifier of an observation is a hash of what it says, so the mirror image of an observation
has an identifier of its own.
-/

namespace Codeclew.Kotlin

open Std List

/-! ## Mirror images -/

def KotlinChangeCode.mirror : KotlinChangeCode → KotlinChangeCode
  | callableAdded => callableRemoved
  | callableRemoved => callableAdded
  | code => code

/-- An obligation with the two states exchanged. -/
def ComparisonObligation.mirror (o : ComparisonObligation) : ComparisonObligation :=
  { o with beforeFindingIds := o.afterFindingIds, afterFindingIds := o.beforeFindingIds }

section Mirror

variable [Sha256]

/-- An observation with the two states exchanged, under the identifier of what it then says. -/
def KotlinChangeObservation.mirror (o : KotlinChangeObservation) : KotlinChangeObservation where
  observationId := (observation o.side o.code.mirror o.after o.before).observationId
  code := o.code.mirror
  side := o.side
  before := o.after
  after := o.before

namespace Comparison

def mirror (c : Comparison) : Comparison :=
  ⟨c.observations.map (·.mirror), c.obligations.map (·.mirror)⟩

@[simp] theorem mirror_append (a b : Comparison) :
    (a.append b).mirror = a.mirror.append b.mirror := by
  simp [mirror, append]

theorem mirror_flatten (parts : List Comparison) :
    (flatten parts).mirror = flatten (parts.map mirror) := by
  induction parts with
  | nil => rfl
  | cons part parts ih => exact (mirror_append part (flatten parts)).trans (by rw [ih]; rfl)

omit [Sha256] in
theorem flatten_eq_empty {parts : List Comparison} (h : ∀ part ∈ parts, part = empty) :
    flatten parts = empty := by
  induction parts with
  | nil => rfl
  | cons part parts ih =>
    obtain ⟨rfl, hparts⟩ := forall_mem_cons.mp h
    exact ih hparts

end Comparison

omit [Sha256] in
theorem sortByFinding_sortByFinding (ds : List ChangeDeclarationEvidence) :
    sortByFinding (sortByFinding ds) = sortByFinding ds := by
  refine mergeSort_of_pairwise (pairwise_mergeSort ?_ ?_ ds)
  · intro a b c hab hbc
    simp only [decide_eq_true_eq] at hab hbc ⊢
    exact hab.trans hbc
  · intro a b
    simpa using le_total a.findingId b.findingId

variable {side : ImpactSide}

/-- Declarations that have been sorted stay in their order when the states are exchanged. -/
@[simp] theorem mirror_observation (code : KotlinChangeCode)
    (before after : List ChangeDeclarationEvidence) :
    (observation side code before after).mirror = observation side code.mirror after before := by
  simp only [KotlinChangeObservation.mirror, observation, sortByFinding_sortByFinding]

omit [Sha256] in
@[simp] theorem mirror_obligation (code : ComparisonObligationCode)
    (before after : List ChangeDeclarationEvidence) :
    (obligation side code before after).mirror = obligation side code after before := rfl

/-! ## Pairs -/

omit [Sha256] in
theorem residualChanged_comm (before after : ChangeDeclarationEvidence) :
    residualChanged after before = residualChanged before after := by
  simp only [residualChanged, ne_comm]

omit [Sha256] in
theorem differences_comm (before after : ChangeDeclarationEvidence) :
    differences after before = differences before after := by
  simp only [differences, residualChanged_comm before after, ne_comm]

omit [Sha256] in
@[simp] theorem differences_self (d : ChangeDeclarationEvidence) : differences d d = [] :=
  differences_eq_nil_iff_forall.mpr ⟨fun _ _ ↦ rfl, rfl⟩

omit [Sha256] in
/-- Neither an addition nor a removal is a difference between two declarations. -/
theorem mirror_of_mem_differences {before after : ChangeDeclarationEvidence}
    {code : KotlinChangeCode} (h : code ∈ differences before after) : code.mirror = code := by
  have hprojections : ∀ p ∈ projections, p.1.mirror = p.1 := by
    simp [projections, KotlinChangeCode.mirror]
  rcases mem_append.mp h with h | h
  · obtain ⟨p, hp, rfl⟩ := mem_map.mp h
    exact hprojections p (mem_of_mem_filter hp)
  · split at h
    · rw [mem_singleton.mp h, KotlinChangeCode.mirror]
      all_goals rintro ⟨⟩
    · cases h

theorem mirror_compareDeclarationPair (before after : ChangeDeclarationEvidence) :
    (compareDeclarationPair side before after).mirror =
      compareDeclarationPair side after before := by
  simp only [Comparison.mirror, compareDeclarationPair, map_map, differences_comm before after,
    residualChanged_comm before after]
  congr 1
  · refine map_congr_left fun code hcode ↦ ?_
    rw [Function.comp_apply, mirror_observation, mirror_of_mem_differences hcode]
  · split <;> rfl

theorem compareDeclarationPair_self (d : ChangeDeclarationEvidence) :
    compareDeclarationPair side d d = .empty := by
  simp [compareDeclarationPair, Comparison.empty, residualChanged]

/-! ## Repeated symbols -/

variable {ds : List ChangeDeclarationEvidence}

omit [Sha256] in
theorem eq_corrupt_of_foldlM_addBySymbol {bySymbol : BySymbol} {e : ClewError}
    (h : ds.foldlM addBySymbol bySymbol = .error e) :
    e = corrupt "impact repeats a declaration symbol within one comparison lane" := by
  induction ds generalizing bySymbol with
  | nil => cases h
  | cons d ds ih =>
    rw [foldlM_cons, addBySymbol] at h
    split_ifs at h
    · exact (Except.error.inj h).symm
    · exact ih h

omit [Sha256] in
theorem eq_corrupt_of_uniqueBySymbol {e : ClewError} (h : uniqueBySymbol ds = .error e) :
    e = corrupt "impact repeats a declaration symbol within one comparison lane" :=
  eq_corrupt_of_foldlM_addBySymbol h

omit [Sha256] in
theorem nodup_of_foldlM_addBySymbol {bySymbol bySymbol' : BySymbol}
    (h : ds.foldlM addBySymbol bySymbol = .ok bySymbol') :
    (ds.map (·.symbolIdentity)).Nodup ∧ ∀ d ∈ ds, d.symbolIdentity ∉ bySymbol := by
  induction ds generalizing bySymbol with
  | nil => simp
  | cons d ds ih =>
    rw [foldlM_cons, addBySymbol] at h
    split_ifs at h with hcontains
    · cases h
    · obtain ⟨hnodup, hnew⟩ := ih h
      rw [ExtTreeMap.contains_iff_mem] at hcontains
      simp only [ExtTreeMap.mem_insert, not_or, LawfulEqCmp.compare_eq_iff_eq] at hnew
      refine ⟨nodup_cons.mpr ⟨fun hmem ↦ ?_, hnodup⟩, forall_mem_cons.mpr ⟨hcontains,
        fun e he ↦ (hnew e he).2⟩⟩
      obtain ⟨e, he, heq⟩ := mem_map.mp hmem
      exact (hnew e he).1 heq.symm

omit [Sha256] in
theorem uniqueBySymbol_of_not_nodup (h : ¬(ds.map (·.symbolIdentity)).Nodup) :
    uniqueBySymbol ds =
      .error (corrupt "impact repeats a declaration symbol within one comparison lane") := by
  cases hresult : uniqueBySymbol ds with
  | error e => rw [eq_corrupt_of_uniqueBySymbol hresult]
  | ok bySymbol => exact absurd (nodup_of_foldlM_addBySymbol hresult).1 h

/-! ## Lanes -/

theorem mirror_compareMatched (before after : BySymbol) (symbols : List String) :
    (compareMatched side before after symbols).mirror =
      compareMatched side after before symbols := by
  rw [compareMatched, compareMatched, Comparison.mirror_flatten, map_map]
  refine congrArg _ (map_congr_left fun symbol _ ↦ ?_)
  rw [Function.comp_apply]
  cases before[symbol]? with
  | none => cases after[symbol]? <;> rfl
  | some b =>
    cases after[symbol]? with
    | none => rfl
    | some a => exact mirror_compareDeclarationPair b a

theorem compareMatched_self (bySymbol : BySymbol) (symbols : List String) :
    compareMatched side bySymbol bySymbol symbols = .empty := by
  refine Comparison.flatten_eq_empty fun part hpart ↦ ?_
  obtain ⟨symbol, -, rfl⟩ := mem_map.mp hpart
  cases bySymbol[symbol]? with
  | none => rfl
  | some d => exact compareDeclarationPair_self d

/-- An addition on the one side is a removal on the other. -/
theorem mirror_compareUnmatched (hadMatched complete : Bool)
    (before after : List ChangeDeclarationEvidence) :
    (compareUnmatched side hadMatched complete before after).mirror =
      compareUnmatched side hadMatched complete after before := by
  cases before <;> cases after <;> cases hadMatched <;> cases complete <;>
    simp [compareUnmatched, Comparison.mirror, KotlinChangeCode.mirror, Comparison.empty]

theorem mirror_compareRest (hadMatched complete : Bool)
    (before after : List ChangeDeclarationEvidence) :
    (compareRest side hadMatched complete before after).mirror =
      compareRest side hadMatched complete after before := by
  rw [compareRest.eq_def]
  split
  · next b a =>
    have hcomm : (hadMatched = false ∧ b.compilerCallableId.isSome ∧
        b.compilerCallableId = a.compilerCallableId) ↔ hadMatched = false ∧
        a.compilerCallableId.isSome ∧ a.compilerCallableId = b.compilerCallableId := by
      refine and_congr_right fun _ ↦ ?_
      constructor <;> rintro ⟨hsome, heq⟩
      · exact ⟨heq ▸ hsome, heq.symm⟩
      · exact ⟨heq ▸ hsome, heq.symm⟩
    simp only [compareRest, ← hcomm]
    split_ifs
    · exact mirror_compareDeclarationPair b a
    · exact mirror_compareUnmatched hadMatched complete [b] [a]
  · next hne =>
    rw [compareRest.eq_def side hadMatched complete after before]
    split
    · next b a => exact absurd rfl (hne a b rfl)
    · exact mirror_compareUnmatched hadMatched complete before after

omit [Sha256] in
/-- The symbols that both maps have come in the same order from either of them. -/
theorem common_comm (before after : BySymbol) :
    after.keys.filter (before.contains ·) = before.keys.filter (after.contains ·) := by
  have hascending (bySymbol other : BySymbol) :
      KeyedSet.Ascending id (bySymbol.keys.filter (other.contains ·)) := by
    have hordered : bySymbol.keys.Pairwise (· < ·) :=
      ExtTreeMap.ordered_keys.imp LawfulLTCmp.eq_lt_iff_lt.mp
    exact hordered.filter _
  refine (hascending after before).eq_of_mem_iff (hascending before after) fun symbol ↦ ?_
  simp only [mem_filter, ExtTreeMap.mem_keys, ExtTreeMap.contains_iff_mem]
  exact and_comm

/-- Lanes that cannot be compared are refused for the same reason from either side. -/
theorem compareExactLanes_mirror (beforeLane afterLane : LaneDeclarations) :
    compareExactLanes side afterLane beforeLane =
      (compareExactLanes side beforeLane afterLane).map Comparison.mirror := by
  rw [compareExactLanes, compareExactLanes]
  cases hbefore : uniqueBySymbol beforeLane.exact with
  | error e =>
    cases hafter : uniqueBySymbol afterLane.exact with
    | error e' =>
      rw [eq_corrupt_of_uniqueBySymbol hbefore, eq_corrupt_of_uniqueBySymbol hafter]
      rfl
    | ok after => rfl
  | ok before =>
    cases hafter : uniqueBySymbol afterLane.exact with
    | error e' => rfl
    | ok after =>
      simp only [ok_bind, pure, Except.pure, Except.map, Comparison.mirror_append,
        mirror_compareMatched, mirror_compareRest, common_comm before after, Bool.and_comm]

/-- A lane has all its symbols in common with itself. -/
theorem compareExactLanes_self {lane : LaneDeclarations}
    (h : (lane.exact.map (·.symbolIdentity)).Nodup) :
    compareExactLanes side lane lane = .ok .empty := by
  obtain ⟨bySymbol, hbySymbol, -⟩ := exists_uniqueBySymbol h
  have hcommon : bySymbol.keys.filter (bySymbol.contains ·) = bySymbol.keys := by
    rw [filter_eq_self]
    simp
  have hrest : (bySymbol.filter fun symbol _ ↦ !bySymbol.keys.contains symbol) = ∅ := by
    refine ExtTreeMap.ext_getElem? fun symbol ↦ ?_
    rw [ExtTreeMap.getElem?_filter', ExtTreeMap.getElem?_empty, Option.filter_eq_none_iff]
    intro d hd
    have hmem : symbol ∈ bySymbol := ExtTreeMap.mem_iff_isSome_getElem?.mpr (by rw [hd]; rfl)
    simpa using hmem
  rw [compareExactLanes, hbySymbol, ok_bind, ok_bind]
  simp only [hcommon, hrest, compareMatched_self]
  rfl

theorem compareUnsupported_mirror (before after : Impact)
    (beforeLane afterLane : LaneDeclarations) :
    compareUnsupported side after before afterLane beforeLane =
      (compareUnsupported side before after beforeLane afterLane).mirror := by
  have hcomm : (afterLane.unsupportedFindingIds = [] ∧ beforeLane.unsupportedFindingIds = [] ∧
      (before.findingsTruncated || after.findingsTruncated) = false) ↔
      beforeLane.unsupportedFindingIds = [] ∧ afterLane.unsupportedFindingIds = [] ∧
      (before.findingsTruncated || after.findingsTruncated) = false := and_left_comm
  rw [compareUnsupported, compareUnsupported, Bool.or_comm after.findingsTruncated]
  simp only [hcomm]
  split
  · rfl
  · simp [Comparison.mirror, ComparisonObligation.mirror, KotlinChangeCode.mirror]

theorem compareLane_comm (before after : Impact) :
    compareLane side after before = (compareLane side before after).map Comparison.mirror := by
  rw [compareLane, compareLane, compareExactLanes_mirror]
  cases compareExactLanes side (laneDeclarations before) (laneDeclarations after) with
  | error e => rfl
  | ok exact =>
    refine congrArg Except.ok ?_
    rw [Comparison.mirror_append, compareUnsupported_mirror]

theorem compareLane_self {lane : Impact} (hsupported : lane.unsupportedFindingIds = [])
    (htruncated : lane.findingsTruncated = false) :
    compareLane side lane lane =
      if ((laneDeclarations lane).exact.map (·.symbolIdentity)).Nodup then .ok .empty
      else .error (corrupt "impact repeats a declaration symbol within one comparison lane") := by
  have hids : (laneDeclarations lane).unsupportedFindingIds = [] := by
    simp [laneDeclarations, hsupported, KeyedSet.ofList]
  have hunsupported : compareUnsupported side lane lane (laneDeclarations lane)
      (laneDeclarations lane) = .empty := by
    simp [compareUnsupported, hids, htruncated]
  rw [compareLane, hunsupported]
  split_ifs with hnodup
  · rw [compareExactLanes_self hnodup]
    rfl
  · rw [compareExactLanes, uniqueBySymbol_of_not_nodup hnodup]
    rfl

/-- A comparison read from the other side is its mirror image, and a lane without gaps that is
compared with itself has nothing to report, unless it repeats a symbol and is refused. -/
theorem compareLane_symmetric (side : ImpactSide) (before after lane : Impact) :
    compareLane side after before = (compareLane side before after).map Comparison.mirror ∧
    (lane.unsupportedFindingIds = [] → lane.findingsTruncated = false →
      compareLane side lane lane =
        if ((laneDeclarations lane).exact.map (·.symbolIdentity)).Nodup then
          .ok ⟨[], []⟩
        else
          .error (corrupt "impact repeats a declaration symbol within one comparison lane")) :=
  ⟨compareLane_comm before after, compareLane_self⟩

end Mirror

section Examples

attribute [local instance] Sha256.standard

theorem compareLane_symmetric_visibility :
    (∃ comparison, compareLane .provider (exampleImpact "public" false)
        (exampleImpact "protected" false) = .ok comparison ∧ comparison.observations ≠ [] ∧
      compareLane .provider (exampleImpact "protected" false) (exampleImpact "public" false) =
        .ok comparison.mirror) ∧
    compareLane .provider (exampleImpact "public" false) (exampleImpact "public" false) =
      .ok ⟨[], []⟩ := by
  obtain ⟨hmirror, hself⟩ := compareLane_symmetric .provider
    (exampleImpact "public" false) (exampleImpact "protected" false) (exampleImpact "public" false)
  have hreports : ∃ comparison, compareLane .provider (exampleImpact "public" false)
      (exampleImpact "protected" false) = .ok comparison ∧ comparison.observations ≠ [] := by
    decide +kernel
  obtain ⟨comparison, hcomparison, hne⟩ := hreports
  refine ⟨⟨comparison, hcomparison, hne, ?_⟩, (hself rfl rfl).trans (if_pos ?_)⟩
  · rw [hmirror, hcomparison]
    rfl
  · rw [exact_exampleImpact]
    simp

end Examples

end Codeclew.Kotlin
