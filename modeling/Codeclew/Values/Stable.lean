import Codeclew.Values.Exact

/-!
# Larger budgets

With a larger node budget the same nodes are selected, and perhaps more. An operand that was left
out counts as unknown; when it is selected, its values are found, and there can only be fewer. So
what a run reports definitely, a larger run that converges reports too, but for one case: a
definition that is non-null because of an operand that was left out may turn out to have no value at
all, and then it, and what takes its value from it, is unknown. A definition that is null has a
value.
-/

namespace Codeclew.Values

open Std List

/-! ## Selections -/

section Selections

variable {m : ValueModel} {maxNodes maxNodes' : ℕ} {pending selected : Names}
  {frontier frontier' : Frontier}

variable {x : String}

theorem subset_select (h : x ∈ selected) :
    x ∈ (select m maxNodes pending selected frontier).selected := by
  fun_induction select m maxNodes pending selected frontier with
  | case1 => exact h
  | case2 _ _ _ _ _ _ _ ih => exact ih h
  | case3 _ _ _ _ _ _ _ _ ih => exact ih h
  | case4 _ _ _ _ _ _ _ _ _ ih => exact ih h
  | case5 _ _ _ _ _ _ _ _ _ _ ih => exact ih (ExtTreeSet.mem_insert.mpr (.inr h))

/-- When the budget is used up nothing more is selected. -/
theorem select_full (h : selected.size = maxNodes) :
    (select m maxNodes pending selected frontier).selected = selected := by
  fun_induction select m maxNodes pending selected frontier with
  | case1 => rfl
  | case2 _ _ _ _ _ _ _ ih => exact ih h
  | case3 _ _ _ _ _ _ _ _ ih => exact ih h
  | case4 _ _ _ _ _ _ _ _ _ ih => exact ih h
  | case5 _ _ _ _ _ _ _ hsize _ _ _ => exact absurd h hsize

/-- One step of the selection. -/
theorem select_cons {id : String} {rest : List String} (hp : pending.toList = id :: rest) :
    select m maxNodes pending selected frontier =
      if selected.contains id then select m maxNodes (pending.erase id) selected frontier
      else if selected.size = maxNodes then
        select m maxNodes (pending.erase id) selected
          (frontier.insert ⟨.budget, id, "RELEVANCE_NODE_BUDGET"⟩)
      else
        match m.node? id with
        | none => select m maxNodes (pending.erase id) selected frontier
        | some n =>
          select m maxNodes ((pending.erase id).insertMany n.dependencies) (selected.insert id)
            frontier := by
  rw [select]
  split
  next hnil =>
    rw [hp] at hnil
    cases hnil
  next id' rest' hp' =>
    rw [hp] at hp'
    obtain ⟨rfl, rfl⟩ := List.cons.inj hp'
    split_ifs
    · rfl
    · rfl
    · split
      next hn => rw [hn]
      next n hn => rw [hn]

theorem select_mono (hle : maxNodes ≤ maxNodes') (hsize : selected.size ≤ maxNodes)
    (hx : x ∈ (select m maxNodes pending selected frontier).selected) :
    x ∈ (select m maxNodes' pending selected frontier').selected := by
  fun_induction select m maxNodes pending selected frontier generalizing frontier' with
  | case1 => exact subset_select hx
  | case2 pending selected frontier id rest hp hs ih =>
    rw [select_cons hp, if_pos hs]
    exact ih hsize hx
  | case3 pending selected frontier id rest hp hs hfull ih =>
    rw [select_full hfull] at hx
    exact subset_select hx
  | case4 pending selected frontier id rest hp hs hfull hn ih =>
    rw [select_cons hp, if_neg hs, hn]
    split_ifs
    · exact ih hsize hx
    · exact ih hsize hx
  | case5 pending selected frontier id rest hp hs hfull n hn ih =>
    have hlt : selected.size < maxNodes := Nat.lt_of_le_of_ne hsize hfull
    rw [select_cons hp, if_neg hs, if_neg (hlt.trans_le hle).ne, hn]
    refine ih ?_ hx
    rw [ExtTreeSet.size_insert, if_neg hs]
    exact hlt

theorem selection_mono {query larger : ValueQuery} (htarget : larger.target = query.target)
    (hnodes : query.maxNodes ≤ larger.maxNodes) (hx : x ∈ (selection m query).selected) :
    x ∈ (selection m larger).selected := by
  rw [selection] at hx ⊢
  rw [htarget]
  split_ifs at hx ⊢ with hnode
  · exact select_mono hnodes (by simp) hx
  · exact hx

end Selections

/-! ## States -/

section States

variable {m : ValueModel} {query : ValueQuery}

/-- In the end no node is without a value. -/
theorem nonempty_answer (m : ValueModel) (query : ValueQuery) (id : String) :
    ((answer m query).state.assignment id).Nonempty := by
  have hraised : Raised m (selection m query).selected
      fun state ↦ ∀ id, (state.assignment id).Nonempty := by
    intro state y _ h x
    rw [State.assignment_raise]
    split
    · exact (h x).mono Set.subset_union_left
    · exact h x
  have hseed : ∀ state : State, AllWithin state →
      ∀ id, ((seedBottoms state).assignment id).Nonempty := by
    intro state hwithin x
    rw [assignment_seedBottoms]
    split
    · exact ⟨.null, trivial⟩
    · rename_i hbits
      exact (hwithin x).nonempty hbits
  rcases raised_allWithin.solve hraised query _ allWithin_bottomState
    (fun state _ _ hwithin ↦ hseed state hwithin) with h | ⟨-, -, htop⟩
  · exact h id
  · rw [answer, State.assignment, htop, valuesOf_topBits]
    exact ⟨.null, trivial⟩

theorem solution_answer (hm : m.Checked) : Solution m.nodes (answer m query).state.assignment :=
  (solving_solve m query _ _).solution hm

theorem values_cases {s : Set Value} (h : s.Nonempty) :
    s = {.null} ∨ s = {.nonNull} ∨ s = Set.univ := by
  by_cases hnull : .null ∈ s
  · by_cases hnonNull : .nonNull ∈ s
    · refine .inr (.inr (Set.eq_univ_of_forall fun v ↦ ?_))
      cases v with
      | null => exact hnull
      | nonNull => exact hnonNull
    · refine .inl (h.subset_singleton_iff.mp fun v hv ↦ ?_)
      cases v with
      | null => rfl
      | nonNull => exact absurd hv hnonNull
  · refine .inr (.inl (h.subset_singleton_iff.mp fun v hv ↦ ?_))
    cases v with
    | null => exact absurd hv hnull
    | nonNull => rfl

/-- A definition takes its value from another. -/
def ValueModel.TakesFrom (m : ValueModel) (a b : String) : Prop := b ∈ (m.operationOf a).operands

/-- The set of values of a definition that is null alone is only that of such definitions. -/
theorem ValueOperation.operands_null {op : ValueOperation} {s : Assignment}
    (hne : ∀ id, (s id).Nonempty) (hop : op.values s ⊆ {.null}) :
    ∀ id ∈ op.operands, s id = {.null} := by
  have hsubset : ∀ id, s id ⊆ {.null} → s id = {.null} := fun id h ↦
    (hne id).subset_singleton_iff.mp h
  cases op with
  | copy value =>
    intro id hid
    obtain rfl := mem_singleton.mp hid
    exact hsubset id hop
  | join values =>
    intro id hid
    exact hsubset id fun v hv ↦ hop ⟨id, hid, hv⟩
  | coalesce left right =>
    have hleft : s left = {.null} := by
      refine hsubset left fun v hv ↦ ?_
      cases v with
      | null => rfl
      | nonNull => exact hop (.inl ⟨rfl, hv⟩)
    intro id hid
    rcases mem_pair.mp hid with rfl | rfl
    · exact hleft
    · exact hsubset id fun v hv ↦ hop (.inr ⟨hleft ▸ rfl, hv⟩)
  | _ => exact nofun

/-- A definition that is null alone takes its value from such definitions. -/
theorem answer_eq_null_of_takesFrom (hm : m.Checked) {a b : String}
    (ha : (answer m query).state.assignment a = {.null})
    (hab : Relation.ReflTransGen m.TakesFrom a b) :
    (answer m query).state.assignment b = {.null} := by
  induction hab with
  | refl => exact ha
  | @tail b c _ hbc ih =>
    have hnode : (m.node? b).isSome := by
      by_contra hnone
      rw [ValueModel.TakesFrom, ValueModel.operationOf,
        Option.not_isSome_iff_eq_none.mp hnone] at hbc
      cases hbc
    have hsub : (m.operationOf b).values (answer m query).state.assignment ⊆ {.null} :=
      ih ▸ (solution_answer hm).values_operationOf_subset hnode
    exact ValueOperation.operands_null (nonempty_answer m query) hsub c hbc

section Larger

variable {larger : ValueQuery} (hm : m.Checked) (htarget : larger.target = query.target)
  (hnodes : query.maxNodes ≤ larger.maxNodes) (hconverged : (answer m larger).converged = true)

include hm htarget hnodes hconverged

/-- A larger run that converges finds no more values for a definition, unless it finds none for one
that it takes its value from. -/
theorem answer_subset {a : String}
    (hvalue : ∀ b, Relation.ReflTransGen m.TakesFrom a b →
      (answer m query).state.assignment b = {.nonNull} →
      noValue b ∉ (answer m larger).frontier) :
    (answer m larger).state.assignment a ⊆ (answer m query).state.assignment a := by
  -- The invariant of both phases, about all definitions that `a` takes its value from.
  have hraised : Raised m (selection m larger).selected fun state ↦
      ∀ b, Relation.ReflTransGen m.TakesFrom a b →
        state.assignment b ⊆ (answer m query).state.assignment b := by
    intro state id hid h b hb
    rw [State.assignment_raise]
    split
    · rename_i heq
      subst heq
      refine Set.union_subset (h id hb) ?_
      exact (ValueOperation.values_mono fun c hc ↦ h c (hb.tail hc)).trans
        ((solution_answer hm).values_operationOf_subset (node?_isSome_of_mem_selection id hid))
    · exact h b hb
  have hstart : ∀ b, Relation.ReflTransGen m.TakesFrom a b →
      (bottomState (selection m larger).selected).assignment b ⊆
        (answer m query).state.assignment b := by
    intro b _
    rw [State.assignment, bits_bottomState]
    split
    · rw [valuesOf_zero]
      exact Set.empty_subset _
    · rename_i hout
      have hnot : b ∉ (answer m query).state := fun hmem ↦
        hout (selection_mono htarget hnodes (mem_selection_iff_mem_answer.mpr hmem))
      rw [State.assignment, State.bits_of_notMem hnot]
  have hseed : ∀ state, Solving m (selection m larger).selected ∅ state →
      (∀ id ∈ bottoms state, noValue id ∈ (answer m larger).frontier) →
      ∀ b, Relation.ReflTransGen m.TakesFrom a b → state.bits b = 0 →
        (answer m query).state.assignment b = Set.univ := by
    intro state hsolving hbottoms b hb hzero
    rcases values_cases (nonempty_answer m query b) with hnull | hnonNull | huniv
    · -- A definition that is null has that value in every solution.
      have hall : NullPossible m (answer m query).state :=
        nullPossible_solve node?_isSome_of_mem_selection _ _
      have hpossible : .null ∈ m.possible b := by
        refine hall b ?_ ?_
        · rw [hnull]
          exact Set.mem_singleton _
        · rw [hnull]
          simp
      have hmem := (hsolving.solution hm).possible_subset b hpossible
      rw [State.assignment, hzero, valuesOf_zero] at hmem
      exact hmem.elim
    · exact absurd (hbottoms b (mem_bottoms hzero)) (hvalue b hb hnonNull)
    · exact huniv
  rcases hraised.solve hraised larger _ hstart fun state hsolving hbottoms h b hb ↦ by
      rw [assignment_seedBottoms]
      split
      · rename_i hzero
        rw [hseed state hsolving hbottoms b hb hzero]
      · exact h b hb with h | ⟨hnot, -⟩
  · exact h a .refl
  · rw [answer, hnot] at hconverged
    cases hconverged

end Larger

end States

/-! ## Reports -/

/-- The value of an observation that is definite. -/
def Nullness.value? : Nullness → Option Value
  | .null => some .null
  | .nonNull => some .nonNull
  | .unknown => none

theorem Nullness.value?_injective {a b : Nullness} {x : Value} (ha : a.value? = some x)
    (hb : b.value? = some x) : a = b := by
  cases a <;> cases b <;> cases x <;> simp_all [Nullness.value?]

theorem Within.publicValue_eq_iff {v : UInt8} (h : Within v) {x : Value} :
    (publicValue v).value? = some x ↔ valuesOf v = {x} := by
  rcases h.cases with rfl | rfl | rfl | rfl
  · refine iff_of_false nofun fun heq ↦ ?_
    rw [valuesOf_zero] at heq
    exact (Set.singleton_ne_empty x heq.symm)
  · have hnull : (publicValue nullBit).value? = some .null := rfl
    rw [hnull, Option.some.injEq, valuesOf_nullBit, Set.singleton_eq_singleton_iff]
  · have hnonNull : (publicValue nonNullBit).value? = some .nonNull := rfl
    rw [hnonNull, Option.some.injEq, valuesOf_nonNullBit, Set.singleton_eq_singleton_iff]
  · refine iff_of_false nofun fun heq ↦ ?_
    rw [valuesOf_topBits] at heq
    exact singleton_ne_univ x heq.symm

section Reports

variable [Sha256] {m : ValueModel} {query larger : ValueQuery} {result result' : ValueResult}

theorem analyze_converged (h : analyze m query = .ok result) :
    result.equationsConverged = (answer m query).converged := by
  obtain ⟨_, -, hrest⟩ := bind_eq_ok_iff.mp h
  obtain ⟨-, hresult⟩ := ensure_bind_eq_ok_iff.mp hrest
  obtain rfl := (Except.ok.inj hresult).symm
  rfl

variable {o : ValueObservation}

section

variable (h : analyze m query = .ok result)
include h

theorem mem_observations_iff :
    o ∈ result.observations ↔ ∃ v, (answer m query).state[o.id]? = some v ∧
      o = observation m (o.id, v) := by
  rw [(analyze_eq_ok h).2.1, mem_map]
  constructor
  · rintro ⟨⟨id, v⟩, hmem, rfl⟩
    exact ⟨v, ExtTreeMap.mem_toList_iff_getElem?_eq_some.mp hmem, rfl⟩
  · rintro ⟨v, hget, heq⟩
    exact ⟨(o.id, v), ExtTreeMap.mem_toList_iff_getElem?_eq_some.mpr hget, heq.symm⟩

/-- A selected node is observed. -/
theorem exists_observation {id : String} (hid : id ∈ (answer m query).state) :
    ∃ o ∈ result.observations, o.id = id := by
  obtain ⟨v, hv⟩ := Option.isSome_iff_exists.mp (ExtTreeMap.mem_iff_isSome_getElem?.mp hid)
  exact ⟨observation m (id, v), (mem_observations_iff h).mpr ⟨v, hv, rfl⟩, rfl⟩

theorem observation_ext (h' : analyze m larger = .ok result') {o o' : ValueObservation}
    (ho : o ∈ result.observations) (ho' : o' ∈ result'.observations) (hid : o'.id = o.id)
    (hnullness : o'.normalValueNullness = o.normalValueNullness) : o' = o := by
  obtain ⟨v, -, heq⟩ := (mem_observations_iff h).mp ho
  obtain ⟨v', -, heq'⟩ := (mem_observations_iff h').mp ho'
  rw [heq, heq'] at hnullness ⊢
  rw [hid] at hnullness ⊢
  rw [observation, observation, ValueObservation.mk.injEq]
  exact ⟨rfl, hnullness, rfl⟩

end

variable (h : analyze m query = .ok result) (h' : analyze m larger = .ok result')
  (htarget : larger.target = query.target) (hnodes : query.maxNodes ≤ larger.maxNodes)
  (hconverged : result'.equationsConverged = true)

include h

theorem assignment_of_observation (ho : o ∈ result.observations) {x : Value} :
    o.normalValueNullness.value? = some x ↔ (answer m query).state.assignment o.id = {x} := by
  obtain ⟨-, v, hwithin, hpublic, hassign⟩ := exists_bits_of_observation h ho
  rw [hpublic, hassign, hwithin.publicValue_eq_iff]

include h' htarget hnodes hconverged

/-- What is observed definitely is observed by a larger run too, if that finds values for what the
definition takes its value from. -/
theorem observed_of_larger (ho : o ∈ result.observations)
    (hdefinite : o.normalValueNullness ≠ .unknown)
    (hvalue : ∀ o' ∈ result.observations, o'.normalValueNullness = .nonNull →
      Relation.ReflTransGen m.TakesFrom o.id o'.id → noValue o'.id ∉ result'.frontier) :
    o ∈ result'.observations := by
  obtain ⟨x, hx⟩ : ∃ x, o.normalValueNullness.value? = some x := by
    cases hnullness : o.normalValueNullness with
    | null => exact ⟨_, rfl⟩
    | nonNull => exact ⟨_, rfl⟩
    | unknown => exact absurd hnullness hdefinite
  have hvalue' : ∀ b, Relation.ReflTransGen m.TakesFrom o.id b →
      (answer m query).state.assignment b = {.nonNull} →
      noValue b ∉ (answer m larger).frontier := by
    intro b hb hnonNull
    have hmem : b ∈ (answer m query).state := by
      by_contra hnot
      rw [State.assignment, State.bits_of_notMem hnot, valuesOf_topBits] at hnonNull
      exact singleton_ne_univ _ hnonNull.symm
    obtain ⟨o', ho', rfl⟩ := exists_observation h hmem
    have hdefinite : o'.normalValueNullness = .nonNull :=
      Nullness.value?_injective ((assignment_of_observation h ho').mpr hnonNull) rfl
    have hnot := hvalue o' ho' hdefinite hb
    rwa [(analyze_eq_ok h').2.2, ExtTreeSet.mem_toList] at hnot
  rw [analyze_converged h'] at hconverged
  have hsub := answer_subset (analyze_eq_ok h).1 htarget hnodes hconverged hvalue'
  rw [(assignment_of_observation h ho).mp hx] at hsub
  have heq := (nonempty_answer m larger o.id).subset_singleton_iff.mp hsub
  have hmem : o.id ∈ (answer m larger).state := mem_selection_iff_mem_answer.mp
    (selection_mono htarget hnodes (exists_bits_of_observation h ho).1)
  obtain ⟨o', ho', hid⟩ := exists_observation h' hmem
  have hx' : o'.normalValueNullness.value? = some x :=
    (assignment_of_observation h' ho').mpr (hid.symm ▸ heq)
  obtain rfl := observation_ext h h' ho ho' hid (Nullness.value?_injective hx' hx)
  exact ho'

/-- A definite observation is stable under larger budgets with which the solver converges: always,
if it is null; and if it is non-null, unless one of the definitions it takes its value from, which
was observed to be non-null too, is found to have no value. -/
theorem analyze_stable {o : ValueObservation} (ho : o ∈ result.observations) :
    (o.normalValueNullness = .null → o ∈ result'.observations) ∧
      (o.normalValueNullness = .nonNull →
        (∀ o' ∈ result.observations, o'.normalValueNullness = .nonNull →
          Relation.ReflTransGen m.TakesFrom o.id o'.id → noValue o'.id ∉ result'.frontier) →
        o ∈ result'.observations) := by
  constructor
  · intro hnull
    refine observed_of_larger h h' htarget hnodes hconverged ho (by simp [hnull])
      fun o' ho' hnonNull htakes ↦ ?_
    have hassign : (answer m query).state.assignment o'.id = {.null} :=
      answer_eq_null_of_takesFrom (analyze_eq_ok h).1
        ((assignment_of_observation h ho).mp (by rw [hnull]; rfl)) htakes
    have hvalue := (assignment_of_observation h ho').mpr hassign
    rw [hnonNull] at hvalue
    cases hvalue
  · intro hnonNull hvalue
    exact observed_of_larger h h' htarget hnodes hconverged ho (by simp [hnonNull]) hvalue

end Reports

section Examples

attribute [local instance] Sha256.standard

/-- Whether the solver converged, what it observed of a definition, and the codes of its
frontiers. -/
def reported (m : ValueModel) (query : ValueQuery) (id : String) :
    Option (Bool × List Nullness × List String) :=
  (analyze m query).toOption.map fun result ↦
    (result.equationsConverged,
      (result.observations.filter (·.id = id)).map (·.normalValueNullness),
      result.frontier.map (·.code))

/-- The parameter that a node budget of 2 leaves out changes nothing. -/
theorem analyze_stable_guarded : ∃ result result',
    analyze guardedModel ⟨"a", 2, 100⟩ = .ok result ∧
      analyze guardedModel ⟨"a", 3, 200⟩ = .ok result' ∧
      ∃ o ∈ result.observations, o.id = "a" ∧ o.normalValueNullness = .nonNull ∧
        o ∈ result'.observations := by
  obtain ⟨result, h, o, ho, hid, hnonNull⟩ : ∃ result,
      analyze guardedModel ⟨"a", 2, 100⟩ = .ok result ∧
      ∃ o ∈ result.observations, o.id = "a" ∧ o.normalValueNullness = .nonNull := by
    decide +kernel
  obtain ⟨result', h', hconverged, hcodes⟩ : ∃ result,
      analyze guardedModel ⟨"a", 3, 200⟩ = .ok result ∧ result.equationsConverged = true ∧
      result.frontier.map (·.code) = ["MODEL_BINDING_AND_EXTRACTION_NOT_VERIFIED_BY_SOLVER"] := by
    decide +kernel
  refine ⟨result, result', h, h', o, ho, hid, hnonNull, ?_⟩
  refine (analyze_stable h h' rfl (by decide) hconverged ho).2 hnonNull fun o' _ _ _ hmem ↦ ?_
  have hcode : (noValue o'.id).code ∈ result'.frontier.map (·.code) := mem_map_of_mem hmem
  rw [hcodes] at hcode
  revert hcode
  simp [noValue]

/-- With the definition that a node budget of 2 leaves out, `a` is not known to be non-null any
more: it has no value. -/
theorem analyze_unstable :
    reported spinningModel ⟨"a", 2, 100⟩ "a" = some (true, [.nonNull],
      ["MODEL_BINDING_AND_EXTRACTION_NOT_VERIFIED_BY_SOLVER", "RELEVANCE_NODE_BUDGET"]) ∧
    reported spinningModel ⟨"a", 3, 200⟩ "a" = some (true, [.unknown],
      ["MODEL_BINDING_AND_EXTRACTION_NOT_VERIFIED_BY_SOLVER",
        "NO_MODELED_NORMAL_VALUE_UNKNOWN", "NO_MODELED_NORMAL_VALUE_UNKNOWN"]) := by
  decide +kernel

end Examples

end Codeclew.Values
