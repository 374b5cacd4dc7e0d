import Codeclew.Values.Possible
import Codeclew.Values.Sound

/-!
# Exactness of the solver

If no node is left out, the selected nodes are those the target depends on, and the operands of each
are among them. What is reported about such a selection is read off the possible values. If a node
is left out, what is reported is still true of every possible value; but a definition that is
reported as non-null may have none, since `unknown ?? nonNull` is non-null also where the left side
has no value at all.
-/

namespace Codeclew.Values

open Std List ExtTreeMap

/-! ## Selections -/

/-- The definition `a` takes its value from `b`, or is guarded by it. -/
def ValueModel.DependsOn (m : ValueModel) (a b : String) : Prop :=
  ∃ n ∈ m.nodes, n.id = a ∧ b ∈ n.dependencies

/-- The frontier of a node that the budget left out. -/
def nodeBudget (id : String) : ValueFrontier := ⟨.budget, id, "RELEVANCE_NODE_BUDGET"⟩

section Selections

variable {m : ValueModel} {maxNodes : ℕ} {pending selected : Names} {frontier : Frontier}

/-- What is pending is selected in the end, or the budget left it out. -/
theorem mem_select {x : String} (hnode : (m.node? x).isSome)
    (h : x ∈ selected ∨ x ∈ pending ∨ nodeBudget x ∈ frontier) :
    x ∈ (select m maxNodes pending selected frontier).selected ∨
      nodeBudget x ∈ (select m maxNodes pending selected frontier).frontier := by
  fun_induction select m maxNodes pending selected frontier with
  | case1 pending selected frontier hp =>
    rcases h with h | h | h
    · exact .inl h
    · have hlist := ExtTreeSet.mem_toList.mpr h
      rw [hp] at hlist
      cases hlist
    · exact .inr h
  | case2 pending selected frontier id rest hp hs ih =>
    refine ih ?_
    rcases h with h | h | h
    · exact .inl h
    · by_cases heq : id = x
      · exact .inl (heq ▸ ExtTreeSet.mem_iff_contains.mpr hs)
      · exact .inr (.inl (ExtTreeSet.mem_erase.mpr ⟨by simpa using heq, h⟩))
    · exact .inr (.inr h)
  | case3 pending selected frontier id rest hp hs hsize ih =>
    refine ih ?_
    rcases h with h | h | h
    · exact .inl h
    · by_cases heq : id = x
      · exact .inr (.inr (heq ▸ ExtTreeSet.mem_insert_self))
      · exact .inr (.inl (ExtTreeSet.mem_erase.mpr ⟨by simpa using heq, h⟩))
    · exact .inr (.inr (ExtTreeSet.mem_insert.mpr (.inr h)))
  | case4 pending selected frontier id rest hp hs hsize hn ih =>
    refine ih ?_
    rcases h with h | h | h
    · exact .inl h
    · by_cases heq : id = x
      · rw [heq] at hn
        rw [hn] at hnode
        cases hnode
      · exact .inr (.inl (ExtTreeSet.mem_erase.mpr ⟨by simpa using heq, h⟩))
    · exact .inr (.inr h)
  | case5 pending selected frontier id rest hp hs hsize n hn ih =>
    refine ih ?_
    rcases h with h | h | h
    · exact .inl (ExtTreeSet.mem_insert.mpr (.inr h))
    · by_cases heq : id = x
      · exact .inl (heq ▸ ExtTreeSet.mem_insert_self)
      · refine .inr (.inl (ExtTreeSet.mem_insertMany_list.mpr (.inl ?_)))
        exact ExtTreeSet.mem_erase.mpr ⟨by simpa using heq, h⟩
    · exact .inr (.inr h)

/-- What a node depends on is selected with it, or the budget left it out. -/
theorem dependency_mem_select (hm : m.Checked) {id x : String}
    (hid : id ∈ (select m maxNodes pending selected frontier).selected)
    (hnew : id ∉ selected) (hx : m.DependsOn id x) :
    x ∈ (select m maxNodes pending selected frontier).selected ∨
      nodeBudget x ∈ (select m maxNodes pending selected frontier).frontier := by
  fun_induction select m maxNodes pending selected frontier with
  | case1 => exact absurd hid hnew
  | case2 _ _ _ _ _ _ _ ih => exact ih hid hnew
  | case3 _ _ _ _ _ _ _ _ ih => exact ih hid hnew
  | case4 _ _ _ _ _ _ _ _ _ ih => exact ih hid hnew
  | case5 pending selected frontier id' rest hp hs hsize n hn ih =>
    by_cases heq : id' = id
    · subst heq
      obtain ⟨n', hn', hid', hdep⟩ := hx
      have hnode := (ValueModel.node?_eq_some_iff hm.ordered).mpr ⟨hn', hid'⟩
      obtain rfl := Option.some.inj (hnode.symm.trans hn)
      refine mem_select ?_ (.inr (.inl ?_))
      · exact ValueModel.node?_isSome_iff.mpr (hm.closed n' hn' x hdep)
      · exact ExtTreeSet.mem_insertMany_list.mpr (.inr (contains_iff_mem.mpr hdep))
    · refine ih hid fun hmem ↦ ?_
      rcases ExtTreeSet.mem_insert.mp hmem with hmem | hmem
      · exact heq (Std.compare_eq_iff_eq.mp hmem)
      · exact hnew hmem

/-- Only what the target depends on is selected. -/
theorem dependsOn_of_mem_select {target : String}
    (hpending : ∀ id ∈ pending, Relation.ReflTransGen m.DependsOn target id)
    (hselected : ∀ id ∈ selected, Relation.ReflTransGen m.DependsOn target id) :
    ∀ id ∈ (select m maxNodes pending selected frontier).selected,
      Relation.ReflTransGen m.DependsOn target id := by
  have herase : ∀ {pending : Names} {id' : String},
      (∀ id ∈ pending, Relation.ReflTransGen m.DependsOn target id) →
      ∀ id ∈ pending.erase id', Relation.ReflTransGen m.DependsOn target id :=
    fun h id hid ↦ h id (ExtTreeSet.mem_erase.mp hid).2
  fun_induction select m maxNodes pending selected frontier with
  | case1 => exact hselected
  | case2 _ _ _ _ _ _ _ ih => exact ih (herase hpending) hselected
  | case3 _ _ _ _ _ _ _ _ ih => exact ih (herase hpending) hselected
  | case4 _ _ _ _ _ _ _ _ _ ih => exact ih (herase hpending) hselected
  | case5 pending selected frontier id' rest hp hs hsize n hn ih =>
    have hid' : Relation.ReflTransGen m.DependsOn target id' :=
      hpending id' (ExtTreeSet.mem_toList.mp (by rw [hp]; exact mem_cons_self))
    refine ih (fun id hid ↦ ?_) fun id hid ↦ ?_
    · rcases ExtTreeSet.mem_insertMany_list.mp hid with hid | hid
      · exact herase hpending id hid
      · refine hid'.tail ⟨n, mem_of_find?_eq_some hn, ?_, contains_iff_mem.mp hid⟩
        simpa using List.find?_some hn
    · rcases ExtTreeSet.mem_insert.mp hid with heq | hid
      · rw [← Std.compare_eq_iff_eq.mp heq]
        exact hid'
      · exact hselected id hid

end Selections

section Queries

variable {m : ValueModel} {query : ValueQuery}

/-- If no node is left out, the selected nodes are those the target depends on. -/
theorem mem_selection_iff (hm : m.Checked)
    (hbudget : ∀ id, nodeBudget id ∉ (selection m query).frontier) {id : String} :
    id ∈ (selection m query).selected ↔
      (∃ n ∈ m.nodes, n.id = id) ∧ Relation.ReflTransGen m.DependsOn query.target id := by
  constructor
  · intro hid
    refine ⟨ValueModel.node?_isSome_iff.mp (node?_isSome_of_mem_selection id hid), ?_⟩
    rw [selection] at hid
    split at hid
    · refine dependsOn_of_mem_select (fun x hx ↦ ?_) (fun x hx ↦ ?_) id hid
      · rcases ExtTreeSet.mem_insert.mp hx with heq | hx
        · rw [← Std.compare_eq_iff_eq.mp heq]
        · exact absurd hx ExtTreeSet.not_mem_empty
      · exact absurd hx ExtTreeSet.not_mem_empty
    · exact absurd hid ExtTreeSet.not_mem_empty
  · rintro ⟨hnode, hreach⟩
    rw [selection] at hbudget ⊢
    split at hbudget
    · rename_i htarget
      rw [if_pos htarget]
      clear hnode
      induction hreach with
      | refl =>
        refine (mem_select htarget (.inr (.inl ExtTreeSet.mem_insert_self))).resolve_right ?_
        exact hbudget _
      | tail _ hstep ih =>
        refine (dependency_mem_select hm ih ExtTreeSet.not_mem_empty hstep).resolve_right ?_
        exact hbudget _
    · -- a target without a node depends on nothing, itself apart
      rename_i htarget
      have hnone : ¬∃ n ∈ m.nodes, n.id = query.target := fun h ↦
        htarget (ValueModel.node?_isSome_iff.mpr h)
      rcases Relation.ReflTransGen.cases_head hreach with rfl | ⟨x, ⟨n, hn, hid, -⟩, -⟩
      · exact absurd hnode hnone
      · exact absurd ⟨n, hn, hid⟩ hnone

theorem closed_selection (hm : m.Checked)
    (hbudget : ∀ id, nodeBudget id ∉ (selection m query).frontier) :
    Closed m (selection m query).selected where
  nodes := node?_isSome_of_mem_selection
  operands id hid x hx := by
    obtain ⟨⟨n, hn, hnid⟩, hreach⟩ := (mem_selection_iff hm hbudget).mp hid
    have hop : m.operationOf id = n.operation := by
      rw [ValueModel.operationOf, (ValueModel.node?_eq_some_iff hm.ordered).mpr ⟨hn, hnid⟩]
    have hdep : x ∈ n.dependencies := mem_append_left _ (hop ▸ hx)
    exact (mem_selection_iff hm hbudget).mpr
      ⟨hm.closed n hn x hdep, hreach.tail ⟨n, hn, hnid, hdep⟩⟩

/-! ## Reports -/

/-- The solved equations of a query. -/
def answer (m : ValueModel) (query : ValueQuery) : Solved :=
  solve m query (selection m query).selected
    ((selection m query).frontier.insertMany (unknownFrontier m (selection m query).selected))

theorem analyze_eq_ok [Sha256] {result : ValueResult} (h : analyze m query = .ok result) :
    m.Checked ∧ result.observations = (answer m query).state.toList.map (observation m) ∧
      result.frontier = (answer m query).frontier.toList := by
  obtain ⟨_, hvalid, hrest⟩ := bind_eq_ok_iff.mp h
  obtain ⟨-, hresult⟩ := ensure_bind_eq_ok_iff.mp hrest
  obtain rfl := (Except.ok.inj hresult).symm
  exact ⟨ValueModel.checked_of_validate hvalid, rfl, rfl⟩

theorem mem_frontier_answer {f : ValueFrontier} (h : f ∈ (selection m query).frontier) :
    f ∈ (answer m query).frontier :=
  mem_frontier_solve (ExtTreeSet.mem_insertMany_list.mpr (.inl h))

theorem mem_selection_iff_mem_answer {id : String} :
    id ∈ (selection m query).selected ↔ id ∈ (answer m query).state :=
  ((solving_solve m query _ _).keys id).symm

/-- Some node that the target depends on is left out. -/
def ValueResult.NodeBudgetHit (result : ValueResult) : Prop :=
  ∃ f ∈ result.frontier, f.kind = .budget ∧ f.code = "RELEVANCE_NODE_BUDGET"

section Results

variable [Sha256] {result : ValueResult} (h : analyze m query = .ok result)
include h

theorem nodeBudget_notMem (hbudget : ¬result.NodeBudgetHit) (id : String) :
    nodeBudget id ∉ (selection m query).frontier := by
  intro hmem
  refine hbudget ⟨nodeBudget id, ?_, rfl, rfl⟩
  rw [(analyze_eq_ok h).2.2]
  exact ExtTreeSet.mem_toList.mpr (mem_frontier_answer hmem)

variable {o : ValueObservation}

/-- An observation shows the bits of its node. -/
theorem exists_bits_of_observation (ho : o ∈ result.observations) :
    o.id ∈ (selection m query).selected ∧
      ∃ v, Within v ∧ o.normalValueNullness = publicValue v ∧
        (answer m query).state.assignment o.id = valuesOf v := by
  rw [(analyze_eq_ok h).2.1] at ho
  obtain ⟨⟨id, v⟩, hmem, rfl⟩ := mem_map.mp ho
  have hget := mem_toList_iff_getElem?_eq_some.mp hmem
  have hbits : (answer m query).state.bits id = v := by
    rw [State.bits, hget, Option.getD_some]
  refine ⟨?_, v, ?_, rfl, State.assignment_of_getElem? hget⟩
  · refine mem_selection_iff_mem_answer.mpr (mem_iff_isSome_getElem?.mpr ?_)
    exact Option.isSome_of_eq_some hget
  · rw [← hbits]
    exact allWithin_solve _ _ _ _ id

theorem possible_subset_answer (id : String) :
    m.possible id ⊆ (answer m query).state.assignment id :=
  ((solving_solve m query _ _).solution (analyze_eq_ok h).1).possible_subset id

section

variable (ho : o ∈ result.observations)
include ho

/-- A definition that is observed to be null can be null and nothing else. -/
theorem possible_of_observed_null (hnull : o.normalValueNullness = .null) : m.possible o.id =
    {.null} := by
  obtain ⟨-, v, -, hpublic, hassign⟩ := exists_bits_of_observation h ho
  have hvalues : (answer m query).state.assignment o.id = {.null} :=
    hassign.trans (eq_null_of_publicValue (hpublic.symm.trans hnull))
  refine Set.Subset.antisymm (hvalues ▸ possible_subset_answer h o.id) ?_
  have hpossible : NullPossible m (answer m query).state :=
    nullPossible_solve node?_isSome_of_mem_selection _ _
  refine Set.singleton_subset_iff.mpr (hpossible o.id ?_ ?_)
  · exact hvalues.symm ▸ Set.mem_singleton _
  · rw [hvalues]
    exact fun hmem ↦ nomatch Set.mem_singleton_iff.mp hmem

/-- A definition that is observed to be non-null can be nothing else. -/
theorem possible_subset_of_observed_nonNull (hnonNull : o.normalValueNullness = .nonNull) :
    m.possible o.id ⊆ {.nonNull} := by
  obtain ⟨-, v, -, hpublic, hassign⟩ := exists_bits_of_observation h ho
  rw [← eq_nonNull_of_publicValue (hpublic.symm.trans hnonNull), ← hassign]
  exact possible_subset_answer h o.id

/-- If no node is left out, it can be non-null. -/
theorem possible_of_observed_nonNull (hnonNull : o.normalValueNullness = .nonNull)
    (hbudget : ¬result.NodeBudgetHit) :
    m.possible o.id = {.nonNull} := by
  obtain ⟨hmem, v, -, hpublic, hassign⟩ := exists_bits_of_observation h ho
  have hsub := possible_subset_of_observed_nonNull h ho hnonNull
  have hclosed := closed_selection (analyze_eq_ok h).1 (nodeBudget_notMem h hbudget)
  rcases nonempty_or_univ_solve hclosed _ _ hmem with hne | huniv
  · exact hne.subset_singleton_iff.mp hsub
  · have hvalues : {Value.nonNull} = Set.univ := by
      rw [← eq_nonNull_of_publicValue (hpublic.symm.trans hnonNull), ← hassign]
      exact huniv
    exact absurd hvalues (singleton_ne_univ _)

end

/-- If no node is left out, the nodes that the target depends on are observed. -/
theorem observed_iff (hbudget : ¬result.NodeBudgetHit) (id : String) :
    (∃ o ∈ result.observations, o.id = id) ↔
      (∃ n ∈ m.nodes, n.id = id) ∧ Relation.ReflTransGen m.DependsOn query.target id := by
  rw [← mem_selection_iff (analyze_eq_ok h).1 (nodeBudget_notMem h hbudget)]
  constructor
  · rintro ⟨o, ho, rfl⟩
    exact (exists_bits_of_observation h ho).1
  · intro hid
    obtain ⟨v, hv⟩ := Option.isSome_iff_exists.mp
      (mem_iff_isSome_getElem?.mp (mem_selection_iff_mem_answer.mp hid))
    refine ⟨observation m (id, v), ?_, rfl⟩
    rw [(analyze_eq_ok h).2.1]
    exact mem_map_of_mem (mem_toList_iff_getElem?_eq_some.mpr hv)

/-- Without budgets and nodes without values, an observation says which values are possible. -/
theorem observation_exact (hbudget : ∀ f ∈ result.frontier, f.kind ≠ .budget)
    (hne : ∀ o ∈ result.observations, (m.possible o.id).Nonempty) (ho : o ∈ result.observations) :
    (o.normalValueNullness = .null ↔ m.possible o.id = {.null}) ∧
      (o.normalValueNullness = .nonNull ↔ m.possible o.id = {.nonNull}) ∧
      (o.normalValueNullness = .unknown ↔ m.possible o.id = Set.univ) := by
  have hfrontier : ∀ f ∈ (answer m query).frontier, f.kind ≠ .budget := by
    intro f hf
    refine hbudget f ?_
    rw [(analyze_eq_ok h).2.2]
    exact ExtTreeSet.mem_toList.mpr hf
  have hhit : ¬result.NodeBudgetHit := fun ⟨f, hf, hkind, _⟩ ↦ hbudget f hf hkind
  have hclosed := closed_selection (analyze_eq_ok h).1 (nodeBudget_notMem h hhit)
  have hall : ∀ id ∈ (selection m query).selected, (m.possible id).Nonempty := by
    intro id hid
    obtain ⟨o, ho, rfl⟩ := (observed_iff h hhit id).mpr
      ((mem_selection_iff (analyze_eq_ok h).1 (nodeBudget_notMem h hhit)).mp hid)
    exact hne o ho
  obtain ⟨hmem, v, hwithin, hpublic, hassign⟩ := exists_bits_of_observation h ho
  have hexact : valuesOf v = m.possible o.id :=
    hassign.symm.trans (assignment_solve hclosed (analyze_eq_ok h).1 _ _ hall
      (fun hmem ↦ hfrontier _ hmem rfl) hmem)
  rw [hpublic, ← hexact]
  exact hwithin.publicValue_iff (hexact ▸ hne o ho)

end Results

/-- **The solver is sound and exact.** -/
theorem analyze_possible [Sha256] {result : ValueResult} (h : analyze m query = .ok result) :
    (∀ o ∈ result.observations, o.normalValueNullness = .null → m.possible o.id = {.null}) ∧
      (∀ o ∈ result.observations, o.normalValueNullness = .nonNull →
        m.possible o.id ⊆ {.nonNull} ∧
          (¬result.NodeBudgetHit → m.possible o.id = {.nonNull})) ∧
      ((∀ f ∈ result.frontier, f.kind ≠ .budget) →
        (∀ o ∈ result.observations, (m.possible o.id).Nonempty) →
        ∀ o ∈ result.observations,
          (o.normalValueNullness = .null ↔ m.possible o.id = {.null}) ∧
          (o.normalValueNullness = .nonNull ↔ m.possible o.id = {.nonNull}) ∧
          (o.normalValueNullness = .unknown ↔ m.possible o.id = Set.univ)) ∧
      (¬result.NodeBudgetHit → ∀ id, (∃ o ∈ result.observations, o.id = id) ↔
        (∃ n ∈ m.nodes, n.id = id) ∧ Relation.ReflTransGen m.DependsOn query.target id) :=
  ⟨fun _ ho hnull ↦ possible_of_observed_null h ho hnull,
    fun _ ho hnonNull ↦ ⟨possible_subset_of_observed_nonNull h ho hnonNull,
      possible_of_observed_nonNull h ho hnonNull⟩,
    fun hbudget hne _ ho ↦ observation_exact h hbudget hne ho,
    observed_iff h⟩

end Queries

/-! ## A guarded input, and a definition without a value -/

section Examples

attribute [local instance] Sha256.standard

/-- `a = p ?? n` with a parameter `p` and a value `n` that is not null. -/
def guardedModel : ValueModel :=
  exampleModel
    [exampleNode "a" (.coalesce "p" "n"), exampleNode "n" .nonNull, exampleNode "p" .input]

theorem analyze_possible_guarded : guardedModel.possible "a" ⊆ {.nonNull} := by
  obtain ⟨result, hanalyze, o, ho, hid, hnonNull⟩ : ∃ result,
      analyze guardedModel ⟨"a", 3, 100⟩ = .ok result ∧
      ∃ o ∈ result.observations, o.id = "a" ∧ o.normalValueNullness = .nonNull := by
    decide +kernel
  have hsub := ((analyze_possible hanalyze).2.1 o ho hnonNull).1
  rwa [hid] at hsub

/-- `a = y ?? n` with a definition `y = y` that has no value. -/
def spinningModel : ValueModel :=
  exampleModel [exampleNode "a" (.coalesce "y" "n"), exampleNode "n" .nonNull,
    exampleNode "y" (.copy "y")]

/-- The budget leaves `y` out, and `a` is observed to be non-null although it has no value. -/
theorem analyze_spinning : ∃ result, analyze spinningModel ⟨"a", 2, 100⟩ = .ok result ∧
    ∃ o ∈ result.observations, o.normalValueNullness = .nonNull ∧
      spinningModel.possible o.id ≠ {.nonNull} := by
  obtain ⟨result, hanalyze, o, ho, hid, hnonNull⟩ : ∃ result,
      analyze spinningModel ⟨"a", 2, 100⟩ = .ok result ∧
      ∃ o ∈ result.observations, o.id = "a" ∧ o.normalValueNullness = .nonNull := by
    decide +kernel
  refine ⟨result, hanalyze, o, ho, hnonNull, ?_⟩
  -- an assignment without values for `a` and `y` solves the equations
  have hsolution : Solution spinningModel.nodes fun id ↦ if id = "n" then {.nonNull} else ∅ := by
    intro n hn
    fin_cases hn
    · rintro v (⟨-, hv⟩ | ⟨hv, -⟩)
      · exact hv
      · exact hv.elim
    · exact subset_rfl
    · exact subset_rfl
  have hempty := hsolution.possible_subset "a"
  rw [hid]
  intro heq
  rw [heq] at hempty
  exact hempty rfl

end Examples

end Codeclew.Values
