import Codeclew.Values.Solution

/-!
# Possible values

The possible values of a definition are those that can be derived in finitely many steps from the
equations of its model. They are the least solution, so every solution has them.

For the converse the work list is followed in its two phases. As long as every operand of a selected
node is selected, the first phase only finds possible values, so a node it leaves without a value
has none; the second phase starts with all values at these nodes. Whatever the selection, a null
that a node ends with alone is possible: an operand that counts as unknown brings the other value
along.
-/

namespace Codeclew.Values

open Std List

/-! ## Possible values -/

/-- The values a definition of the model may have. -/
inductive ValueModel.Possible (m : ValueModel) : String → Value → Prop
  | null {n : ValueNode} : n ∈ m.nodes → n.operation = .null → m.Possible n.id .null
  | nonNull {n : ValueNode} : n ∈ m.nodes → n.operation = .nonNull → m.Possible n.id .nonNull
  | input {n : ValueNode} {v : Value} : n ∈ m.nodes → n.operation = .input → m.Possible n.id v
  | unknown {n : ValueNode} {boundary : String} {v : Value} : n ∈ m.nodes →
      n.operation = .unknown boundary → m.Possible n.id v
  | copy {n : ValueNode} {value : String} {v : Value} : n ∈ m.nodes → n.operation = .copy value →
      m.Possible value v → m.Possible n.id v
  | join {n : ValueNode} {values : List String} {value : String} {v : Value} : n ∈ m.nodes →
      n.operation = .join values → value ∈ values → m.Possible value v → m.Possible n.id v
  | left {n : ValueNode} {left right : String} : n ∈ m.nodes →
      n.operation = .coalesce left right → m.Possible left .nonNull → m.Possible n.id .nonNull
  | right {n : ValueNode} {left right : String} {v : Value} : n ∈ m.nodes →
      n.operation = .coalesce left right → m.Possible left .null → m.Possible right v →
      m.Possible n.id v

def ValueModel.possible (m : ValueModel) : Assignment := fun id ↦ {v | m.Possible id v}

/-- The possible values are a solution. -/
theorem solution_possible (m : ValueModel) : Solution m.nodes m.possible := by
  intro n hn v hv
  cases hop : n.operation with
  | input => exact .input hn hop
  | null =>
    rw [hop] at hv
    obtain rfl := Set.mem_singleton_iff.mp hv
    exact .null hn hop
  | nonNull =>
    rw [hop] at hv
    obtain rfl := Set.mem_singleton_iff.mp hv
    exact .nonNull hn hop
  | copy value =>
    rw [hop] at hv
    exact .copy hn hop hv
  | join values =>
    rw [hop] at hv
    obtain ⟨value, hmem, hvalue⟩ := hv
    exact .join hn hop hmem hvalue
  | coalesce left right =>
    rw [hop] at hv
    obtain ⟨rfl, hleft⟩ | ⟨hleft, hright⟩ := hv
    · exact .left hn hop hleft
    · exact .right hn hop hleft hright
  | unknown boundary => exact .unknown hn hop

/-- Every solution has the possible values. -/
theorem Solution.possible_subset {m : ValueModel} {s : Assignment} (h : Solution m.nodes s)
    (id : String) : m.possible id ⊆ s id := by
  intro v hv
  -- along the derivation: each step is one equation of the solution
  induction hv with
  | null hn hop => exact h _ hn (by rw [hop]; rfl)
  | nonNull hn hop => exact h _ hn (by rw [hop]; rfl)
  | input hn hop => exact h _ hn (by rw [hop]; trivial)
  | unknown hn hop => exact h _ hn (by rw [hop]; trivial)
  | copy hn hop _ ih => exact h _ hn (by rw [hop]; exact ih)
  | join hn hop hmem _ ih => exact h _ hn (by rw [hop]; exact ⟨_, hmem, ih⟩)
  | left hn hop _ ih => exact h _ hn (by rw [hop]; exact .inl ⟨rfl, ih⟩)
  | right hn hop _ _ ihl ihr => exact h _ hn (by rw [hop]; exact .inr ⟨ihl, ihr⟩)

/-! ## Operations -/

variable {op : ValueOperation}

theorem ValueOperation.values_mono {s s' : Assignment} (h : ∀ id ∈ op.operands, s id ⊆ s' id) :
    op.values s ⊆ op.values s' := by
  cases op with
  | copy value => exact h value (by simp [operands])
  | join values =>
    rintro v ⟨id, hid, hv⟩
    exact ⟨id, hid, h id hid hv⟩
  | coalesce left right =>
    have hl : s left ⊆ s' left := h left (by simp [operands])
    have hr : s right ⊆ s' right := h right (by simp [operands])
    rintro v (⟨rfl, hv⟩ | ⟨hnull, hv⟩)
    · exact .inl ⟨rfl, hl hv⟩
    · exact .inr ⟨hl hnull, hr hv⟩
  | _ => exact subset_rfl

/-- A null that an operation gives alone comes from operands that have it alone. -/
theorem ValueOperation.null_mem_values {s s' : Assignment}
    (h : ∀ id ∈ op.operands, .null ∈ s id → .nonNull ∉ s id → .null ∈ s' id)
    (hnull : .null ∈ op.values s) (halone : .nonNull ∉ op.values s) : .null ∈ op.values s' := by
  cases op with
  | null => rfl
  | nonNull => cases hnull
  | input => exact absurd trivial halone
  | unknown boundary => exact absurd trivial halone
  | copy value => exact h value (by simp [operands]) hnull halone
  | join values =>
    obtain ⟨id, hid, hv⟩ := hnull
    exact ⟨id, hid, h id hid hv fun hother ↦ halone ⟨id, hid, hother⟩⟩
  | coalesce left right =>
    obtain ⟨heq, -⟩ | ⟨hl, hr⟩ := hnull
    · cases heq
    · refine .inr ⟨h left (by simp [operands]) hl fun hother ↦ halone (.inl ⟨rfl, hother⟩),
        h right (by simp [operands]) hr fun hother ↦ halone (.inr ⟨hl, hother⟩)⟩

/-- What the operation of a node gives from a solution is in the solution. -/
theorem Solution.values_operationOf_subset {m : ValueModel} {s : Assignment}
    (h : Solution m.nodes s) {id : String} (hnode : (m.node? id).isSome) :
    (m.operationOf id).values s ⊆ s id := by
  obtain ⟨n, hn⟩ := Option.isSome_iff_exists.mp hnode
  have hid : n.id = id := by simpa using List.find?_some hn
  have hsub := h n (mem_of_find?_eq_some hn)
  rw [hid] at hsub
  rw [ValueModel.operationOf, hn]
  exact hsub

/-! ## Bits of two values -/

/-- No bit but those of the two values is set. -/
def Within (v : UInt8) : Prop := v ||| topBits = topBits

instance (v : UInt8) : Decidable (Within v) := inferInstanceAs (Decidable (_ = _))

theorem Within.or {v w : UInt8} (hv : Within v) (hw : Within w) : Within (v ||| w) := by
  rw [Within, UInt8.or_assoc, hw, hv]

variable {v : UInt8}

theorem within_foldl {state : State} (h : ∀ id, Within (state.bits id)) (ids : List String)
    (hv : Within v) : Within (ids.foldl (fun v id ↦ v ||| state.bits id) v) := by
  induction ids generalizing v with
  | nil => exact hv
  | cons id ids ih => exact ih (hv.or (h id))

theorem within_transfer {state : State} (h : ∀ id, Within (state.bits id)) (op : ValueOperation) :
    Within (transfer op state) := by
  cases op with
  | null => exact show Within nullBit by decide
  | nonNull => exact show Within nonNullBit by decide
  | input => exact show Within topBits by decide
  | unknown boundary => exact show Within topBits by decide
  | copy value => exact h value
  | join values => exact within_foldl h values (by decide)
  | coalesce left right =>
    have hleft : Within (state.bits left &&& nonNullBit) := by
      generalize state.bits left = v
      revert v
      decide +kernel
    rw [transfer]
    split
    · exact hleft.or (h right)
    · exact hleft.or (by decide)

theorem Within.cases (h : Within v) :
    v = 0 ∨ v = nullBit ∨ v = nonNullBit ∨ v = topBits := by
  revert v
  decide +kernel

theorem Within.nonempty (h : Within v) (hne : v ≠ 0) : (valuesOf v).Nonempty := by
  rcases h.cases with rfl | rfl | rfl | rfl
  · exact absurd rfl hne
  · exact ⟨.null, by simp⟩
  · exact ⟨.nonNull, by simp⟩
  · exact ⟨.null, by simp⟩

theorem singleton_ne_univ (x : Value) : ({x} : Set Value) ≠ Set.univ := by
  intro h
  have hall : ∀ y : Value, y = x := fun y ↦ Set.mem_singleton_iff.mp (h ▸ Set.mem_univ y)
  cases (hall .null).trans (hall .nonNull).symm

/-- Unless there is none, the public value says which values there are. -/
theorem Within.publicValue_iff (h : Within v) (hne : (valuesOf v).Nonempty) :
    (publicValue v = .null ↔ valuesOf v = {.null}) ∧
      (publicValue v = .nonNull ↔ valuesOf v = {.nonNull}) ∧
      (publicValue v = .unknown ↔ valuesOf v = Set.univ) := by
  rcases h.cases with rfl | rfl | rfl | rfl
  · rw [valuesOf_zero] at hne
    exact absurd rfl hne.ne_empty
  · have hpublic : publicValue nullBit = .null := rfl
    simp [hpublic, singleton_ne_univ]
  · have hpublic : publicValue nonNullBit = .nonNull := rfl
    simp [hpublic, singleton_ne_univ]
  · have hpublic : publicValue topBits = .unknown := rfl
    simp [hpublic, (singleton_ne_univ _).symm]

/-! ## Frontiers -/

theorem FrontierKind.rank_injective : Function.Injective FrontierKind.rank := by
  intro a b h
  cases a <;> cases b <;> first | rfl | cases h

instance : LawfulEqCmp ValueFrontier.cmp where
  eq_of_compare {a b} h := by
    obtain ⟨kind, subject, code⟩ := a
    obtain ⟨kind', subject', code'⟩ := b
    simp only [ValueFrontier.cmp, compareLex_eq_eq, compareOn, Std.compare_eq_iff_eq] at h
    obtain ⟨hkind, rfl, rfl⟩ := h
    rw [FrontierKind.rank_injective hkind]

/-! ## The two phases -/

section Phases

variable {m : ValueModel} {selected : Names}

theorem State.assignment_raise (state : State) (op : ValueOperation) (id x : String) :
    State.assignment (state.insert id (state.bits id ||| transfer op state)) x
      = if id = x then state.assignment x ∪ op.values state.assignment else state.assignment x := by
  rw [State.assignment, State.bits_insert]
  split
  · rename_i heq
    rw [valuesOf_or, valuesOf_transfer, heq]
    rfl
  · rfl

/-- A property of states that is kept when a selected node is raised. -/
def Raised (m : ValueModel) (selected : Names) (P : State → Prop) : Prop :=
  ∀ state id, id ∈ selected → P state →
    P (state.insert id (state.bits id ||| transfer (m.operationOf id) state))

variable {P Q : State → Prop}

theorem Raised.and (hP : Raised m selected P) (hQ : Raised m selected Q) :
    Raised m selected fun state ↦ P state ∧ Q state :=
  fun state id hid h ↦ ⟨hP state id hid h.1, hQ state id hid h.2⟩

variable {state : State}

/-- A run of the work list keeps what raising keeps, or it ends with all values everywhere. -/
theorem Raised.drain {P : State → Prop} (hP : Raised m selected P) (remaining : ℕ) {pending : Names}
    (hsub : ∀ id ∈ pending, id ∈ selected) (h : P state) :
    ((drain m selected remaining pending state).exhausted = false ∧
        P (drain m selected remaining pending state).state) ∨
      ((drain m selected remaining pending state).exhausted = true ∧
        ∀ id, (drain m selected remaining pending state).state.bits id = topBits) :=
  drain_induction (I := fun _ _ state ↦ P state)
    (R := fun out ↦ (out.exhausted = false ∧ P out.state) ∨
      (out.exhausted = true ∧ ∀ id, out.state.bits id = topBits))
    (fun _ _ h ↦ .inl ⟨rfl, h⟩) (fun _ state _ _ ↦ .inr ⟨rfl, State.bits_map_topBits state⟩)
    (fun _ _ state id hid _ h _ ↦ hP state id hid h) (fun _ _ _ _ _ _ h _ ↦ h) hsub h

/-- The state the solver starts with. -/
def bottomState (selected : Names) : State :=
  ExtTreeMap.ofList (selected.toList.map fun id ↦ (id, 0)) compare

theorem bits_bottomState (id : String) :
    (bottomState selected).bits id = if id ∈ selected then 0 else topBits := by
  rw [State.bits, bottomState]
  split
  · rename_i hid
    have hdistinct : selected.toList.Pairwise fun a b ↦ ¬compare a b = .eq :=
      ExtTreeSet.distinct_toList
    have hpairs : (selected.toList.map fun id ↦ (id, (0 : UInt8))).Pairwise
        fun a b ↦ ¬compare a.1 b.1 = .eq := pairwise_map.mpr hdistinct
    rw [ExtTreeMap.getElem?_ofList_of_mem (v := 0) (Std.compare_eq_iff_eq.mpr rfl) hpairs
      (mem_map.mpr ⟨id, ExtTreeSet.mem_toList.mpr hid, rfl⟩), Option.getD_some]
  · rename_i hid
    have hkeys : ((selected.toList.map fun id ↦ (id, (0 : UInt8))).map Prod.fst).contains id
        = false := by
      simpa [map_map, Function.comp_def] using hid
    rw [ExtTreeMap.getElem?_ofList_of_contains_eq_false hkeys, Option.getD_none]

/-- The frontier of a node that the first run left without a value. -/
def noValue (id : String) : ValueFrontier := ⟨.semantic, id, "NO_MODELED_NORMAL_VALUE_UNKNOWN"⟩

/-- The solver keeps what raising keeps, with the seeds between its two runs, which it says in
frontiers; or it has not converged, says so in a frontier, and ends with all values everywhere. -/
theorem Raised.solve (hP : Raised m selected P) (hQ : Raised m selected Q) (query : ValueQuery)
    (frontier : Frontier) (hstart : P (bottomState selected))
    (hseed : ∀ state, Solving m selected ∅ state →
      (∀ id ∈ bottoms state, noValue id ∈ (solve m query selected frontier).frontier) → P state →
      Q (seedBottoms state)) :
    Q (solve m query selected frontier).state ∨
      ((solve m query selected frontier).converged = false ∧
        transferBudget query ∈ (solve m query selected frontier).frontier ∧
        ∀ id, (solve m query selected frontier).state.bits id = topBits) := by
  have hsolving := (solving_start m selected).drain query.maxTransfers fun id hid ↦ hid
  have hfirst := hP.drain query.maxTransfers (fun id hid ↦ hid) hstart
  rw [bottomState] at hfirst
  rw [Values.solve] at hseed ⊢
  generalize Values.drain m selected query.maxTransfers selected
    (ExtTreeMap.ofList (selected.toList.map fun id ↦ (id, 0)) compare) = first
    at hsolving hfirst hseed
  dsimp only at hseed ⊢
  rcases hfirst with ⟨hexhausted, hfirst⟩ | ⟨hexhausted, htop⟩
  · rw [hexhausted, if_neg Bool.false_ne_true] at hseed ⊢
    have hnoValue : ∀ id ∈ bottoms first.state, noValue id ∈ frontier.insertMany
        ((bottoms first.state).map noValue) := fun id hid ↦
      ExtTreeSet.mem_insertMany_list.mpr
        (.inr (contains_iff_mem.mpr (mem_map_of_mem hid)))
    have hseeded : Q (seedBottoms first.state) := by
      refine hseed first.state hsolving (fun id hid ↦ ?_) hfirst
      split
      · exact ExtTreeSet.mem_insert.mpr (.inr (hnoValue id hid))
      · exact hnoValue id hid
    rcases hQ.drain first.remaining (fun _ ↦ mem_of_mem_seeds) hseeded
      with ⟨hexhausted, hsecond⟩ | ⟨hexhausted, htop⟩
    · rw [hexhausted, if_neg Bool.false_ne_true]
      exact .inl hsecond
    · rw [hexhausted, if_pos rfl]
      exact .inr ⟨rfl, ExtTreeSet.mem_insert_self, htop⟩
  · rw [hexhausted, if_pos rfl]
    exact .inr ⟨rfl, ExtTreeSet.mem_insert_self, htop⟩

/-- The solver only adds frontiers. -/
theorem mem_frontier_solve {query : ValueQuery} {frontier : Frontier} {f : ValueFrontier}
    (h : f ∈ frontier) : f ∈ (solve m query selected frontier).frontier := by
  have hseeded : ∀ l : List ValueFrontier, f ∈ frontier.insertMany l := fun l ↦
    ExtTreeSet.mem_insertMany_list.mpr (.inl h)
  rw [solve]
  dsimp only
  split
  · exact ExtTreeSet.mem_insert.mpr (.inr h)
  · split
    · exact ExtTreeSet.mem_insert.mpr (.inr (hseeded _))
    · exact hseeded _

/-! ### What raising keeps -/

/-- A null that a node has alone is possible. -/
def NullPossible (m : ValueModel) (state : State) : Prop :=
  ∀ id, .null ∈ state.assignment id → .nonNull ∉ state.assignment id → .null ∈ m.possible id

theorem raised_nullPossible (hnodes : ∀ id ∈ selected, (m.node? id).isSome) :
    Raised m selected (NullPossible m) := by
  intro state id hid h x hnull halone
  rw [State.assignment_raise] at hnull halone
  split at hnull
  · rename_i heq
    subst heq
    rw [if_pos rfl] at halone
    have halone' := not_or.mp halone
    rcases hnull with hnull | hnull
    · exact h id hnull halone'.1
    · exact (solution_possible m).values_operationOf_subset (hnodes id hid)
        (ValueOperation.null_mem_values (fun x _ ↦ h x) hnull halone'.2)
  · rename_i hne
    rw [if_neg hne] at halone
    exact h x hnull halone

theorem nullPossible_bottomState : NullPossible m (bottomState selected) := by
  intro id hnull halone
  rw [State.assignment, bits_bottomState] at hnull halone
  split at hnull
  · rw [valuesOf_zero] at hnull
    cases hnull
  · rename_i hid
    rw [if_neg hid, valuesOf_topBits] at halone
    exact absurd trivial halone

theorem NullPossible.seed (h : NullPossible m state) :
    NullPossible m (seedBottoms state) := by
  intro id hnull halone
  rw [assignment_seedBottoms] at hnull halone
  split at hnull
  · rename_i hbits
    rw [if_pos hbits] at halone
    exact absurd trivial halone
  · rename_i hbits
    rw [if_neg hbits] at halone
    exact h id hnull halone

theorem nullPossible_solve (hnodes : ∀ id ∈ selected, (m.node? id).isSome) (query : ValueQuery)
    (frontier : Frontier) : NullPossible m (solve m query selected frontier).state := by
  have hraised := raised_nullPossible hnodes
  rcases hraised.solve hraised query frontier nullPossible_bottomState fun _ _ _ h ↦ h.seed
    with h | ⟨-, -, htop⟩
  · exact h
  · intro id _ halone
    rw [State.assignment, htop, valuesOf_topBits] at halone
    exact absurd trivial halone

/-- No state has a bit that stands for no value. -/
def AllWithin (state : State) : Prop := ∀ id, Within (state.bits id)

theorem raised_allWithin : Raised m selected AllWithin := by
  intro state id _ h x
  rw [State.bits_insert]
  split
  · exact (h id).or (within_transfer h _)
  · exact h x

theorem allWithin_bottomState : AllWithin (bottomState selected) := by
  intro id
  rw [bits_bottomState]
  split <;> decide

theorem AllWithin.seed (h : AllWithin state) : AllWithin (seedBottoms state) := by
  intro id
  rw [bits_seedBottoms]
  split
  · decide
  · exact h id

theorem allWithin_solve (m : ValueModel) (selected : Names) (query : ValueQuery)
    (frontier : Frontier) : AllWithin (solve m query selected frontier).state := by
  have hraised : Raised m selected AllWithin := raised_allWithin
  rcases hraised.solve hraised query frontier allWithin_bottomState fun _ _ _ h ↦ h.seed
    with h | ⟨-, -, htop⟩
  · exact h
  · intro id
    rw [htop]
    decide

/-- The selected nodes are nodes of the model, and so are selected what they take their values
from. -/
structure Closed (m : ValueModel) (selected : Names) : Prop where
  nodes : ∀ id ∈ selected, (m.node? id).isSome
  operands : ∀ id ∈ selected, ∀ x ∈ (m.operationOf id).operands, x ∈ selected

/-- Every value of a selected node is possible. -/
def AllPossible (m : ValueModel) (selected : Names) (state : State) : Prop :=
  ∀ id ∈ selected, state.assignment id ⊆ m.possible id

theorem raised_allPossible (hclosed : Closed m selected) :
    Raised m selected (AllPossible m selected) := by
  intro state id hid h x hx
  rw [State.assignment_raise]
  split
  · rename_i heq
    subst heq
    have hvalues : (m.operationOf id).values state.assignment
        ⊆ (m.operationOf id).values m.possible :=
      ValueOperation.values_mono fun y hy ↦ h y (hclosed.operands id hid y hy)
    exact Set.union_subset (h id hid)
      (hvalues.trans ((solution_possible m).values_operationOf_subset (hclosed.nodes id hid)))
  · exact h x hx

theorem allPossible_bottomState : AllPossible m selected (bottomState selected) := by
  intro id hid
  rw [State.assignment, bits_bottomState, if_pos hid, valuesOf_zero]
  exact Set.empty_subset _

/-- Without missing operands, a node that has not all values has a possible one. -/
theorem nonempty_or_univ_solve (hclosed : Closed m selected) (query : ValueQuery)
    (frontier : Frontier) {id : String} (hid : id ∈ selected) :
    (m.possible id).Nonempty ∨
      (solve m query selected frontier).state.assignment id = Set.univ := by
  have hP := (raised_allPossible hclosed).and raised_allWithin
  have hQ : Raised m selected fun state ↦ ∀ id ∈ selected,
      (m.possible id).Nonempty ∨ state.assignment id = Set.univ := by
    intro state y _ h x hx
    rcases h x hx with hne | huniv
    · exact .inl hne
    · refine .inr ?_
      rw [State.assignment_raise, huniv, Set.univ_union, ite_self]
  have hseed : ∀ state, Solving m selected ∅ state → AllPossible m selected state ∧
    AllWithin state →
      ∀ id ∈ selected, (m.possible id).Nonempty ∨ (seedBottoms state).assignment id = Set.univ := by
    rintro state - ⟨hpossible, hwithin⟩ x hx
    rw [assignment_seedBottoms]
    split
    · exact .inr rfl
    · rename_i hbits
      exact .inl (((hwithin x).nonempty hbits).mono (hpossible x hx))
  rcases hP.solve hQ query frontier ⟨allPossible_bottomState, allWithin_bottomState⟩
    (fun state hsolving _ ↦ hseed state hsolving) with h | ⟨-, -, htop⟩
  · exact h id hid
  · rw [State.assignment, htop, valuesOf_topBits]
    exact .inr rfl

/-- Without missing operands and nodes without values, a solver that converges has found the
possible values. -/
theorem assignment_solve (hclosed : Closed m selected) (hm : m.Checked) (query : ValueQuery)
    (frontier : Frontier) (hne : ∀ id ∈ selected, (m.possible id).Nonempty)
    (hbudget : transferBudget query ∉ (solve m query selected frontier).frontier) {id : String}
    (hid : id ∈ selected) :
    (solve m query selected frontier).state.assignment id = m.possible id := by
  have hraised := raised_allPossible hclosed
  -- the first phase has found all possible values, so there is nothing to seed
  have hseed : ∀ state, Solving m selected ∅ state → AllPossible m selected state →
      AllPossible m selected (seedBottoms state) := by
    intro state hsolving h x hx
    obtain ⟨v, hv⟩ := hne x hx
    have hvalue := (hsolving.solution hm).possible_subset x hv
    rw [assignment_seedBottoms, if_neg]
    · exact h x hx
    · intro hzero
      rw [State.assignment, hzero, valuesOf_zero] at hvalue
      cases hvalue
  refine Set.Subset.antisymm ?_ (((solving_solve m query selected frontier).solution hm)
    |>.possible_subset id)
  rcases hraised.solve hraised query frontier allPossible_bottomState
    (fun state hsolving _ ↦ hseed state hsolving) with h | ⟨-, hmem, -⟩
  · exact h id hid
  · exact absurd hmem hbudget

end Phases

end Codeclew.Values
