import Codeclew.Values.Analyze

/-!
# What the solver reports

An assignment of sets of values is a solution of a model when no equation gives a node a value it
does not have. The bits of the solver's state are such sets; the work list keeps every equation
settled that is not pending, so what it ends with is a solution, and so is the assignment of all
values to all nodes, which it ends with when the budget is too small.
-/

namespace Codeclew.Values

open Std List

inductive Value where
  | null
  | nonNull
  deriving DecidableEq, Repr

/-- The values each definition may have. -/
abbrev Assignment := String → Set Value

/-- The values an operation gives. -/
def ValueOperation.values (op : ValueOperation) (s : Assignment) : Set Value :=
  match op with
  | null => {Value.null}
  | nonNull => {Value.nonNull}
  | copy value => s value
  | join values => {v | ∃ id ∈ values, v ∈ s id}
  | coalesce left right =>
    {v | (v = .nonNull ∧ .nonNull ∈ s left) ∨ (.null ∈ s left ∧ v ∈ s right)}
  | input | unknown _ => Set.univ

/-- No equation of the nodes gives a value that the assignment leaves out. -/
def Solution (nodes : List ValueNode) (s : Assignment) : Prop :=
  ∀ n ∈ nodes, n.operation.values s ⊆ s n.id

theorem ValueOperation.values_congr {op : ValueOperation} {s s' : Assignment}
    (h : ∀ id ∈ op.operands, s id = s' id) : op.values s = op.values s' := by
  cases op with
  | copy value => exact h value (by simp [operands])
  | join values =>
    ext v
    refine exists_congr fun id ↦ and_congr_right fun hid ↦ ?_
    rw [h id hid]
  | coalesce left right =>
    have hl : s left = s' left := h left (by simp [operands])
    have hr : s right = s' right := h right (by simp [operands])
    simp only [values, hl, hr]
  | _ => rfl

/-! ## Bits -/

def Value.index : Value → ℕ
  | null => 0
  | nonNull => 1

/-- The values whose bits are set. -/
def valuesOf (v : UInt8) : Set Value := {x | v.toBitVec.getLsbD x.index = true}

variable {v : UInt8}

theorem mem_valuesOf {x : Value} :
    x ∈ valuesOf v ↔ v.toBitVec.getLsbD x.index = true := Iff.rfl

@[simp] theorem valuesOf_or (v w : UInt8) : valuesOf (v ||| w) = valuesOf v ∪ valuesOf w := by
  ext x
  simp [mem_valuesOf]

@[simp] theorem valuesOf_zero : valuesOf 0 = ∅ := by
  ext x
  cases x <;> simp [mem_valuesOf]

@[simp] theorem valuesOf_nullBit : valuesOf nullBit = {.null} := by
  ext x
  cases x <;> simp [mem_valuesOf] <;> decide

@[simp] theorem valuesOf_nonNullBit : valuesOf nonNullBit = {.nonNull} := by
  ext x
  cases x <;> simp [mem_valuesOf] <;> decide

@[simp] theorem valuesOf_topBits : valuesOf topBits = Set.univ := by
  ext x
  cases x <;> simp [mem_valuesOf] <;> decide

@[simp] theorem valuesOf_and (v w : UInt8) : valuesOf (v &&& w) = valuesOf v ∩ valuesOf w := by
  ext x
  simp [mem_valuesOf]

theorem null_mem_valuesOf_iff (v : UInt8) : Value.null ∈ valuesOf v ↔ v &&& nullBit ≠ 0 := by
  rw [mem_valuesOf]
  revert v
  decide +kernel

theorem eq_null_of_publicValue (h : publicValue v = .null) : valuesOf v = {.null} := by
  rw [publicValue] at h
  split at h
  · rename_i hv
    rw [hv, valuesOf_nullBit]
  · split at h <;> cases h

theorem eq_nonNull_of_publicValue (h : publicValue v = .nonNull) :
    valuesOf v = {.nonNull} := by
  rw [publicValue] at h
  split at h
  · cases h
  · split at h
    · rename_i hv
      rw [hv, valuesOf_nonNullBit]
    · cases h

/-- The sets of values a state stands for. -/
def State.assignment (state : State) : Assignment := fun id ↦ valuesOf (state.bits id)

variable {state : State}

theorem mem_valuesOf_foldl {x : Value} (ids : List String) (v : UInt8) :
    x ∈ valuesOf (ids.foldl (fun v id ↦ v ||| state.bits id) v)
      ↔ x ∈ valuesOf v ∨ ∃ id ∈ ids, x ∈ state.assignment id := by
  induction ids generalizing v with
  | nil => simp
  | cons id ids ih =>
    rw [foldl_cons, ih, valuesOf_or, Set.mem_union, or_assoc]
    refine or_congr_right ?_
    simp [State.assignment]

/-- The transfer on bits is the operation on the sets they stand for. -/
theorem valuesOf_transfer (op : ValueOperation) (state : State) :
    valuesOf (transfer op state) = op.values state.assignment := by
  cases op with
  | join ids =>
    ext x
    rw [transfer, mem_valuesOf_foldl, valuesOf_zero]
    simp [ValueOperation.values]
  | coalesce left right =>
    ext x
    rw [transfer, valuesOf_or, valuesOf_and, valuesOf_nonNullBit, Set.mem_union, Set.mem_inter_iff,
      Set.mem_singleton_iff]
    by_cases h : Value.null ∈ valuesOf (state.bits left)
    · rw [if_pos ((null_mem_valuesOf_iff _).mp h)]
      constructor
      · rintro (⟨hl, rfl⟩ | hr)
        · exact .inl ⟨rfl, hl⟩
        · exact .inr ⟨h, hr⟩
      · rintro (⟨rfl, hl⟩ | ⟨-, hr⟩)
        · exact .inl ⟨hl, rfl⟩
        · exact .inr hr
    · rw [if_neg fun hbit ↦ h ((null_mem_valuesOf_iff _).mpr hbit), valuesOf_zero]
      constructor
      · rintro (⟨hl, rfl⟩ | hr)
        · exact .inl ⟨rfl, hl⟩
        · cases hr
      · rintro (⟨rfl, hl⟩ | ⟨hnull, -⟩)
        · exact .inl ⟨hl, rfl⟩
        · exact absurd hnull h
  | null => exact valuesOf_nullBit
  | nonNull => exact valuesOf_nonNullBit
  | copy value => rfl
  | input => exact valuesOf_topBits
  | unknown boundary => exact valuesOf_topBits

/-! ## The work list -/

theorem State.bits_insert (state : State) (id id' : String) (v : UInt8) :
    State.bits (state.insert id v) id' = if id = id' then v else state.bits id' := by
  simp only [State.bits, ExtTreeMap.getElem?_insert, Std.compare_eq_iff_eq]
  split <;> rfl

variable {id : String}

theorem State.bits_of_notMem (h : id ∉ state) :
    state.bits id = topBits := by
  rw [State.bits, ExtTreeMap.getElem?_eq_none h, Option.getD_none]

theorem State.assignment_of_getElem? (h : state[id]? = some v) :
    state.assignment id = valuesOf v := by
  rw [State.assignment, State.bits, h, Option.getD_some]

theorem State.bits_map_topBits (state : State) (id : String) :
    State.bits (state.map fun _ _ ↦ topBits) id = topBits := by
  rw [State.bits, ExtTreeMap.getElem?_map]
  cases state[id]? <;> rfl

theorem bits_seedBottoms (state : State) (id : String) :
    State.bits (seedBottoms state) id = if state.bits id = 0 then topBits else state.bits id := by
  rw [State.bits, State.bits, seedBottoms, ExtTreeMap.getElem?_map]
  cases state[id]? <;> rfl

theorem assignment_seedBottoms (state : State) (id : String) :
    (seedBottoms state).assignment id
      = if state.bits id = 0 then Set.univ else state.assignment id := by
  rw [State.assignment, bits_seedBottoms]
  split
  · exact valuesOf_topBits
  · rfl

theorem mem_bottoms (h : state.bits id = 0) : id ∈ bottoms state := by
  rw [State.bits] at h
  cases hget : state[id]? with
  | none => rw [hget] at h; exact absurd h (by decide)
  | some v =>
    rw [hget, Option.getD_some] at h
    refine mem_map.mpr ⟨(id, v), mem_filter.mpr ⟨?_, by simpa using h⟩, rfl⟩
    exact ExtTreeMap.mem_toList_iff_getElem?_eq_some.mpr hget

section Solving

variable {m : ValueModel} {selected : Names}

/-- The equations of the selected nodes. -/
def equations (m : ValueModel) (selected : Names) (id : String) (s : Assignment) : Set Value :=
  if id ∈ selected then (m.operationOf id).values s else ∅

variable {id : String}

/-- An equation that changes with the value of a definition is that of a user of it. -/
theorem equations_congr {s s' : Assignment} (changed : Set String)
    (hs : ∀ x, x ∉ changed → s x = s' x) (hid : ∀ x ∈ changed, id ∉ users m selected x) :
    equations m selected id s = equations m selected id s' := by
  simp only [equations]
  split
  · rename_i hsel
    refine ValueOperation.values_congr fun x hx ↦ hs x fun hchanged ↦ hid x hchanged ?_
    refine mem_filter.mpr ⟨ExtTreeSet.mem_toList.mpr hsel, ?_⟩
    rw [ValueModel.operationOf] at hx
    cases hn : m.node? id with
    | none => simp [hn, ValueOperation.operands] at hx
    | some n => simpa [hn] using hx
  · rfl

/-- The invariant of the work list: the state is about the selected nodes, and an equation that is
not pending holds. -/
structure Solving (m : ValueModel) (selected pending : Names) (state : State) : Prop where
  keys : ∀ id, id ∈ state ↔ id ∈ selected
  settled : Worklist.Settled (equations m selected) {id | id ∈ pending} state.assignment

variable {pending : Names} {state : State}

section

variable (h : Solving m selected pending state)
include h

/-- All values for all nodes is a solution. -/
theorem Solving.top :
    Solving m selected ∅ (state.map fun _ _ ↦ topBits) := by
  refine ⟨fun id ↦ ?_, fun id _ ↦ ?_⟩
  · rw [ExtTreeMap.mem_map, h.keys]
  · rw [State.assignment, State.bits_map_topBits, valuesOf_topBits]
    exact Set.subset_univ _

/-- A node whose equation gives nothing new is taken off the list. -/
theorem Solving.skip (hid : equations m selected id state.assignment ⊆ state.assignment id) :
    Solving m selected (pending.erase id) state := by
  refine ⟨h.keys, h.settled.of_le le_rfl fun x hx ↦ ?_⟩
  by_cases hx' : id = x
  · exact .inr (hx' ▸ hid)
  · refine .inl ⟨fun hmem ↦ hx ?_, rfl⟩
    exact ExtTreeSet.mem_erase.mpr ⟨by simpa using hx', hmem⟩

/-- A node that is raised puts its users on the list. -/
theorem Solving.raise {v : UInt8} (hid : id ∈ selected)
    (hv : valuesOf v = state.assignment id ∪ equations m selected id state.assignment) :
    Solving m selected ((pending.erase id).insertMany (users m selected id))
      (state.insert id v) := by
  have hassign : ∀ x, State.assignment (state.insert id v) x
      = if id = x then valuesOf v else state.assignment x := by
    intro x
    rw [State.assignment, State.bits_insert]
    split <;> rfl
  refine ⟨fun x ↦ ?_, h.settled.of_le (fun x ↦ ?_) fun x hx ↦ ?_⟩
  · rw [ExtTreeMap.mem_insert, Std.compare_eq_iff_eq, h.keys]
    constructor
    · rintro (rfl | hx)
      · exact hid
      · exact hx
    · exact .inr
  · rw [hassign]
    split
    · rename_i heq
      rw [hv, heq]
      exact Set.subset_union_left
    · exact le_rfl
  · have hoff : ¬(x ∈ pending.erase id ∨ x ∈ users m selected id) := by
      simpa [ExtTreeSet.mem_insertMany_list] using hx
    have hsame : equations m selected x (State.assignment (state.insert id v))
        = equations m selected x state.assignment := by
      refine equations_congr {id} (fun y hy ↦ ?_) fun y hy hx' ↦ hoff (.inr ?_)
      · rw [hassign, if_neg fun heq ↦ hy heq.symm]
      · exact (Set.mem_singleton_iff.mp hy) ▸ hx'
    by_cases heq : id = x
    · right
      rw [hsame, hassign, if_pos heq, hv, ← heq]
      exact Set.subset_union_right
    · refine .inl ⟨fun hmem ↦ hoff (.inl ?_), hsame⟩
      exact ExtTreeSet.mem_erase.mpr ⟨by simpa using heq, hmem⟩

end

theorem mem_of_mem_users {operand : String} (h : id ∈ users m selected operand) : id ∈ selected :=
  ExtTreeSet.mem_toList.mp (mem_filter.mp h).1

/-- The rule for the work list: what every step keeps holds in the end, unless the budget is too
small. -/
theorem drain_induction {I : ℕ → Names → State → Prop} {R : Drained → Prop}
    (hdone : ∀ remaining state, I remaining ∅ state → R ⟨remaining, state, false⟩)
    (hshort : ∀ pending state, pending.size ≠ 0 → I 0 pending state →
      R ⟨0, state.map fun _ _ ↦ topBits, true⟩)
    (hraise : ∀ remaining pending state id, id ∈ selected →
      (pending.erase id).size + 1 = pending.size → I (remaining + 1) pending state →
      state.bits id ||| transfer (m.operationOf id) state ≠ state.bits id →
      I remaining ((pending.erase id).insertMany (users m selected id))
        (state.insert id (state.bits id ||| transfer (m.operationOf id) state)))
    (hskip : ∀ remaining pending state id, id ∈ selected →
      (pending.erase id).size + 1 = pending.size → I (remaining + 1) pending state →
      state.bits id ||| transfer (m.operationOf id) state = state.bits id →
      I remaining (pending.erase id) state)
    {remaining : ℕ} (hsub : ∀ id ∈ pending, id ∈ selected) (h : I remaining pending state) :
    R (drain m selected remaining pending state) := by
  induction remaining generalizing pending state with
  | zero =>
    rw [drain]
    split
    · rename_i hempty
      obtain rfl : pending = ∅ := by simpa using hempty
      exact hdone 0 state h
    · rename_i hempty
      rw [ExtTreeSet.isEmpty_eq_size_beq_zero, beq_iff_eq] at hempty
      exact hshort pending state hempty h
  | succ remaining ih =>
    rw [drain]
    split
    · rename_i hlist
      obtain rfl : pending = ∅ := by simpa using hlist
      exact hdone _ state h
    · rename_i id rest hlist
      have hmem : id ∈ selected :=
        hsub id (ExtTreeSet.mem_toList.mp (by rw [hlist]; exact mem_cons_self))
      have hsize := size_erase_head hlist
      dsimp only
      split
      · rename_i hne
        refine ih (fun x hx ↦ ?_) (hraise remaining pending state id hmem hsize h hne)
        rcases ExtTreeSet.mem_insertMany_list.mp hx with hx | hx
        · exact hsub x (ExtTreeSet.mem_erase.mp hx).2
        · exact mem_of_mem_users (contains_iff_mem.mp hx)
      · rename_i heq
        exact ih (fun x hx ↦ hsub x (ExtTreeSet.mem_erase.mp hx).2)
          (hskip remaining pending state id hmem hsize h (not_not.mp heq))

/-- Whatever the budget, a run of the work list ends with every equation settled. -/
theorem Solving.drain (remaining : ℕ) (hsub : ∀ id ∈ pending, id ∈ selected)
    (h : Solving m selected pending state) :
    Solving m selected ∅ (drain m selected remaining pending state).state := by
  have hnext : ∀ (state : State) id, id ∈ selected →
      valuesOf (state.bits id ||| transfer (m.operationOf id) state)
        = state.assignment id ∪ equations m selected id state.assignment := by
    intro state id hid
    rw [valuesOf_or, valuesOf_transfer, equations, if_pos hid]
    rfl
  refine drain_induction (I := fun _ pending state ↦ Solving m selected pending state)
    (R := fun out ↦ Solving m selected ∅ out.state) (fun _ _ h ↦ h) (fun _ _ _ h ↦ h.top)
    (fun _ _ state id hid _ h _ ↦ h.raise hid (hnext state id hid))
    (fun _ _ state id hid _ h heq ↦ h.skip ?_) hsub h
  have hsame := hnext state id hid
  rw [heq] at hsame
  exact Set.union_eq_left.mp hsame.symm

/-- At the start every selected node is pending. -/
theorem solving_start (m : ValueModel) (selected : Names) :
    Solving m selected selected
      (ExtTreeMap.ofList (selected.toList.map fun id ↦ (id, 0)) compare) := by
  constructor
  · intro id
    rw [ExtTreeMap.mem_ofList, contains_iff_mem]
    simp
  · intro id hid
    rw [equations, if_neg (show id ∉ selected from hid)]
    exact Set.empty_subset _

/-- The nodes without a value get all of them, and their users are pending again. -/
theorem Solving.seed (h : Solving m selected ∅ state) :
    Solving m selected (ExtTreeSet.ofList ((bottoms state).flatMap (users m selected)) compare)
      (seedBottoms state) := by
  refine ⟨fun x ↦ ?_, h.settled.of_le (fun x ↦ ?_) fun x hx ↦ ?_⟩
  · rw [seedBottoms, ExtTreeMap.mem_map, h.keys]
  · rw [assignment_seedBottoms]
    split
    · exact Set.subset_univ _
    · exact le_rfl
  · by_cases hbottom : state.bits x = 0
    · right
      rw [assignment_seedBottoms, if_pos hbottom]
      exact Set.subset_univ _
    · refine .inl ⟨ExtTreeSet.not_mem_empty, ?_⟩
      refine equations_congr {y | state.bits y = 0} (fun y hy ↦ ?_) fun y hy hx' ↦ hx ?_
      · rw [assignment_seedBottoms, if_neg (show state.bits y ≠ 0 from hy)]
      · refine ExtTreeSet.mem_ofList.mpr (contains_iff_mem.mpr ?_)
        exact mem_flatMap.mpr ⟨y, mem_bottoms hy, hx'⟩

/-- The second run starts with selected nodes. -/
theorem mem_of_mem_seeds {y : String} (h : y ∈ ExtTreeSet.ofList
    ((bottoms state).flatMap (users m selected)) compare) : y ∈ selected := by
  obtain ⟨_, -, hy⟩ := mem_flatMap.mp (contains_iff_mem.mp (ExtTreeSet.mem_ofList.mp h))
  exact mem_of_mem_users hy

/-- What the solver ends with is a solution of the selected equations. -/
theorem solving_solve (m : ValueModel) (query : ValueQuery) (selected : Names)
    (frontier : Frontier) : Solving m selected ∅ (solve m query selected frontier).state := by
  have hfirst := (solving_start m selected).drain query.maxTransfers fun id hid ↦ hid
  rw [solve]
  dsimp only
  split
  · exact hfirst
  · have hsecond := hfirst.seed.drain (Values.drain m selected query.maxTransfers selected
      (ExtTreeMap.ofList (selected.toList.map fun id ↦ (id, 0)) compare)).remaining
      fun _ ↦ mem_of_mem_seeds
    split
    · exact hsecond
    · exact hsecond

end Solving

/-! ## Selections -/

variable {m : ValueModel}

/-- Only nodes of the model are selected. -/
theorem node?_isSome_of_mem_select {maxNodes : ℕ} {pending selected : Names} {frontier : Frontier}
    (h : ∀ id ∈ selected, (m.node? id).isSome) :
    ∀ id ∈ (select m maxNodes pending selected frontier).selected, (m.node? id).isSome := by
  fun_induction select m maxNodes pending selected frontier with
  | case1 => exact h
  | case2 _ _ _ _ _ _ _ ih => exact ih h
  | case3 _ _ _ _ _ _ _ _ ih => exact ih h
  | case4 _ _ _ _ _ _ _ _ _ ih => exact ih h
  | case5 pending selected frontier id rest hp hs hsize n hn ih =>
    refine ih fun x hx ↦ ?_
    rcases ExtTreeSet.mem_insert.mp hx with heq | hx
    · rw [← Std.compare_eq_iff_eq.mp heq, hn]
      rfl
    · exact h x hx

variable {query : ValueQuery}

theorem node?_isSome_of_mem_selection :
    ∀ id ∈ (selection m query).selected, (m.node? id).isSome := by
  rw [selection]
  split
  · exact node?_isSome_of_mem_select fun id hid ↦ absurd hid ExtTreeSet.not_mem_empty
  · exact fun id hid ↦ absurd hid ExtTreeSet.not_mem_empty

/-! ## Reports -/

/-- A settled state stands for a solution of the whole model: what is not selected may be
anything. -/
theorem Solving.solution {selected : Names} (hm : m.Checked) (h : Solving m selected ∅ state) :
    Solution m.nodes state.assignment := by
  intro n hn
  by_cases hsel : n.id ∈ selected
  · have heq := h.settled n.id ExtTreeSet.not_mem_empty
    rwa [equations, if_pos hsel, ValueModel.operationOf,
      (ValueModel.node?_eq_some_iff hm.ordered).mpr ⟨hn, rfl⟩] at heq
  · rw [State.assignment, State.bits_of_notMem fun hmem ↦ hsel ((h.keys _).mp hmem),
      valuesOf_topBits]
    exact Set.subset_univ _

/-- What the solver reports is read off a solution of the model. -/
theorem exists_solution_of_analyze [Sha256] {result : ValueResult}
    (h : analyze m query = .ok result) :
    ∃ s, Solution m.nodes s ∧ ∀ o ∈ result.observations, (∃ n ∈ m.nodes, n.id = o.id) ∧
      (o.normalValueNullness = .null → s o.id = {.null}) ∧
      (o.normalValueNullness = .nonNull → s o.id = {.nonNull}) := by
  obtain ⟨_, hvalid, hrest⟩ := bind_eq_ok_iff.mp h
  obtain ⟨-, hresult⟩ := ensure_bind_eq_ok_iff.mp hrest
  obtain rfl := (Except.ok.inj hresult).symm
  have hsolved := solving_solve m query (selection m query).selected
    ((selection m query).frontier.insertMany (unknownFrontier m (selection m query).selected))
  refine ⟨_, hsolved.solution (ValueModel.checked_of_validate hvalid), fun o ho ↦ ?_⟩
  obtain ⟨⟨id, v⟩, hmem, rfl⟩ := mem_map.mp ho
  have hget := ExtTreeMap.mem_toList_iff_getElem?_eq_some.mp hmem
  refine ⟨ValueModel.node?_isSome_iff.mp ?_, fun hnull ↦ ?_, fun hnonNull ↦ ?_⟩
  · exact node?_isSome_of_mem_selection id
      ((hsolved.keys id).mp (ExtTreeMap.mem_iff_isSome_getElem?.mpr (by simp [hget])))
  · exact (State.assignment_of_getElem? hget).trans (eq_null_of_publicValue hnull)
  · exact (State.assignment_of_getElem? hget).trans (eq_nonNull_of_publicValue hnonNull)

end Codeclew.Values
