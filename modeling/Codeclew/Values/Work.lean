import Codeclew.Values.Exact

/-!
# The work of the solver

A node is raised at most twice, since there are two values, and it is pending when it is selected
and again whenever an operand of it is raised. So the transfers are paid for by the selected nodes,
one each, and by the pairs of a selected operand and a selected user of it, two each. The second
phase costs nothing on top of this: a node it seeds takes all values at once, which is one raise in
the place of the two the first phase has left over.
-/

namespace Codeclew.Values

open Std List ExtTreeMap

/-- The values that are left out. -/
def gaps (v : UInt8) : ℕ := if v = 0 then 2 else if v = topBits then 0 else 1

theorem gaps_le_two (v : UInt8) : gaps v ≤ 2 := by
  rw [gaps]
  split_ifs <;> decide

theorem Within.gaps_or_lt {v w : UInt8} (hv : Within v) (hw : Within w) (hne : v ||| w ≠ v) :
    gaps (v ||| w) < gaps v := by
  rcases hv.cases with rfl | rfl | rfl | rfl <;> rcases hw.cases with rfl | rfl | rfl | rfl <;>
    first
    | exact absurd rfl hne
    | decide

section Work

variable {m : ValueModel} {selected : Names}

/-- The pairs of a selected operand and a selected user of it. -/
def operandPairs (m : ValueModel) (selected : Names) : Finset (String × String) :=
  (selected.toList.toFinset ×ˢ selected.toList.toFinset).filter fun pair ↦
    pair.1 ∈ (m.operationOf pair.2).operands

/-- The transfers that the nodes which can still be raised will ask for. -/
def outstanding (m : ValueModel) (selected : Names) (state : State) : ℕ :=
  Worklist.headroom selected.toList.toFinset (fun id ↦ (users m selected id).length)
    fun id ↦ gaps (state.bits id)

theorem card_operandPairs :
    (operandPairs m selected).card =
      ∑ id ∈ selected.toList.toFinset, (users m selected id).length := by
  have husers : ∀ operand, (users m selected operand).length
      = (selected.toList.toFinset.filter fun user ↦
        operand ∈ (m.operationOf user).operands).card := by
    intro operand
    have hnodup : selected.toList.Nodup :=
      ExtTreeSet.distinct_toList.imp fun h heq ↦ h (Std.compare_eq_iff_eq.mpr heq)
    have hfilter : (selected.toList.toFinset.filter fun user ↦
        operand ∈ (m.operationOf user).operands)
        = (selected.toList.filter fun user ↦ operand ∈ (m.operationOf user).operands).toFinset := by
      ext user
      simp
    rw [hfilter, toFinset_card_of_nodup (hnodup.filter _), users]
    refine congrArg List.length (filter_congr fun id _ ↦ ?_)
    rw [ValueModel.operationOf]
    cases m.node? id with
    | none => simp [ValueOperation.operands]
    | some n => simp
  rw [operandPairs, Finset.card_filter, Finset.sum_product]
  refine Finset.sum_congr rfl fun operand _ ↦ ?_
  rw [husers, Finset.card_filter]

theorem outstanding_le (state : State) :
    outstanding m selected state ≤ 2 * (operandPairs m selected).card := by
  rw [outstanding, Worklist.headroom, card_operandPairs, Finset.mul_sum]
  exact Finset.sum_le_sum fun id _ ↦ Nat.mul_le_mul_right _ (gaps_le_two _)

variable {state : State}

/-- A raised node pays for its users. -/
theorem outstanding_raise {id : String} {v : UInt8} (hid : id ∈ selected)
    (hlt : gaps v < gaps (state.bits id)) :
    (users m selected id).length + outstanding m selected (state.insert id v)
      ≤ outstanding m selected state := by
  have hsub : ({id} : Finset String) ⊆ selected.toList.toFinset := by simpa using hid
  have hpaid : ∑ x ∈ {id}, (users m selected x).length + outstanding m selected (state.insert id v)
      ≤ outstanding m selected state := by
    refine Worklist.sum_add_headroom_le hsub (fun x _ ↦ ?_) fun x hx ↦ ?_
    · rw [State.bits_insert]
      split
      · rename_i heq
        exact (heq ▸ hlt).le
      · exact le_rfl
    · rw [State.bits_insert, Finset.mem_singleton.mp hx, if_pos rfl]
      exact hlt
  rwa [Finset.sum_singleton] at hpaid

theorem of_mem_bottoms {id : String} (h : id ∈ bottoms state) :
    id ∈ state ∧ state.bits id = 0 := by
  obtain ⟨entry, hentry, rfl⟩ := mem_map.mp h
  obtain ⟨hmem, hzero⟩ := mem_filter.mp hentry
  have hget : state[entry.1]? = some entry.2 := mem_toList_iff_getElem?_eq_some.mp hmem
  refine ⟨mem_iff_isSome_getElem?.mpr (by rw [hget]; rfl), ?_⟩
  rw [State.bits, hget, Option.getD_some]
  exact of_decide_eq_true hzero

theorem nodup_bottoms (state : State) : (bottoms state).Nodup := by
  have hkeys : (state.toList.map (·.1)).Nodup := by
    rw [map_fst_toList_eq_keys]
    exact nodup_keys
  exact hkeys.sublist (filter_sublist.map _)

/-- So do the nodes that are seeded. -/
theorem outstanding_seed (hkeys : ∀ id, id ∈ state ↔ id ∈ selected) :
    ((bottoms state).flatMap (users m selected)).length + outstanding m selected (seedBottoms state)
      ≤ outstanding m selected state := by
  have hzero : ∀ id ∈ bottoms state, id ∈ selected ∧ state.bits id = 0 := by
    intro id hid
    obtain ⟨hmem, hbits⟩ := of_mem_bottoms hid
    exact ⟨(hkeys id).mp hmem, hbits⟩
  have hsub : (bottoms state).toFinset ⊆ selected.toList.toFinset := by
    intro id hid
    simpa using (hzero id (mem_toFinset.mp hid)).1
  have hpaid : ∑ id ∈ (bottoms state).toFinset, (users m selected id).length
        + outstanding m selected (seedBottoms state) ≤ outstanding m selected state := by
    refine Worklist.sum_add_headroom_le hsub (fun x _ ↦ ?_) fun x hx ↦ ?_
    · rw [bits_seedBottoms]
      split
      · exact Nat.zero_le _
      · exact le_rfl
    · rw [bits_seedBottoms, (hzero x (mem_toFinset.mp hx)).2, if_pos rfl]
      decide
  rwa [sum_toFinset _ (nodup_bottoms state), ← length_flatMap] at hpaid

/-- What a run does that was asked for some transfers: it does no more, except for what is still
outstanding, and it only runs out of transfers when more are asked for. -/
inductive Worked (m : ValueModel) (selected : Names) (remaining asked : ℕ) (out : Drained) : Prop
  | done : out.exhausted = false → AllWithin out.state →
      outstanding m selected out.state + remaining ≤ asked + out.remaining →
      Worked m selected remaining asked out
  | short : out.exhausted = true → out.remaining = 0 → remaining < asked →
      Worked m selected remaining asked out

theorem worked_drain (remaining : ℕ) {pending : Names} (hsub : ∀ id ∈ pending, id ∈ selected)
    (hwithin : AllWithin state) :
    Worked m selected remaining (pending.size + outstanding m selected state)
      (drain m selected remaining pending state) := by
  refine drain_induction (I := fun left now next ↦ AllWithin next ∧
      now.size + outstanding m selected next + remaining
        ≤ pending.size + outstanding m selected state + left)
    (R := Worked m selected remaining (pending.size + outstanding m selected state))
    (fun left next h ↦ ?_) (fun now next hsize h ↦ ?_) (fun left now next id hid hsize h hne ↦ ?_)
    (fun left now next id hid hsize h _ ↦ ?_) hsub ⟨hwithin, le_rfl⟩
  · exact .done rfl h.1 (by simpa using h.2)
  · exact .short rfl rfl (by omega)
  · refine ⟨raised_allWithin next id hid h.1, ?_⟩
    have hlt := (h.1 id).gaps_or_lt (within_transfer h.1 _) hne
    have hpaid := outstanding_raise (m := m) hid hlt
    have hmany := ExtTreeSet.size_insertMany_list_le (t := now.erase id)
      (l := users m selected id)
    omega
  · exact ⟨h.1, by omega⟩

/-- The second run is asked for no more than the first has left outstanding. -/
theorem asked_seed (hkeys : ∀ id, id ∈ state ↔ id ∈ selected) :
    (ExtTreeSet.ofList ((bottoms state).flatMap (users m selected)) compare).size
        + outstanding m selected (seedBottoms state) ≤ outstanding m selected state :=
  (Nat.add_le_add_right ExtTreeSet.size_ofList_le _).trans (outstanding_seed hkeys)

/-- The solver does at most one transfer for each selected node and two for each pair, and it
converges when it may do as many. -/
theorem solve_work (query : ValueQuery) (frontier : Frontier) :
    (query.maxTransfers - (solve m query selected frontier).remaining
        ≤ selected.size + 2 * (operandPairs m selected).card) ∧
      (selected.size + 2 * (operandPairs m selected).card ≤ query.maxTransfers →
        (solve m query selected frontier).converged = true) := by
  have hstart : outstanding m selected (bottomState selected)
      ≤ 2 * (operandPairs m selected).card := outstanding_le _
  have hsolving := (solving_start m selected).drain query.maxTransfers fun id hid ↦ hid
  have hwithin : AllWithin (bottomState selected) := allWithin_bottomState
  have hfirst :=
    worked_drain (m := m) query.maxTransfers (fun id (hid : id ∈ selected) ↦ hid) hwithin
  rw [bottomState] at hfirst hstart
  rw [solve]
  generalize drain m selected query.maxTransfers selected
    (ExtTreeMap.ofList (selected.toList.map fun id ↦ (id, 0)) compare) = first
    at hsolving hfirst
  dsimp only
  cases hfirst with
  | short hexhausted hremaining hwork =>
    rw [hexhausted, if_pos rfl]
    exact ⟨by dsimp only; omega, fun henough ↦ by omega⟩
  | done hexhausted hwithin hwork =>
    rw [hexhausted, if_neg Bool.false_ne_true]
    have hasked := asked_seed (m := m) hsolving.keys
    cases worked_drain (m := m) first.remaining (fun _ ↦ mem_of_mem_seeds) hwithin.seed with
    | short hexhausted hremaining hwork' =>
      rw [hexhausted, if_pos rfl]
      exact ⟨by dsimp only; omega, fun henough ↦ by omega⟩
    | done hexhausted hwithin' hwork' =>
      rw [hexhausted, if_neg Bool.false_ne_true]
      exact ⟨by dsimp only; omega, fun _ ↦ rfl⟩

end Work

/-- The solver does at most one transfer for each selected node and two for each pair of a selected
operand and a selected user of it, so it converges with a budget of as many. -/
theorem analyze_work [Sha256] {m : ValueModel} {query : ValueQuery} {result : ValueResult}
    (h : analyze m query = .ok result) :
    result.transferCount ≤ (selection m query).selected.size
        + 2 * (operandPairs m (selection m query).selected).card ∧
      ((selection m query).selected.size + 2 * (operandPairs m (selection m query).selected).card
          ≤ query.maxTransfers → result.equationsConverged = true) := by
  obtain ⟨_, -, hrest⟩ := bind_eq_ok_iff.mp h
  obtain ⟨-, hresult⟩ := ensure_bind_eq_ok_iff.mp hrest
  obtain rfl := (Except.ok.inj hresult).symm
  exact solve_work query _

section Examples

attribute [local instance] Sha256.standard

/-- Three nodes and two pairs: seven transfers are enough. -/
theorem analyze_work_guarded : ∃ result, analyze guardedModel ⟨"a", 3, 7⟩ = .ok result ∧
    result.transferCount ≤ 7 ∧ result.equationsConverged = true := by
  obtain ⟨result, hanalyze, -⟩ : ∃ result, analyze guardedModel ⟨"a", 3, 7⟩ = .ok result ∧
      result.observations ≠ [] := by
    decide +kernel
  have hcount : (selection guardedModel ⟨"a", 3, 7⟩).selected.size
      + 2 * (operandPairs guardedModel (selection guardedModel ⟨"a", 3, 7⟩).selected).card = 7 := by
    decide +kernel
  obtain ⟨hle, hconverged⟩ := analyze_work hanalyze
  rw [hcount] at hle hconverged
  exact ⟨result, hanalyze, hle, hconverged le_rfl⟩

end Examples

end Codeclew.Values
