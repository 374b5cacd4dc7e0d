import Codeclew.Values.Calls

/-!
# The contexts of an expansion

While a program is expanded, the contexts that were opened are the same functions under other names:
a plain node has the operation of its definition, a call is unknown or copies the result of the
context it was expanded to, and a parameter gets at least what was bound to it. This is `Built`, and
every step of the expansion keeps it.

It rests on names not meeting: two definitions never have the same name in their contexts, and the
name that keeps what a parameter was is not the name of a definition. The second is not true of all
programs; `Apart` says it of one parameter.
-/

namespace Codeclew.Values

open Std List

/-! ## Names -/

/-- A name without a slash. -/
def Plain (id : String) : Prop := '/' ∉ id.toList

theorem toList_scopedId {context : ℕ} (h : context ≠ 0) (id : String) :
    (scopedId context id).toList = 'c' :: Nat.toDigits 10 context ++ '/' :: id.toList := by
  rw [scopedId, if_neg h, String.toList_append, String.toList_append, String.toList_append]
  have hdigits : (toString context).toList = Nat.toDigits 10 context := by
    rw [Nat.toString_eq_repr, Nat.toList_repr]
  rw [hdigits]
  simp

theorem slash_notMem_context (context : ℕ) : '/' ∉ 'c' :: Nat.toDigits 10 context := by
  intro h
  rcases mem_cons.mp h with h | h
  · cases h
  · exact absurd (Nat.isDigit_of_mem_toDigits (by norm_num) le_rfl h) (by decide)

theorem toDigits_injective {m n : ℕ} (h : Nat.toDigits 10 m = Nat.toDigits 10 n) : m = n := by
  have hread := congrArg (Nat.ofDigitChars 10 · 0) h
  simpa [Nat.ofDigitChars_ten_toDigits] using hread

/-- The names of contexts are apart, and so are the names in one context. -/
theorem scopedId_injective {j k : ℕ} {a b : String} (ha : Plain a) (hb : Plain b)
    (h : scopedId j a = scopedId k b) : j = k ∧ a = b := by
  by_cases hj : j = 0 <;> by_cases hk : k = 0
  · subst hj hk
    exact ⟨rfl, h⟩
  · subst hj
    refine absurd ?_ ha
    rw [show a = scopedId k b from h, toList_scopedId hk]
    simp
  · subst hk
    refine absurd ?_ hb
    rw [show b = scopedId j a from h.symm, toList_scopedId hj]
    simp
  · have hlist := congrArg String.toList h
    rw [toList_scopedId hj, toList_scopedId hk,
      append_cons_inj_of_notMem (slash_notMem_context j) ha] at hlist
    exact ⟨toDigits_injective (List.cons.inj hlist.1).2, String.toList_inj.mp hlist.2.2⟩

theorem scopedId_right_injective (k : ℕ) : Function.Injective (scopedId k) := by
  intro a b h
  by_cases hk : k = 0
  · subst hk
    exact h
  · have hlist := congrArg String.toList h
    rw [toList_scopedId hk, toList_scopedId hk] at hlist
    exact String.toList_inj.mp (List.cons.inj (append_cancel_left hlist)).2

theorem incoming_injective {y z : String} (h : incoming y = incoming z) : y = z := by
  simpa [incoming] using h

theorem toList_incoming (y : String) :
    (incoming y).toList = y.toList ++ '/' :: "incoming".toList := by
  rw [incoming, String.toList_append]
  rfl

/-- The only way in which the two kinds of names meet: a parameter of the entry that is called like
a context, in which something is called `incoming`. -/
theorem eq_of_scopedId_eq_incoming {j k : ℕ} {a p : String} (ha : Plain a)
    (h : scopedId k a = incoming (scopedId j p)) :
    j = 0 ∧ k ≠ 0 ∧ p = "c" ++ toString k ∧ a = "incoming" := by
  have hlist := congrArg String.toList h
  rw [toList_incoming] at hlist
  have hk : k ≠ 0 := by
    rintro rfl
    refine ha ?_
    rw [show a.toList = _ from hlist]
    simp
  rw [toList_scopedId hk, append_cons_inj_of_notMem (slash_notMem_context k) ha] at hlist
  have hj : j = 0 := by
    by_contra hj
    refine slash_notMem_context k ?_
    rw [hlist.1, toList_scopedId hj]
    simp
  subst hj
  refine ⟨rfl, hk, String.toList_inj.mp ?_, String.toList_inj.mp hlist.2.2⟩
  rw [String.toList_append, Nat.toString_eq_repr, Nat.toList_repr]
  exact hlist.1.symm

/-! ## Checked programs -/

/-- What the checks of a program establish about one of its functions. -/
structure FunctionValues.Checked (functions : List FunctionValues) (f : FunctionValues) : Prop where
  model : f.model.Checked
  result : (f.model.node? "result").isSome
  parametersNodup : f.parameters.Nodup
  parameters : ∀ p ∈ f.parameters, ∃ n, f.model.node? p = some n ∧ isParameter n.operation
  callsNodup : (f.calls.map (·.definition)).Nodup
  definitions : ∀ c ∈ f.calls, ∃ n boundary, f.model.node? c.definition = some n ∧
    n.operation = .unknown boundary
  arguments : ∀ c ∈ f.calls, ∀ a ∈ c.arguments, (f.model.node? a).isSome
  arity : ∀ c ∈ f.calls, ∀ g, function? functions c.target = some g →
    g.parameters.length = c.arguments.length

theorem ValueOperation.eq_unknown_of_boundary? {op : ValueOperation} (h : op.boundary?.isSome) :
    ∃ boundary, op = .unknown boundary := by
  cases op with
  | unknown boundary => exact ⟨boundary, rfl⟩
  | _ => cases h

variable {f : FunctionValues}

theorem checked_of_checkFunction {functions : List FunctionValues} {binding : ModelBinding}
    (h : checkFunction functions binding f = .ok ()) : f.Checked functions := by
  obtain ⟨_, hvalid, hrest⟩ := bind_eq_ok_iff.mp h
  obtain ⟨-, hrest⟩ := ensure_bind_eq_ok_iff.mp hrest
  obtain ⟨⟨hresult, -, -, hnodup, hparams, hcallsNodup⟩, hcalls⟩ := ensure_bind_eq_ok_iff.mp hrest
  have hcall : ∀ c ∈ f.calls, checkCall functions f c = .ok () := eq_ok_of_forM_eq_ok hcalls
  refine ⟨ValueModel.checked_of_validate hvalid, hresult, hnodup, fun p hp ↦ ?_, hcallsNodup,
    fun c hc ↦ ?_, fun c hc ↦ ?_, fun c hc g hg ↦ ?_⟩
  · exact (Option.any_eq_true _ _).mp (hparams p hp)
  · obtain ⟨⟨-, hdef, -, -⟩, -⟩ := ensure_bind_eq_ok_iff.mp (hcall c hc)
    obtain ⟨n, hn, hsome⟩ := (Option.any_eq_true _ _).mp hdef
    obtain ⟨boundary, hop⟩ := ValueOperation.eq_unknown_of_boundary? hsome
    exact ⟨n, boundary, hn, hop⟩
  · exact (ensure_bind_eq_ok_iff.mp (hcall c hc)).1.2.2.2
  · exact ensure_eq_ok_iff.mp (ensure_bind_eq_ok_iff.mp (hcall c hc)).2 g hg

namespace FunctionValues.Checked

variable {functions : List FunctionValues} {f : FunctionValues}

variable {c : ExactValueCall}

theorem call?_eq_some (h : f.Checked functions) (hc : c ∈ f.calls) :
    f.call? c.definition = some c := by
  rw [FunctionValues.call?, List.find?_eq_some_iff_append]
  obtain ⟨before, after, hsplit⟩ := append_of_mem hc
  refine ⟨by simp, before, after, hsplit, fun c' hc' ↦ ?_⟩
  have hnodup := h.callsNodup
  rw [hsplit, map_append, map_cons, nodup_append] at hnodup
  have hne := hnodup.2.2 c'.definition (mem_map_of_mem hc') c.definition mem_cons_self
  simpa using hne

variable {p : String}

section

variable (h : f.Checked functions)
include h

theorem exists_parameter (hp : p ∈ f.parameters) :
    ∃ n ∈ f.model.nodes, n.id = p ∧ isParameter n.operation := by
  obtain ⟨n, hn, hop⟩ := h.parameters p hp
  exact ⟨n, mem_of_find?_eq_some hn, by simpa using List.find?_some hn, hop⟩

theorem exists_definition (hc : c ∈ f.calls) :
    ∃ n ∈ f.model.nodes, n.id = c.definition ∧ ∃ boundary, n.operation = .unknown boundary := by
  obtain ⟨n, boundary, hn, hop⟩ := h.definitions c hc
  exact ⟨n, mem_of_find?_eq_some hn, by simpa using List.find?_some hn, boundary, hop⟩

/-- A parameter is not a call. -/
theorem call?_parameter (hp : p ∈ f.parameters) :
    f.call? p = none := by
  rw [FunctionValues.call?, List.find?_eq_none]
  rintro c hc hdef
  obtain ⟨n, hn, hparam⟩ := h.parameters p hp
  obtain ⟨n', boundary, hn', hop⟩ := h.definitions c hc
  rw [show c.definition = p by simpa using hdef, hn, Option.some.injEq] at hn'
  rw [hn', hop] at hparam
  simp [isParameter] at hparam

theorem parameter_ne_definition (hp : p ∈ f.parameters) (hc : c ∈ f.calls) :
    p ≠ c.definition := by
  rintro rfl
  have hcall := h.call?_eq_some hc
  rw [h.call?_parameter hp] at hcall
  cases hcall

end

end FunctionValues.Checked

/-! ## Relevance -/

variable {pending : List String} {selected : Names}

theorem subset_gather :
    ∀ id ∈ selected, id ∈ gather f pending selected := by
  fun_induction gather f pending selected with
  | case1 => exact fun id hid ↦ hid
  | case2 _ _ _ _ ih => exact ih
  | case3 _ _ _ _ _ ih => exact ih
  | case4 selected x pending hs n hn ih =>
    exact fun id hid ↦ ih id (ExtTreeSet.mem_insert.mpr (.inr hid))

theorem mem_gather :
    ∀ id ∈ pending, (f.model.node? id).isSome → id ∈ gather f pending selected := by
  fun_induction gather f pending selected with
  | case1 => exact fun id hid ↦ nomatch hid
  | case2 selected x pending hs ih =>
    intro id hid hsome
    rcases mem_cons.mp hid with rfl | hid
    · exact subset_gather id (ExtTreeSet.mem_iff_contains.mpr hs)
    · exact ih id hid hsome
  | case3 selected x pending hs hn ih =>
    intro id hid hsome
    rcases mem_cons.mp hid with rfl | hid
    · rw [hn] at hsome
      cases hsome
    · exact ih id hid hsome
  | case4 selected x pending hs n hn ih =>
    intro id hid hsome
    rcases mem_cons.mp hid with rfl | hid
    · exact subset_gather id ExtTreeSet.mem_insert_self
    · exact ih id (mem_append_right _ hid) hsome

/-- What is gathered is closed: its dependencies are gathered or are not definitions. -/
theorem gather_closed (h : ∀ id ∈ selected, ∀ n, f.model.node? id = some n → ∀ d ∈ f.dependencies n,
      d ∈ selected ∨ d ∈ pending ∨ f.model.node? d = none) :
    ∀ id ∈ gather f pending selected, ∀ n, f.model.node? id = some n → ∀ d ∈ f.dependencies n,
      d ∈ gather f pending selected ∨ f.model.node? d = none := by
  fun_induction gather f pending selected with
  | case1 =>
    intro id hid n hn d hd
    simpa using h id hid n hn d hd
  | case2 selected x pending hs ih =>
    refine ih fun id hid n hn d hd ↦ ?_
    rcases h id hid n hn d hd with hd | hd | hd
    · exact .inl hd
    · rcases mem_cons.mp hd with rfl | hd
      · exact .inl (ExtTreeSet.mem_iff_contains.mpr hs)
      · exact .inr (.inl hd)
    · exact .inr (.inr hd)
  | case3 selected x pending hs hx ih =>
    refine ih fun id hid n hn d hd ↦ ?_
    rcases h id hid n hn d hd with hd | hd | hd
    · exact .inl hd
    · rcases mem_cons.mp hd with rfl | hd
      · exact .inr (.inr hx)
      · exact .inr (.inl hd)
    · exact .inr (.inr hd)
  | case4 selected x pending hs n' hn' ih =>
    refine ih fun id hid n hn d hd ↦ ?_
    rcases ExtTreeSet.mem_insert.mp hid with heq | hid
    · rw [← Std.compare_eq_iff_eq.mp heq, hn', Option.some.injEq] at hn
      subst hn
      exact .inr (.inl (mem_append_left _ (mem_reverse.mpr hd)))
    · rcases h id hid n hn d hd with hd | hd | hd
      · exact .inl (ExtTreeSet.mem_insert.mpr (.inr hd))
      · rcases mem_cons.mp hd with rfl | hd
        · exact .inl ExtTreeSet.mem_insert_self
        · exact .inr (.inl (mem_append_right _ hd))
      · exact .inr (.inr hd)

theorem mem_relevant_iff {target id : String} :
    id ∈ relevant f target ↔ id ∈ gather f [target] ∅ ∨ id ∈ f.parameters := by
  rw [relevant, ExtTreeSet.mem_insertMany_list, contains_iff_mem]

theorem target_mem_relevant {target : String} (h : (f.model.node? target).isSome) :
    target ∈ relevant f target :=
  mem_relevant_iff.mpr (.inl (mem_gather target mem_cons_self h))

namespace FunctionValues.Checked

variable {functions : List FunctionValues} {f : FunctionValues} {target : String}

theorem operand_mem_relevant (h : f.Checked functions) {n : ValueNode} (hn : n ∈ f.model.nodes)
    (hrel : n.id ∈ relevant f target) {d : String} (hd : d ∈ n.operation.operands) :
    d ∈ relevant f target := by
  have hnode := (ValueModel.node?_eq_some_iff h.model.ordered).mpr ⟨hn, rfl⟩
  rcases mem_relevant_iff.mp hrel with hgather | hparam
  · have hclosed := gather_closed (fun id hid ↦ absurd hid ExtTreeSet.not_mem_empty) n.id hgather n
      hnode d (mem_append_left _ (mem_append_left _ hd))
    refine mem_relevant_iff.mpr (.inl (hclosed.resolve_right fun hnone ↦ ?_))
    obtain ⟨n', hn', rfl⟩ := h.model.closed n hn d (mem_append_left _ hd)
    rw [(ValueModel.node?_eq_some_iff h.model.ordered).mpr ⟨hn', rfl⟩] at hnone
    cases hnone
  · obtain ⟨n', hn', hop⟩ := h.parameters n.id hparam
    rw [hnode, Option.some.injEq] at hn'
    subst hn'
    cases hcase : n.operation <;> simp_all [ValueOperation.operands, isParameter]

theorem argument_mem_relevant (h : f.Checked functions) {c : ExactValueCall} (hc : c ∈ f.calls)
    (hrel : c.definition ∈ relevant f target) {a : String} (ha : a ∈ c.arguments) :
    a ∈ relevant f target := by
  obtain ⟨n, -, hnode, -⟩ := h.definitions c hc
  have hid : n.id = c.definition := by simpa using List.find?_some hnode
  have hcall := h.call?_eq_some hc
  rcases mem_relevant_iff.mp hrel with hgather | hparam
  · have hclosed := gather_closed (fun id hid ↦ absurd hid ExtTreeSet.not_mem_empty) c.definition
      hgather n hnode a (mem_append_right _ (by rw [hid, hcall]; exact ha))
    refine mem_relevant_iff.mpr (.inl (hclosed.resolve_right fun hnone ↦ ?_))
    have hsome := h.arguments c hc a ha
    rw [hnone] at hsome
    cases hsome
  · rw [h.call?_parameter hparam] at hcall
    cases hcall

end FunctionValues.Checked

end Codeclew.Values
