import Codeclew.Values.Contexts

/-!
# What an expansion builds

The invariant of the expansion. A `Layout` lists the contexts that were opened and what has been
bound to their parameters; `Built` says that the nodes of a builder are laid out so. Each step of
the expansion keeps it for a layout that only grows, and so does the expansion of a whole function,
by induction on how many contexts may still be opened.
-/

namespace Codeclew.Values

open Std List

/-! ## Operations of a builder -/

namespace Builder

/-- The operation of a node. -/
def op (b : Builder) (y : String) : Option ValueOperation := (b.nodes[y]?).map (·.operation)

/-- Every node is stored under its own name. -/
def IdsMatch (b : Builder) : Prop := ∀ y (n : ValueNode), b.nodes[y]? = some n → n.id = y

@[simp] theorem op_setOperation (b : Builder) (y z : String) (o : ValueOperation) :
    (b.setOperation y o).op z = if y = z then (b.op y).map fun _ ↦ o else b.op z := by
  simp only [op, setOperation, ExtTreeMap.getElem?_modify, Std.compare_eq_iff_eq]
  split <;> simp [Function.comp_def]

variable {b : Builder}

theorem IdsMatch.setOperation (h : b.IdsMatch) (y : String) (o : ValueOperation) :
    (b.setOperation y o).IdsMatch := by
  intro z n hn
  rw [Builder.setOperation, ExtTreeMap.getElem?_modify] at hn
  split at hn
  · rename_i heq
    obtain ⟨m, hm, rfl⟩ := Option.map_eq_some_iff.mp hn
    rw [← Std.compare_eq_iff_eq.mp heq]
    exact h y m hm
  · exact h z n hn

theorem op_insert {origins : ExtTreeMap String ValueOrigin compare} (y z : String) (n : ValueNode) :
    op { b with nodes := b.nodes.insert y n, origins := origins } z
      = if y = z then some n.operation else b.op z := by
  simp only [op, ExtTreeMap.getElem?_insert, Std.compare_eq_iff_eq]
  split <;> rfl

theorem mem_sorted_dedup {vs : List String} {v : String} :
    v ∈ (vs.insertionSort (· ≤ ·)).dedup ↔ v ∈ vs := by
  rw [mem_dedup, mem_insertionSort]

theorem ne_incoming_self (p : String) : p ≠ incoming p := by
  intro h
  have hlen := congrArg (List.length ∘ String.toList) h
  simp [toList_incoming] at hlen

/-- What joining an argument into a parameter does to the operations: the parameter joins what it
joined before and the argument, and what it was otherwise is kept. -/
theorem op_joinParameter {p : String} (a : String) (h : (b.op p).isSome) :
    ∃ vs, (b.joinParameter p a).op p = some (.join vs) ∧ a ∈ vs ∧
      (∀ y, y ≠ p → y ≠ incoming p → (b.joinParameter p a).op y = b.op y) ∧
      (∀ o : ValueOperation, o.isJoin = false → b.op p = some o →
        incoming p ∈ vs ∧ (b.joinParameter p a).op (incoming p) = some o) ∧
      ∀ vs₀, b.op p = some (.join vs₀) →
        (∀ v ∈ vs₀, v ∈ vs) ∧ (b.joinParameter p a).op (incoming p) = b.op (incoming p) := by
  obtain ⟨o, ho⟩ := Option.isSome_iff_exists.mp h
  obtain ⟨current, hcurrent, rfl⟩ := Option.map_eq_some_iff.mp ho
  have hne := ne_incoming_self p
  rw [joinParameter, hcurrent]
  cases hop : current.operation with
  | join values =>
    refine ⟨((values ++ [a]).insertionSort (· ≤ ·)).dedup, ?_, ?_, ?_, ?_, ?_⟩
    · simp [hop, ho]
    · exact mem_sorted_dedup.mpr (by simp)
    · intro y hy _
      simp [hop, Ne.symm hy]
    · intro o hjoin hop'
      rw [ho, hop, Option.some.injEq] at hop'
      rw [← hop'] at hjoin
      cases hjoin
    · intro vs₀ hvs₀
      rw [ho, hop, Option.some.injEq, ValueOperation.join.injEq] at hvs₀
      subst hvs₀
      exact ⟨fun v hv ↦ mem_sorted_dedup.mpr (mem_append_left _ hv), by simp [hop, hne]⟩
  | _ =>
    refine ⟨(([incoming p] ++ [a]).insertionSort (· ≤ ·)).dedup, ?_, ?_, ?_, ?_, ?_⟩
    · simp [hop, op_insert, ho, hne.symm]
    · exact mem_sorted_dedup.mpr (by simp)
    · intro y hy hy'
      simp [hop, op_insert, Ne.symm hy, Ne.symm hy']
    · intro o _ hop'
      refine ⟨mem_sorted_dedup.mpr (by simp), ?_⟩
      rw [ho] at hop'
      simp [hop, op_insert, hne, ← hop']
    · intro vs₀ hvs₀
      rw [ho, hop] at hvs₀
      cases hvs₀

theorem IdsMatch.joinParameter (h : b.IdsMatch) (p a : String) :
    (b.joinParameter p a).IdsMatch := by
  rw [Builder.joinParameter]
  split
  · exact h
  · split
    · exact h.setOperation _ _
    · refine IdsMatch.setOperation (fun y n hn ↦ ?_) _ _
      rw [ExtTreeMap.getElem?_insert] at hn
      split at hn
      · rename_i heq
        rw [← Option.some.inj hn]
        exact Std.compare_eq_iff_eq.mp heq
      · exact h y n hn

theorem joinParameter_frame (b : Builder) (p a : String) :
    (b.joinParameter p a).contexts = b.contexts ∧
    (b.joinParameter p a).summaries = b.summaries := by
  rw [joinParameter]
  split
  · exact ⟨rfl, rfl⟩
  · split <;> exact ⟨rfl, rfl⟩

variable {k : ℕ} {nodes : List ValueNode}

/-- What is written under the names of a context is found there; the other names stay as they
are. -/
theorem getElem?_insertMany_scoped {β : Type} (m : ExtTreeMap String β compare)
    (value : ValueNode → β) (hnodup : nodes.Pairwise (·.id ≠ ·.id)) :
    (∀ n ∈ nodes, (m.insertMany (nodes.map fun n ↦ (scopedId k n.id, value n)))[scopedId k n.id]?
      = some (value n)) ∧
    ∀ y, (∀ n ∈ nodes, scopedId k n.id ≠ y) →
      (m.insertMany (nodes.map fun n ↦ (scopedId k n.id, value n)))[y]? = m[y]? := by
  have hdistinct : (nodes.map fun n ↦ (scopedId k n.id, value n)).Pairwise
      fun u v ↦ ¬compare u.1 v.1 = .eq := by
    rw [pairwise_map]
    exact hnodup.imp fun hne heq ↦
      hne (scopedId_right_injective k (Std.compare_eq_iff_eq.mp heq))
  constructor
  · intro n hn
    exact ExtTreeMap.getElem?_insertMany_list_of_mem (Std.compare_eq_iff_eq.mpr rfl) hdistinct
      (mem_map_of_mem hn)
  · intro y hy
    refine ExtTreeMap.getElem?_insertMany_list_of_contains_eq_false ?_
    rw [Bool.eq_false_iff, Ne, contains_iff_mem, map_map]
    intro hmem
    obtain ⟨n, hn, rfl⟩ := mem_map.mp hmem
    exact hy n hn rfl

/-- The nodes that are placed are found under their names; the others stay as they are. -/
theorem getElem?_insertMany_placed (m : ExtTreeMap String ValueNode compare)
    (hnodup : nodes.Pairwise (·.id ≠ ·.id)) :
    (∀ n ∈ nodes, (m.insertMany (placed k nodes))[scopedId k n.id]? = some
      ⟨scopedId k n.id, remap n.operation k, n.evidenceIds, n.guards.map (scopedId k)⟩) ∧
    ∀ y, (∀ n ∈ nodes, scopedId k n.id ≠ y) → (m.insertMany (placed k nodes))[y]? = m[y]? :=
  getElem?_insertMany_scoped m _ hnodup

theorem IdsMatch.insertMany_placed {b b' : Builder} (h : b.IdsMatch)
    (hb : b'.nodes = b.nodes.insertMany (placed k nodes)) (hnodup : nodes.Pairwise (·.id ≠ ·.id)) :
    b'.IdsMatch := by
  obtain ⟨hnew, hold⟩ := getElem?_insertMany_placed b.nodes hnodup (k := k)
  intro y m hm
  rw [hb] at hm
  by_cases hy : ∃ n ∈ nodes, scopedId k n.id = y
  · obtain ⟨n, hn, rfl⟩ := hy
    rw [hnew n hn, Option.some.injEq] at hm
    rw [← hm]
  · rw [hold y fun n hn heq ↦ hy ⟨n, hn, heq⟩] at hm
    exact h y m hm

variable {bindings : List (String × String)}

theorem op_bindParameters_of_ne {y : String} (h : ∀ q ∈ bindings, scopedId k q.1 ≠ y) :
    (b.bindParameters k bindings).op y = b.op y := by
  induction bindings generalizing b with
  | nil => rfl
  | cons q bindings ih =>
    rw [bindParameters, foldl_cons]
    refine (ih fun q' hq' ↦ h q' (mem_cons_of_mem _ hq')).trans ?_
    rw [op_setOperation, if_neg (h q mem_cons_self)]

/-- A parameter copies the argument that is bound to it. -/
theorem op_bindParameters (hnodup : bindings.Pairwise fun q q' ↦ scopedId k q.1 ≠ scopedId k q'.1)
    {q : String × String} (hq : q ∈ bindings) (hsome : (b.op (scopedId k q.1)).isSome) :
    (b.bindParameters k bindings).op (scopedId k q.1) = some (.copy q.2) := by
  induction bindings generalizing b with
  | nil => cases hq
  | cons q' bindings ih =>
    rw [pairwise_cons] at hnodup
    rw [bindParameters, foldl_cons]
    rcases mem_cons.mp hq with rfl | hmem
    · refine (op_bindParameters_of_ne fun q' hq' ↦ (hnodup.1 q' hq').symm).trans ?_
      rw [op_setOperation, if_pos rfl, Option.map_eq_some_iff]
      exact (Option.isSome_iff_exists.mp hsome).imp fun o ho ↦ ⟨ho, rfl⟩
    · refine ih hnodup.2 hmem ?_
      rw [op_setOperation, if_neg (hnodup.1 q hmem)]
      exact hsome

theorem IdsMatch.bindParameters (h : b.IdsMatch) (k : ℕ) (bindings : List (String × String)) :
    (b.bindParameters k bindings).IdsMatch := by
  induction bindings generalizing b with
  | nil => exact h
  | cons q bindings ih => exact ih (h.setOperation _ _)

theorem bindParameters_frame (b : Builder) (k : ℕ) (bindings : List (String × String)) :
    (b.bindParameters k bindings).contexts = b.contexts ∧
      (b.bindParameters k bindings).summaries = b.summaries := by
  induction bindings generalizing b with
  | nil => exact ⟨rfl, rfl⟩
  | cons q bindings ih => exact ih _

end Builder

/-! ## Layouts -/

/-- The contexts that were opened, each with its function and its target, and what was bound to
their parameters. -/
@[ext] structure Layout where
  contexts : List (FunctionValues × String)
  feeds : Set (String × ValueOperation)

namespace Layout

/-- A layout grows by contexts after those it has and by more bindings. -/
instance : LE Layout := ⟨fun l l' ↦ l.contexts <+: l'.contexts ∧ l.feeds ⊆ l'.feeds⟩

theorem le_refl (l : Layout) : l ≤ l := ⟨prefix_rfl, subset_rfl⟩

theorem le_trans {l l' l'' : Layout} (h : l ≤ l') (h' : l' ≤ l'') : l ≤ l'' :=
  ⟨h.1.trans h'.1, h.2.trans h'.2⟩

theorem getElem?_of_le {l l' : Layout} (h : l ≤ l') {k : ℕ} {c : FunctionValues × String}
    (hk : l.contexts[k]? = some c) : l'.contexts[k]? = some c := by
  obtain ⟨rest, hrest⟩ := h.1
  rw [← hrest, List.getElem?_append_left (List.getElem?_eq_some_iff.mp hk).1, hk]

end Layout

/-- The name that keeps what `y` was is not the name of a definition in any context. -/
def Apart (x : Expansion) (y : String) : Prop :=
  ∀ f ∈ x.functions, ∀ n ∈ f.model.nodes, ∀ k < x.maxContexts, scopedId k n.id ≠ incoming y

/-- The node `y` has at least the values of `o`: it is that operation, or joins what gives them. -/
def Feeds (x : Expansion) (b : Builder) (y : String) (o : ValueOperation) : Prop :=
  b.op y = some o ∨ ∃ vs, b.op y = some (.join vs) ∧
    ((∃ a ∈ vs, o = .copy a) ∨ (Apart x y ∧ incoming y ∈ vs ∧ b.op (incoming y) = some o))

/-- The nodes that give `y` its values are as they were. -/
theorem Feeds.congr {x : Expansion} {b b' : Builder} {y : String} {o : ValueOperation}
    (h : Feeds x b y o) (hy : b'.op y = b.op y)
    (hkept : Apart x y → b'.op (incoming y) = b.op (incoming y)) : Feeds x b' y o := by
  rcases h with hop | ⟨vs, hvs, hfeed⟩
  · exact .inl (hy.trans hop)
  · refine .inr ⟨vs, hy.trans hvs, hfeed.imp_right ?_⟩
    rintro ⟨hapart, hmem, hop⟩
    exact ⟨hapart, hmem, (hkept hapart).trans hop⟩

/-- An operation that a call in context `k` may have: unknown, or the result of a context whose
parameters get the arguments. -/
def Linked (x : Expansion) (l : Layout) (k : ℕ) (c : ExactValueCall) (o : ValueOperation) : Prop :=
  (∃ boundary, o = .unknown boundary) ∨
    ∃ j g, l.contexts[j]? = some (g, "result") ∧ function? x.functions c.target = some g ∧
      o = .copy (scopedId j "result") ∧
      ∀ p a, (p, a) ∈ g.parameters.zip c.arguments →
        (scopedId j p, ValueOperation.copy (scopedId k a)) ∈ l.feeds

variable {o : ValueOperation} {x : Expansion}

theorem Linked.mono {l l' : Layout} (hle : l ≤ l') {k : ℕ} {c : ExactValueCall}
    (h : Linked x l k c o) : Linked x l' k c o := by
  rcases h with h | ⟨j, g, hj, hg, ho, hfeeds⟩
  · exact .inl h
  · exact .inr ⟨j, g, Layout.getElem?_of_le hle hj, hg, ho, fun p a hpa ↦ hle.2 (hfeeds p a hpa)⟩

/-- What is asked of a program that is expanded. -/
structure Expansion.Checked (x : Expansion) : Prop where
  owners : (x.functions.map (·.owner)).Nodup
  functions : ∀ f ∈ x.functions, f.Checked x.functions
  plain : ∀ f ∈ x.functions, ∀ n ∈ f.model.nodes, Plain n.id

theorem Expansion.Checked.eq_of_owner (hx : x.Checked) {f g : FunctionValues} (hf : f ∈ x.functions)
    (hg : g ∈ x.functions) (h : f.owner = g.owner) : f = g :=
  inj_on_of_nodup_map hx.owners hf hg h

theorem Expansion.Checked.function?_eq_some_iff (hx : x.Checked) {owner : String}
    {f : FunctionValues} :
    function? x.functions owner = some f ↔ f ∈ x.functions ∧ f.owner = owner := by
  constructor
  · intro hf
    exact ⟨mem_of_find?_eq_some hf, by simpa using List.find?_some hf⟩
  · rintro ⟨hf, rfl⟩
    obtain ⟨g, hg⟩ := Option.isSome_iff_exists.mp
      (List.find?_isSome.mpr ⟨f, hf, by simp⟩ : (function? x.functions f.owner).isSome)
    have howner : g.owner = f.owner := by simpa using List.find?_some hg
    exact hg.trans (congrArg some (hx.eq_of_owner (mem_of_find?_eq_some hg) hf howner))

/-! ## Summaries -/

/-- The summaries that a builder keeps are those that would be made now. -/
def Expansion.Summarizes [Sha256] (x : Expansion) (b : Builder) : Prop :=
  ∀ f ∈ x.functions, ∀ t summary, b.summaries[(f.owner, t)]? = some summary →
    summary.nodes = (Builder.summarize x f t).nodes ∧
      summary.calls = (Builder.summarize x f t).calls

/-- Nothing but the summaries changes when one is made. -/
theorem Builder.prepare_snd [Sha256] (x : Expansion) (f : FunctionValues) (t : String)
    (b : Builder) :
    (b.prepare x f t).2 = { b with summaries := (b.prepare x f t).2.summaries } := by
  rw [Builder.prepare]
  split <;> rfl

namespace Expansion.Summarizes

variable [Sha256] {x : Expansion} {b b' : Builder} {f : FunctionValues}

/-- One more summary is kept. -/
theorem insert (h : x.Summarizes b) (howners : (x.functions.map (·.owner)).Nodup)
    (hf : f ∈ x.functions) {t : String} {summary : PreparedSummary}
    (hb' : b'.summaries = b.summaries.insert (f.owner, t) summary)
    (hnodes : summary.nodes = (Builder.summarize x f t).nodes)
    (hcalls : summary.calls = (Builder.summarize x f t).calls) : x.Summarizes b' := by
  intro g hg u kept hkept
  rw [hb', ExtTreeMap.getElem?_insert] at hkept
  split at hkept
  · rename_i heq
    obtain ⟨howner, rfl⟩ := Prod.mk.inj (LawfulEqCmp.eq_of_compare heq)
    obtain rfl := inj_on_of_nodup_map howners hf hg howner
    rw [← Option.some.inj hkept]
    exact ⟨hnodes, hcalls⟩
  · exact h g hg u kept hkept

theorem prepare (h : x.Summarizes b) (howners : (x.functions.map (·.owner)).Nodup)
    (hf : f ∈ x.functions) (t : String) : x.Summarizes (b.prepare x f t).2 ∧
      (b.prepare x f t).1.nodes = (Builder.summarize x f t).nodes ∧
      (b.prepare x f t).1.calls = (Builder.summarize x f t).calls := by
  rw [Builder.prepare]
  split
  · rename_i summary hsummary
    exact ⟨h, h f hf t summary hsummary⟩
  · exact ⟨h.insert howners hf rfl rfl rfl, rfl, rfl⟩

end Expansion.Summarizes

/-- The nodes of the builder are laid out as `l` says. -/
structure Built [Sha256] (x : Expansion) (l : Layout) (b : Builder) : Prop where
  count : b.contexts = l.contexts.length
  bound : l.contexts.length ≤ x.maxContexts
  known : ∀ c ∈ l.contexts, c.1 ∈ x.functions
  summaries : ∀ f ∈ x.functions, ∀ t summary, b.summaries[(f.owner, t)]? = some summary →
    summary.nodes = (Builder.summarize x f t).nodes ∧
      summary.calls = (Builder.summarize x f t).calls
  ids : b.IdsMatch
  plain : ∀ k f t, l.contexts[k]? = some (f, t) → ∀ n ∈ f.model.nodes, n.id ∈ relevant f t →
    n.id ∉ f.parameters → f.call? n.id = none →
      b.op (scopedId k n.id) = some (remap n.operation k)
  called : ∀ k f t, l.contexts[k]? = some (f, t) → ∀ c ∈ f.calls, c.definition ∈ relevant f t →
    ∃ o, b.op (scopedId k c.definition) = some o ∧ Linked x l k c o
  fed : ∀ y o, (y, o) ∈ l.feeds → Feeds x b y o
  feedsAt : ∀ y o, (y, o) ∈ l.feeds → o.isJoin = false ∧
    ∃ k f t p, l.contexts[k]? = some (f, t) ∧ p ∈ f.parameters ∧ y = scopedId k p
  supplied : ∀ k f t, l.contexts[k]? = some (f, t) → ∀ p ∈ f.parameters,
    ∃ o, (scopedId k p, o) ∈ l.feeds

/-- What a context binds to its parameters: the arguments, or for the entry what they are. -/
def bindings (f : FunctionValues) (k : ℕ) (actuals : Option (List String)) :
    Set (String × ValueOperation) :=
  match actuals with
  | none => {y | ∃ n ∈ f.model.nodes, n.id ∈ f.parameters ∧ y = (scopedId k n.id, n.operation)}
  | some arguments =>
    {y | ∃ q ∈ f.parameters.zip arguments, y = (scopedId k q.1, ValueOperation.copy q.2)}

/-- The layout with one more context. -/
def Layout.withContext (l : Layout) (f : FunctionValues) (t : String) (k : ℕ)
    (actuals : Option (List String)) : Layout :=
  ⟨l.contexts ++ [(f, t)], l.feeds ∪ bindings f k actuals⟩

namespace Layout

variable {l : Layout} {f g : FunctionValues} {t u : String} {j k : ℕ}
    {actuals : Option (List String)}

theorem le_withContext : l ≤ l.withContext f t k actuals :=
  ⟨prefix_append _ _, Set.subset_union_left⟩

theorem getElem?_withContext_self :
    (l.withContext f t k actuals).contexts[l.contexts.length]? = some (f, t) :=
  List.getElem?_concat_length

/-- A context is an old one or the one that is added. -/
theorem of_getElem?_withContext (h : (l.withContext f t k actuals).contexts[j]? = some (g, u)) :
    l.contexts[j]? = some (g, u) ∨ (j = l.contexts.length ∧ g = f ∧ u = t) := by
  rw [withContext, List.getElem?_append] at h
  split_ifs at h with hlt
  · exact .inl h
  · obtain ⟨hj, h⟩ := List.getElem?_eq_some_iff.mp h
    rw [length_singleton] at hj
    rw [getElem_singleton] at h
    obtain ⟨rfl, rfl⟩ := Prod.mk.inj h
    exact .inr ⟨by omega, rfl, rfl⟩

end Layout

theorem remap_of_isParameter (h : isParameter o) (k : ℕ) : remap o k = o := by
  cases o with
  | input => rfl
  | nonNull => rfl
  | _ => simp [isParameter] at h

section Steps

variable [Sha256] {x : Expansion} {l : Layout} {b : Builder} {k : ℕ} {f : FunctionValues}
  {t : String}

namespace Built

theorem mem_functions (h : Built x l b) (hk : l.contexts[k]? = some (f, t)) : f ∈ x.functions :=
  h.known (f, t) (mem_of_getElem? hk)

theorem lt_maxContexts (h : Built x l b) (hk : l.contexts[k]? = some (f, t)) :
    k < x.maxContexts :=
  (List.getElem?_eq_some_iff.mp hk).1.trans_le h.bound

theorem plain_id (h : Built x l b) (hx : x.Checked) (hk : l.contexts[k]? = some (f, t))
    {n : ValueNode} (hn : n ∈ f.model.nodes) : Plain n.id :=
  hx.plain f (h.mem_functions hk) n hn

variable {o : ValueOperation}

section

variable (h : Built x l b)
include h

/-- A binding is about a parameter of a context that is open. -/
theorem exists_parameter (hx : x.Checked) {y : String} (hy : (y, o) ∈ l.feeds) :
    ∃ j g u, ∃ n ∈ g.model.nodes, l.contexts[j]? = some (g, u) ∧ n.id ∈ g.parameters ∧
      y = scopedId j n.id := by
  obtain ⟨-, j, g, u, p, hj, hp, rfl⟩ := h.feedsAt y o hy
  obtain ⟨n, hn, rfl, -⟩ := (hx.functions g (h.mem_functions hj)).exists_parameter hp
  exact ⟨j, g, u, n, hn, hj, hp, rfl⟩

/-- Two definitions of open contexts that have one name are one definition. -/
theorem eq_of_scopedId (hx : x.Checked) (hk : l.contexts[k]? = some (f, t)) {n m : ValueNode}
    (hn : n ∈ f.model.nodes) {j : ℕ} {g : FunctionValues} {u : String}
    (hj : l.contexts[j]? = some (g, u)) (hm : m ∈ g.model.nodes)
    (heq : scopedId j m.id = scopedId k n.id) : j = k ∧ g = f ∧ u = t ∧ m.id = n.id := by
  obtain ⟨rfl, hid⟩ := scopedId_injective (h.plain_id hx hj hm) (h.plain_id hx hk hn) heq
  obtain ⟨rfl, rfl⟩ := Prod.mk.inj (Option.some.inj (hj.symm.trans hk))
  exact ⟨rfl, rfl, rfl, hid⟩

/-- A call that keeps its operation is linked as before. -/
theorem called_congr {l' : Layout} {b' : Builder} (hle : l ≤ l')
    (hk : l.contexts[k]? = some (f, t)) {c : ExactValueCall} (hc : c ∈ f.calls)
    (hrel : c.definition ∈ relevant f t)
    (hkept : b'.op (scopedId k c.definition) = b.op (scopedId k c.definition)) :
    ∃ o, b'.op (scopedId k c.definition) = some o ∧ Linked x l' k c o := by
  obtain ⟨o, ho, hlinked⟩ := h.called k f t hk c hc hrel
  exact ⟨o, hkept.trans ho, hlinked.mono hle⟩

/-- A call of an open context is given another operation that it may have. -/
theorem answer (hx : x.Checked) (hk : l.contexts[k]? = some (f, t)) {c : ExactValueCall}
    (hc : c ∈ f.calls) (hrel : c.definition ∈ relevant f t) (ho : Linked x l k c o) :
    Built x l (b.setOperation (scopedId k c.definition) o) := by
  have hf := hx.functions f (h.mem_functions hk)
  obtain ⟨n, hn, hid, -⟩ := hf.exists_definition hc
  obtain ⟨old, hold, -⟩ := h.called k f t hk c hc hrel
  rw [← hid] at hold ⊢
  -- other nodes keep their operations
  have hother : ∀ {y : String}, y ≠ scopedId k n.id →
      (b.setOperation (scopedId k n.id) o).op y = b.op y := by
    intro y hne
    rw [Builder.op_setOperation, if_neg hne.symm]
  refine ⟨h.count, h.bound, h.known, h.summaries, h.ids.setOperation _ _, ?_, ?_, ?_, h.feedsAt,
    h.supplied⟩
  · intro j g u hj m hm hmrel hmparam hmcall
    rw [hother, h.plain j g u hj m hm hmrel hmparam hmcall]
    intro heq
    obtain ⟨rfl, rfl, rfl, hdef⟩ := h.eq_of_scopedId hx hk hn hj hm heq
    rw [hdef, hid, hf.call?_eq_some hc] at hmcall
    cases hmcall
  · intro j g u hj c' hc' hrel'
    obtain ⟨m, hm, hmid, -⟩ := (hx.functions g (h.mem_functions hj)).exists_definition hc'
    by_cases heq : scopedId j m.id = scopedId k n.id
    · obtain ⟨rfl, rfl, rfl, hdef⟩ := h.eq_of_scopedId hx hk hn hj hm heq
      have hcall := hf.call?_eq_some hc'
      rw [← hmid, hdef, hid, hf.call?_eq_some hc, Option.some.injEq] at hcall
      exact ⟨o, by simp [← hmid, hdef, hold], hcall ▸ ho⟩
    · exact h.called_congr (Layout.le_refl l) hj hc' hrel' (hmid ▸ hother heq)
  · intro y o' hy
    obtain ⟨j, g, u, m, hm, hj, hp, rfl⟩ := h.exists_parameter hx hy
    refine (h.fed _ _ hy).congr (hother fun heq ↦ ?_) fun hapart ↦
      hother (hapart f (h.mem_functions hk) n hn k (h.lt_maxContexts hk)).symm
    obtain ⟨rfl, rfl, rfl, hdef⟩ := h.eq_of_scopedId hx hk hn hj hm heq
    exact hf.parameter_ne_definition hp hc (hdef.trans hid)

theorem isSome_op_parameter (hk : l.contexts[k]? = some (f, t)) {p : String} (hp : p ∈ f.parameters)
    : (b.op (scopedId k p)).isSome := by
  obtain ⟨o, ho⟩ := h.supplied k f t hk p hp
  rcases h.fed _ _ ho with hop | ⟨vs, hvs, -⟩
  · rw [hop]
    rfl
  · rw [hvs]
    rfl

/-- An argument is joined into a parameter of an open context. -/
theorem joinParameter (hx : x.Checked) (hk : l.contexts[k]? = some (f, t)) {p : String}
    (hp : p ∈ f.parameters) (hapart : Apart x (scopedId k p)) (a : String) :
    Built x ⟨l.contexts, insert (scopedId k p, .copy a) l.feeds⟩
      (b.joinParameter (scopedId k p) a) := by
  have hle : l ≤ ⟨l.contexts, insert (scopedId k p, .copy a) l.feeds⟩ :=
    ⟨prefix_rfl, Set.subset_insert _ _⟩
  obtain ⟨n, hn, rfl, -⟩ := (hx.functions f (h.mem_functions hk)).exists_parameter hp
  obtain ⟨vs, hvs, hmem, hframe, hkept, hjoined⟩ :=
    Builder.op_joinParameter a (h.isSome_op_parameter hk hp)
  -- a definition that is not this parameter keeps its operation
  have hother : ∀ {j : ℕ} {g : FunctionValues} {u : String} {m : ValueNode},
      l.contexts[j]? = some (g, u) → m ∈ g.model.nodes → scopedId j m.id ≠ scopedId k n.id →
      (b.joinParameter (scopedId k n.id) a).op (scopedId j m.id) = b.op (scopedId j m.id) :=
    fun hj hm hne ↦ hframe _ hne (hapart _ (h.mem_functions hj) _ hm _ (h.lt_maxContexts hj))
  obtain ⟨hcontexts, hsummaries⟩ := Builder.joinParameter_frame b (scopedId k n.id) a
  refine ⟨hcontexts.trans h.count, h.bound, h.known, hsummaries ▸ h.summaries,
    h.ids.joinParameter _ _, ?_, ?_, ?_, ?_, ?_⟩
  · intro j g u hj m hm hrel hparam hcall
    rw [hother hj hm, h.plain j g u hj m hm hrel hparam hcall]
    intro heq
    obtain ⟨rfl, rfl, rfl, hid⟩ := h.eq_of_scopedId hx hk hn hj hm heq
    exact hparam (hid ▸ hp)
  · intro j g u hj c hc hrel
    have hg := hx.functions g (h.mem_functions hj)
    obtain ⟨m, hm, hid, -⟩ := hg.exists_definition hc
    refine h.called_congr hle hj hc hrel (hid ▸ hother hj hm fun heq ↦ ?_)
    obtain ⟨rfl, rfl, rfl, hid'⟩ := h.eq_of_scopedId hx hk hn hj hm heq
    exact hg.parameter_ne_definition hp hc (hid' ▸ hid)
  · intro y o hfeeds
    rcases Set.mem_insert_iff.mp hfeeds with heq | hy
    · obtain ⟨rfl, rfl⟩ := Prod.mk.inj heq
      exact .inr ⟨vs, hvs, .inl ⟨a, hmem, rfl⟩⟩
    · have hjoin := (h.feedsAt y o hy).1
      obtain ⟨j, g, u, m, hm, hj, hq, rfl⟩ := h.exists_parameter hx hy
      by_cases heq : scopedId j m.id = scopedId k n.id
      · rw [heq] at hy ⊢
        refine .inr ⟨vs, hvs, ?_⟩
        rcases h.fed _ _ hy with hop | ⟨vs₀, hvs₀, ⟨a₀, ha₀, rfl⟩ | ⟨-, hin, hop⟩⟩
        · exact .inr ⟨hapart, hkept o hjoin hop⟩
        · exact .inl ⟨a₀, (hjoined vs₀ hvs₀).1 a₀ ha₀, rfl⟩
        · exact .inr ⟨hapart, (hjoined vs₀ hvs₀).1 _ hin, (hjoined vs₀ hvs₀).2.trans hop⟩
      · refine (h.fed _ _ hy).congr (hother hj hm heq) fun hin ↦
          hframe _ (fun hname ↦ ?_) fun hname ↦ heq (incoming_injective hname)
        exact hin f (h.mem_functions hk) n hn k (h.lt_maxContexts hk) hname.symm
  · intro y o hy
    rcases Set.mem_insert_iff.mp hy with heq | hy
    · obtain ⟨rfl, rfl⟩ := Prod.mk.inj heq
      exact ⟨rfl, k, f, t, n.id, hk, hp, rfl⟩
    · exact h.feedsAt y o hy
  · intro j g u hj q hq
    obtain ⟨o, ho⟩ := h.supplied j g u hj q hq
    exact ⟨o, hle.2 ho⟩

/-- A summary is what it would be if it were made now. -/
theorem prepare (hx : x.Checked) (hf : f ∈ x.functions) (t : String) :
    Built x l (b.prepare x f t).2 ∧
      (b.prepare x f t).1.nodes = (Builder.summarize x f t).nodes ∧
      (b.prepare x f t).1.calls = (Builder.summarize x f t).calls ∧
      (b.prepare x f t).2.nodes = b.nodes ∧ (b.prepare x f t).2.contexts = b.contexts := by
  have hsummaries : x.Summarizes b := h.summaries
  obtain ⟨hkept, hnodes, hcalls⟩ := hsummaries.prepare hx.owners hf t
  have hsame := Builder.prepare_snd x f t b
  refine ⟨?_, hnodes, hcalls, by rw [hsame], by rw [hsame]⟩
  rw [hsame]
  exact ⟨h.count, h.bound, h.known, hkept, h.ids, h.plain, h.called, h.fed, h.feedsAt, h.supplied⟩

/-- What placing a summary does to the operations. -/
theorem op_place (hx : x.Checked) (hf : f ∈ x.functions) (t : String) :
    (∀ y, (∀ n ∈ f.model.nodes, scopedId k n.id ≠ y) →
      ((b.prepare x f t).2.place f k t (b.prepare x f t).1).op y = b.op y) ∧
    ∀ n ∈ f.model.nodes, n.id ∈ relevant f t →
      ((b.prepare x f t).2.place f k t (b.prepare x f t).1).op (scopedId k n.id)
        = some (remap n.operation k) := by
  obtain ⟨-, hnodes, -, hsame, -⟩ := h.prepare hx hf t
  have hmem : ∀ n, n ∈ (b.prepare x f t).1.nodes ↔ n ∈ f.model.nodes ∧ n.id ∈ relevant f t := by
    intro n
    rw [hnodes, Builder.summarize, mem_filter, decide_eq_true_eq]
  have hnodup : (b.prepare x f t).1.nodes.Pairwise (·.id ≠ ·.id) := by
    rw [hnodes]
    exact ((hx.functions f hf).model.ordered.imp fun hlt ↦ hlt.ne).filter _
  obtain ⟨hnew, hold⟩ :=
    Builder.getElem?_insertMany_placed (b.prepare x f t).2.nodes (k := k) hnodup
  constructor
  · intro y hy
    rw [Builder.op, Builder.place, hold y fun n hn ↦ hy n ((hmem n).mp hn).1, hsame, Builder.op]
  · intro n hn hrel
    rw [Builder.op, Builder.place, hnew n ((hmem n).mpr ⟨hn, hrel⟩)]
    rfl

end

variable {actuals : Option (List String)}

/-- What opening a context does to the operations. -/
theorem op_openContext (h : Built x l b) (hx : x.Checked) (hf : f ∈ x.functions)
    (harity : ∀ arguments ∈ actuals, f.parameters.length = arguments.length) :
    (∀ y, (∀ n ∈ f.model.nodes, scopedId b.contexts n.id ≠ y) →
      (b.openContext x f actuals).2.op y = b.op y) ∧
    (∀ n ∈ f.model.nodes, n.id ∈ relevant f (x.selectedTarget b.contexts) → n.id ∉ f.parameters →
      (b.openContext x f actuals).2.op (scopedId b.contexts n.id)
        = some (remap n.operation b.contexts)) ∧
    ∀ y o, (y, o) ∈ bindings f b.contexts actuals →
      (b.openContext x f actuals).2.op y = some o := by
  have hchecked := hx.functions f hf
  obtain ⟨hold, hnew⟩ := h.op_place hx hf (x.selectedTarget b.contexts) (k := b.contexts)
  have hparam : ∀ n ∈ f.model.nodes, n.id ∈ f.parameters →
      n.id ∈ relevant f (x.selectedTarget b.contexts) := fun n _ hp ↦ mem_relevant_iff.mpr (.inr hp)
  cases actuals with
  | none =>
    refine ⟨hold, fun n hn hrel _ ↦ hnew n hn hrel, ?_⟩
    rintro y o ⟨n, hn, hp, heq⟩
    obtain ⟨rfl, rfl⟩ := Prod.mk.inj heq
    obtain ⟨n', hn', hid, hop⟩ := hchecked.exists_parameter hp
    obtain rfl := hchecked.model.eq_of_id hn' hn hid
    exact (hnew n' hn (hparam n' hn hp)).trans (congrArg some (remap_of_isParameter hop _))
  | some arguments =>
    have hname : ∀ q ∈ f.parameters.zip arguments, ∃ n ∈ f.model.nodes, n.id = q.1 := fun q hq ↦ by
      obtain ⟨n, hn, hid, -⟩ := hchecked.exists_parameter (of_mem_zip hq).1
      exact ⟨n, hn, hid⟩
    refine ⟨fun y hy ↦ ?_, fun n hn hrel hp ↦ ?_, ?_⟩
    · refine (Builder.op_bindParameters_of_ne fun q hq ↦ ?_).trans (hold y hy)
      obtain ⟨n, hn, hid⟩ := hname q hq
      exact hid ▸ hy n hn
    · refine (Builder.op_bindParameters_of_ne fun q hq heq ↦ hp ?_).trans (hnew n hn hrel)
      obtain ⟨m, hm, hid⟩ := hname q hq
      rw [← (scopedId_injective (hid ▸ hx.plain f hf m hm) (hx.plain f hf n hn) heq).2]
      exact (of_mem_zip hq).1
    · rintro y o ⟨q, hq, heq⟩
      obtain ⟨rfl, rfl⟩ := Prod.mk.inj heq
      refine Builder.op_bindParameters ?_ hq ?_
      · have hnodup : (f.parameters.zip arguments).Pairwise fun q q' ↦ q.1 ≠ q'.1 := by
          have hfst : ((f.parameters.zip arguments).map Prod.fst).Nodup := by
            rw [map_fst_zip (harity arguments rfl).le]
            exact hchecked.parametersNodup
          exact pairwise_map.mp hfst
        refine hnodup.imp_of_mem fun {q q'} hq hq' hne heq ↦ hne ?_
        obtain ⟨n, hn, hid⟩ := hname q hq
        obtain ⟨n', hn', hid'⟩ := hname q' hq'
        exact (scopedId_injective (hid ▸ hx.plain f hf n hn) (hid' ▸ hx.plain f hf n' hn') heq).2
      · obtain ⟨n, hn, hid⟩ := hname q hq
        have hop := hnew n hn (hparam n hn (hid ▸ (of_mem_zip hq).1))
        rw [hid] at hop
        exact Option.isSome_iff_exists.mpr ⟨_, hop⟩

theorem ids_openContext (h : Built x l b) (hx : x.Checked) (hf : f ∈ x.functions)
    (actuals : Option (List String)) : (b.openContext x f actuals).2.IdsMatch := by
  obtain ⟨hprepared, hnodes, -, -, -⟩ := h.prepare hx hf (x.selectedTarget b.contexts)
  have hplaced : ((b.prepare x f (x.selectedTarget b.contexts)).2.place f b.contexts
      (x.selectedTarget b.contexts) (b.prepare x f (x.selectedTarget b.contexts)).1).IdsMatch := by
    refine hprepared.ids.insertMany_placed rfl ?_
    rw [hnodes]
    exact ((hx.functions f hf).model.ordered.imp fun hlt ↦ hlt.ne).filter _
  cases actuals with
  | none => exact hplaced
  | some arguments => exact hplaced.bindParameters _ _

theorem contexts_openContext (b : Builder) (actuals : Option (List String)) :
    (b.openContext x f actuals).2.contexts = b.contexts + 1 := by
  cases actuals with
  | none => rfl
  | some arguments => exact (Builder.bindParameters_frame _ _ _).1

theorem summaries_openContext (h : Built x l b) (hx : x.Checked) (hf : f ∈ x.functions)
    (actuals : Option (List String)) : x.Summarizes (b.openContext x f actuals).2 := by
  obtain ⟨hprepared, hnodes, hcalls, -, -⟩ := h.prepare hx hf (x.selectedTarget b.contexts)
  have hsummaries : x.Summarizes (b.prepare x f (x.selectedTarget b.contexts)).2 :=
    hprepared.summaries
  cases actuals with
  | none => exact hsummaries.insert hx.owners hf rfl hnodes hcalls
  | some arguments =>
    exact hsummaries.insert hx.owners hf (Builder.bindParameters_frame _ _ _).2 hnodes hcalls

/-- Opening a context adds it to the layout, with what it binds to its parameters. -/
theorem openContext (h : Built x l b) (hx : x.Checked) (hf : f ∈ x.functions)
    (hlt : b.contexts < x.maxContexts)
    (harity : ∀ arguments ∈ actuals, f.parameters.length = arguments.length) :
    Built x (l.withContext f (x.selectedTarget b.contexts) b.contexts actuals)
      (b.openContext x f actuals).2 := by
  have hchecked := hx.functions f hf
  obtain ⟨hold, hnew, hbind⟩ := h.op_openContext hx hf harity
  have hcount := h.count
  have hthis : (l.withContext f (x.selectedTarget b.contexts) b.contexts actuals).contexts[
      l.contexts.length]? = some (f, x.selectedTarget b.contexts) :=
    Layout.getElem?_withContext_self
  -- the definitions of the old contexts keep their operations
  have hframe : ∀ {j : ℕ} {g : FunctionValues} {u : String} {m : ValueNode},
      l.contexts[j]? = some (g, u) → m ∈ g.model.nodes →
      (b.openContext x f actuals).2.op (scopedId j m.id) = b.op (scopedId j m.id) := by
    intro j g u m hj hm
    refine hold _ fun n hn heq ↦ ?_
    have hnum := (scopedId_injective (hx.plain f hf n hn) (h.plain_id hx hj hm) heq).1
    have hbound := (List.getElem?_eq_some_iff.mp hj).1
    omega
  refine ⟨?_, ?_, ?_, h.summaries_openContext hx hf actuals, h.ids_openContext hx hf actuals,
    ?_, ?_, ?_, ?_, ?_⟩
  · rw [contexts_openContext, Layout.withContext, length_append, length_singleton, hcount]
  · rw [Layout.withContext, length_append, length_singleton]
    omega
  · intro c hc
    rcases mem_append.mp hc with hc | hc
    · exact h.known c hc
    · rw [mem_singleton.mp hc]
      exact hf
  · intro j g u hj n hn hrel hparam hcall
    rcases Layout.of_getElem?_withContext hj with hj | ⟨rfl, rfl, rfl⟩
    · exact (hframe hj hn).trans (h.plain j g u hj n hn hrel hparam hcall)
    · rw [← hcount]
      exact hnew n hn hrel hparam
  · intro j g u hj c hc hrel
    rcases Layout.of_getElem?_withContext hj with hj | ⟨rfl, rfl, rfl⟩
    · obtain ⟨n, hn, hid, -⟩ := (hx.functions g (h.mem_functions hj)).exists_definition hc
      exact h.called_congr Layout.le_withContext hj hc hrel (hid ▸ hframe hj hn)
    · obtain ⟨n, hn, hid, boundary, hop⟩ := hchecked.exists_definition hc
      refine ⟨.unknown boundary, ?_, .inl ⟨boundary, rfl⟩⟩
      have hnode := hnew n hn (hid ▸ hrel) fun hp ↦ hchecked.parameter_ne_definition hp hc hid
      rwa [hid, hop, hcount] at hnode
  · rintro y o (hy | hy)
    · obtain ⟨j, g, u, n, hn, hj, hp, rfl⟩ := h.exists_parameter hx hy
      exact (h.fed _ _ hy).congr (hframe hj hn) fun hapart ↦
        hold _ fun m hm ↦ hapart f hf m hm b.contexts hlt
    · exact .inl (hbind y o hy)
  · rintro y o (hy | hy)
    · obtain ⟨hjoin, j, g, u, p, hj, hp, rfl⟩ := h.feedsAt y o hy
      exact ⟨hjoin, j, g, u, p, Layout.getElem?_of_le Layout.le_withContext hj, hp, rfl⟩
    · rw [← hcount] at hthis
      cases actuals with
      | none =>
        obtain ⟨n, hn, hp, heq⟩ := hy
        obtain ⟨rfl, rfl⟩ := Prod.mk.inj heq
        refine ⟨?_, b.contexts, f, _, n.id, hthis, hp, rfl⟩
        obtain ⟨n', hn', hid, hop⟩ := hchecked.exists_parameter hp
        obtain rfl := hchecked.model.eq_of_id hn' hn hid
        cases hcase : n'.operation <;> simp_all [isParameter, ValueOperation.isJoin]
      | some arguments =>
        obtain ⟨q, hq, heq⟩ := hy
        obtain ⟨rfl, rfl⟩ := Prod.mk.inj heq
        exact ⟨rfl, b.contexts, f, _, q.1, hthis, (of_mem_zip hq).1, rfl⟩
  · intro j g u hj p hp
    rcases Layout.of_getElem?_withContext hj with hj | ⟨rfl, rfl, rfl⟩
    · obtain ⟨o, ho⟩ := h.supplied j g u hj p hp
      exact ⟨o, .inl ho⟩
    · rw [← hcount]
      cases actuals with
      | none =>
        obtain ⟨n, hn, rfl, -⟩ := hchecked.exists_parameter hp
        exact ⟨n.operation, .inr ⟨n, hn, hp, rfl⟩⟩
      | some arguments =>
        obtain ⟨i, hi, rfl⟩ := getElem_of_mem hp
        have hi' : i < arguments.length := (harity arguments rfl) ▸ hi
        refine ⟨.copy arguments[i], .inr ⟨(g.parameters[i], arguments[i]), ?_, rfl⟩⟩
        exact mem_iff_getElem.mpr ⟨i, by simpa using ⟨hi, hi'⟩, by simp⟩

end Built

end Steps

end Codeclew.Values
