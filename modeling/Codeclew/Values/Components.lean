import Codeclew.Association
import Codeclew.DepthFirst
import Codeclew.Values.Sound

/-!
# Recursive components

The functions of a program that are recursive are found by two searches of its calls, the first
along the calls and the second against them. `recursiveComponents_exact` says that these are the
components of the calls that have a cycle. A search is given a depth, which is enough because a call
is followed only from a function that has not been seen.
-/

namespace Codeclew.Values

open DepthFirst Relation List

/-! ## Graphs -/

/-- A function of the program calls another one. -/
def Calls (functions : List FunctionValues) (caller callee : String) : Prop :=
  ∃ f ∈ functions, f.owner = caller ∧ (∃ call ∈ f.calls, call.target = callee) ∧
    ∃ g ∈ functions, g.owner = callee

theorem CallGraph.mem_next_iff {graph : CallGraph} (hdistinct : (graph.map (·.1)).Nodup)
    {a b : String} : b ∈ graph.next a ↔ ∃ edge ∈ graph, edge.1 = a ∧ b ∈ edge.2 := by
  have hfind : ∀ edge, (graph.find? fun edge ↦ edge.1 = a) = some edge ↔ edge ∈ graph ∧
      edge.1 = a :=
    fun edge ↦ Association.find_eq_some_iff hdistinct
  have hmem : b ∈ graph.next a
      ↔ ∃ edge, (graph.find? fun edge ↦ edge.1 = a) = some edge ∧ b ∈ edge.2 := by
    rw [CallGraph.next]
    cases graph.find? fun edge ↦ edge.1 = a <;> simp
  simp only [hmem, hfind, and_assoc]

section Graphs

variable {functions : List FunctionValues}

theorem map_fst_callGraph_perm :
    ((callGraph functions).map (·.1)).Perm (functions.map (·.owner)) := by
  rw [callGraph, List.map_map]
  exact (List.mergeSort_perm functions _).map _

theorem map_fst_reverseGraph (graph : CallGraph) :
    (reverseGraph graph).map (·.1) = graph.map (·.1) := by
  rw [reverseGraph, List.map_map]
  rfl

variable (hdistinct : (functions.map (·.owner)).Nodup)
include hdistinct

theorem mem_next_callGraph_iff {a b : String} :
    b ∈ (callGraph functions).next a ↔ Calls functions a b := by
  rw [CallGraph.mem_next_iff (map_fst_callGraph_perm.nodup_iff.mpr hdistinct)]
  simp [callGraph, Calls]

theorem mem_next_reverseGraph_iff {a b : String} :
    b ∈ (reverseGraph (callGraph functions)).next a ↔ Calls functions b a := by
  have hkeys : ((callGraph functions).map (·.1)).Nodup :=
    map_fst_callGraph_perm.nodup_iff.mpr hdistinct
  rw [CallGraph.mem_next_iff (by rwa [map_fst_reverseGraph]), ← mem_next_callGraph_iff hdistinct,
    CallGraph.mem_next_iff hkeys]
  constructor
  · rintro ⟨edge, hedge, rfl, hb⟩
    obtain ⟨entry, hentry, rfl⟩ := mem_map.mp hedge
    obtain ⟨caller, hcaller, hmem⟩ := mem_flatMap.mp hb
    obtain ⟨target, htarget, rfl⟩ := mem_map.mp hmem
    obtain ⟨htarget, heq⟩ := mem_filter.mp htarget
    exact ⟨caller, hcaller, rfl, of_decide_eq_true heq ▸ htarget⟩
  · rintro ⟨caller, hcaller, rfl, ha⟩
    have howner : a ∈ (callGraph functions).map (·.1) := by
      rw [map_fst_callGraph_perm.mem_iff]
      obtain ⟨-, -, -, -, g, hg, rfl⟩ := (mem_next_callGraph_iff hdistinct).mp
        ((CallGraph.mem_next_iff hkeys).mpr ⟨caller, hcaller, rfl, ha⟩)
      exact mem_map_of_mem hg
    obtain ⟨entry, hentry, rfl⟩ := mem_map.mp howner
    refine ⟨_, mem_map_of_mem hentry, rfl, mem_flatMap.mpr ⟨caller, hcaller, ?_⟩⟩
    exact mem_map.mpr ⟨entry.1, mem_filter.mpr ⟨ha, decide_eq_true rfl⟩, rfl⟩

end Graphs

/-! ## Searches -/

section Searches

variable {nodes : Finset String}

/-- There are fewer nodes that have not been seen. -/
def Left (nodes : Finset String) (depth : ℕ) (s : List String × List String) : Prop :=
  (nodes.filter (· ∉ s.1)).card < depth

variable {depth : ℕ}

theorem Left.mono {s s' : List String × List String} (hsub : s.1 ⊆ s'.1) (h : Left nodes depth s) :
    Left nodes depth s' := by
  refine (Finset.card_le_card fun x hx ↦ ?_).trans_lt h
  simp only [Finset.mem_filter] at hx ⊢
  exact ⟨hx.1, fun hmem ↦ hx.2 (hsub hmem)⟩

theorem Left.cons {owner : String} {seen order : List String}
    (h : Left nodes (depth + 1) (seen, order)) (howner : owner ∈ nodes) (hseen : owner ∉ seen) :
    Left nodes depth (owner :: seen, order) := by
  refine Nat.lt_of_lt_of_le (Finset.card_lt_card ?_) (Nat.lt_succ_iff.mp h)
  refine (Finset.ssubset_iff_of_subset fun x hx ↦ ?_).mpr ⟨owner, ?_, ?_⟩
  · simp only [Finset.mem_filter, mem_cons, not_or] at hx ⊢
    exact ⟨hx.1, hx.2.2⟩
  · simp [howner, hseen]
  · simp

/-- A visit that may go deeper than there are nodes left is a search. -/
theorem visited_visit {graph : CallGraph} {r : String → String → Prop}
    (hnext : ∀ a b, b ∈ graph.next a ↔ r a b) (hnodes : ∀ a b, r a b → b ∈ nodes) {owner : String}
    {s : List String × List String} (howner : owner ∈ nodes) (hdepth : Left nodes depth s) :
    Visited r [owner] s (visit graph depth owner s) := by
  induction depth generalizing owner s with
  | zero => cases hdepth
  | succ depth ih =>
    obtain ⟨seen, order⟩ := s
    rw [visit]
    split
    · rename_i hseen
      exact visited_seen hseen
    · rename_i hseen
      have hcallees : Visited r (graph.next owner) (owner :: seen, order)
          ((graph.next owner).foldl (fun found next ↦ visit graph depth next found)
            (owner :: seen, order)) := by
        refine visited_foldl (fun _ _ ↦ Left.mono) _ (fun b hb s hs ↦ ?_)
          (hdepth.cons howner hseen)
        exact ih (hnodes owner b ((hnext owner b).mp hb)) hs
      exact hcallees.node hseen (hnext owner)

end Searches

/-! ## Components -/

section Components

/-- One round of the second search. -/
def collect (reverse : CallGraph) (depth : ℕ) (found : List String × List (List String))
    (owner : String) : List String × List (List String) :=
  if owner ∈ found.1 then found
  else
    let (seen, group) := visit reverse depth owner (found.1, [])
    (seen, found.2 ++ [group.insertionSort (· ≤ ·)])

/-- The functions, each after what it calls except for cycles. -/
def finishingOrder (functions : List FunctionValues) : List String :=
  ((callGraph functions).foldl (fun found edge ↦
    visit (callGraph functions) ((callGraph functions).length + 1) edge.1 found) ([], [])).2

/-- What the second search ends with. -/
def collected (functions : List FunctionValues) (order : List String) :
    List String × List (List String) :=
  order.foldr (fun owner found ↦ collect (reverseGraph (callGraph functions))
    ((callGraph functions).length + 1) found owner) ([], [])

variable {functions : List FunctionValues}

theorem recursiveComponents_eq : recursiveComponents functions
    = ((collected functions (finishingOrder functions)).2.filter fun group ↦ 1 < group.length ||
        group.any fun owner ↦ owner ∈ (callGraph functions).next owner).insertionSort (· ≤ ·) := by
  rw [collected, ← foldl_reverse]
  rfl

theorem sortedLT_insertionSort {β : Type} [LinearOrder β] {xs : List β} (h : xs.Nodup) :
    (xs.insertionSort (· ≤ ·)).SortedLT :=
  sortedLE_insertionSort.sortedLT_of_nodup ((perm_insertionSort _ xs).nodup_iff.mpr h)

/-- The depth is enough. -/
theorem left_callGraph (s : List String × List String) :
    Left (functions.map (·.owner)).toFinset ((callGraph functions).length + 1) s := by
  have hlength : (callGraph functions).length = functions.length := by
    simp [callGraph]
  refine Nat.lt_succ_iff.mpr ((Finset.card_filter_le _ _).trans ?_)
  refine (toFinset_card_le _).trans ?_
  rw [length_map, hlength]

theorem Calls.mem_left {a b : String} (h : Calls functions a b) :
    a ∈ functions.map (·.owner) := by
  obtain ⟨f, hf, rfl, -⟩ := h
  exact mem_map_of_mem hf

theorem Calls.mem_right {a b : String} (h : Calls functions a b) :
    b ∈ functions.map (·.owner) := by
  obtain ⟨-, -, -, -, g, hg, rfl⟩ := h
  exact mem_map_of_mem hg

/-- The invariant of the second search: its lists are the components of what it has seen, which are
at least the functions it has gone through. -/
structure Collected (functions : List FunctionValues) (done : List String)
    (found : List String × List (List String)) : Prop where
  components : Components (Calls functions) {x | x ∈ found.1} found.2
  done : ∀ x ∈ done, x ∈ found.1
  sorted : ∀ group ∈ found.2, group.SortedLT

section Distinct

variable (hdistinct : (functions.map (·.owner)).Nodup)
include hdistinct

theorem found_finishingOrder :
    Found (Calls functions) ∅ ((callGraph functions).map (·.1)) (finishingOrder functions) := by
  have hvisited : Visited (Calls functions) ((callGraph functions).map (·.1)) ([], [])
      (((callGraph functions).map (·.1)).foldl (fun found owner ↦
        visit (callGraph functions) ((callGraph functions).length + 1) owner found) ([], [])) := by
    refine visited_foldl (P := fun _ ↦ True) (fun _ _ _ h ↦ h) _ (fun a ha s _ ↦ ?_) trivial
    have howner : a ∈ (functions.map (·.owner)).toFinset :=
      mem_toFinset.mpr (map_fst_callGraph_perm.mem_iff.mp ha)
    exact visited_visit (fun _ _ ↦ mem_next_callGraph_iff hdistinct)
      (fun a b hcalls ↦ mem_toFinset.mpr hcalls.mem_right) howner (left_callGraph s)
  rw [foldl_map] at hvisited
  obtain ⟨found, hlist, -, hfound⟩ := hvisited
  rw [finishingOrder, hlist]
  simpa using hfound

theorem mem_finishingOrder_iff {a : String} :
    a ∈ finishingOrder functions ↔ a ∈ functions.map (·.owner) := by
  rw [(found_finishingOrder hdistinct).mem_iff]
  constructor
  · rintro ⟨b, hb, -, hba⟩
    cases hba with
    | refl => exact map_fst_callGraph_perm.mem_iff.mp hb
    | tail _ hstep => exact hstep.1.mem_right
  · intro ha
    exact ⟨a, map_fst_callGraph_perm.mem_iff.mpr ha, Set.notMem_empty a, .refl⟩

variable {before behind : List String}

/-- A round of the second search, with everything behind the function seen. -/
theorem Collected.collect {a : String} {found : List String × List (List String)}
    (h : Collected functions behind found)
    (horder : finishingOrder functions = before ++ a :: behind) :
    Collected functions (a :: behind) (collect (reverseGraph (callGraph functions))
      ((callGraph functions).length + 1) found a) := by
  have howner : a ∈ (functions.map (·.owner)).toFinset := by
    refine mem_toFinset.mpr ((mem_finishingOrder_iff hdistinct).mp ?_)
    rw [horder]
    exact mem_append_right _ mem_cons_self
  rw [Values.collect]
  split
  · rename_i hseen
    exact ⟨h.components, forall_mem_cons.mpr ⟨hseen, h.done⟩, h.sorted⟩
  · rename_i hseen
    have hvisited : Visited (Function.swap (Calls functions)) [a] (found.1, [])
        (visit (reverseGraph (callGraph functions)) ((callGraph functions).length + 1) a
          (found.1, [])) :=
      visited_visit (fun _ _ ↦ mem_next_reverseGraph_iff hdistinct)
        (fun x y hcalls ↦ mem_toFinset.mpr (Calls.mem_left hcalls)) howner (left_callGraph _)
    obtain ⟨group, hlist, hmem, hfound⟩ := hvisited
    dsimp only at hlist hmem hfound ⊢
    rw [nil_append] at hlist
    rw [hlist]
    have hunion : {x | x ∈ (visit (reverseGraph (callGraph functions))
        ((callGraph functions).length + 1) a (found.1, [])).1}
        = {x | x ∈ found.1} ∪ {x | x ∈ group} := Set.ext hmem
    have hfinished : Finished (Calls functions) ∅ (before ++ a :: behind) :=
      horder ▸ (found_finishingOrder hdistinct).finished
    have hall : ∀ x y, Calls functions x y → x ∈ before ++ a :: behind := fun x y hcalls ↦
      horder ▸ (mem_finishingOrder_iff hdistinct).mpr hcalls.mem_left
    constructor
    · rw [hunion]
      exact h.components.step hfinished hall h.done hseen hfound
        fun x ↦ mem_insertionSort _
    · refine forall_mem_cons.mpr ⟨(hmem a).mpr (.inr ?_), fun x hx ↦ ?_⟩
      · exact (hfound.mem_iff a).mpr ⟨a, mem_singleton_self a, hseen, .refl⟩
      · exact (hmem x).mpr (.inl (h.done x hx))
    · intro other hother
      rcases mem_append.mp hother with hother | hother
      · exact h.sorted other hother
      · rw [mem_singleton.mp hother]
        exact sortedLT_insertionSort hfound.nodup

theorem collected_of_suffix (horder : finishingOrder functions = before ++ behind) :
    Collected functions behind (collected functions behind) := by
  induction behind generalizing before with
  | nil =>
    have hempty : {x | x ∈ ([] : List String)} = ∅ := by simp
    exact ⟨hempty ▸ components_nil (Calls functions), nofun, nofun⟩
  | cons a behind ih =>
    have hrest : finishingOrder functions = (before ++ [a]) ++ behind := by simpa using horder
    exact (ih hrest).collect hdistinct horder

/-- The components of the calls that have a cycle are found, each once and in order. -/
theorem recursiveComponents_exact :
    (recursiveComponents functions).SortedLT ∧
      ∀ group, group ∈ recursiveComponents functions ↔ group.SortedLT ∧
        ∃ owner, TransGen (Calls functions) owner owner ∧
          ∀ x, x ∈ group ↔ Mutual (Calls functions) owner x := by
  have hall : finishingOrder functions = [] ++ finishingOrder functions := rfl
  have h := collected_of_suffix hdistinct hall
  have hcyclic : ∀ group : List String, (1 < group.length ||
      group.any fun owner ↦ owner ∈ (callGraph functions).next owner) = true
        ↔ 1 < group.length ∨ ∃ x ∈ group, Calls functions x x := by
    simp [mem_next_callGraph_iff hdistinct]
  rw [recursiveComponents_eq]
  refine ⟨sortedLT_insertionSort (h.components.nodup.filter _), fun group ↦ ?_⟩
  rw [mem_insertionSort, mem_filter, hcyclic]
  constructor
  · rintro ⟨hgroup, hcycle⟩
    have hsorted := h.sorted group hgroup
    obtain ⟨a, -, hmem⟩ := h.components.exact group hgroup
    exact ⟨hsorted, a, (transGen_iff_of_mutual hsorted.nodup hmem).mpr hcycle, hmem⟩
  · rintro ⟨hsorted, owner, hcycle, hmem⟩
    refine ⟨?_, (transGen_iff_of_mutual hsorted.nodup hmem).mp hcycle⟩
    -- the list that has the owner has the same members
    obtain ⟨b, hcalls, -⟩ := TransGen.head'_iff.mp hcycle
    have hseen := h.done owner ((mem_finishingOrder_iff hdistinct).mpr hcalls.mem_left)
    obtain ⟨other, hother, howner⟩ := (h.components.mem_iff owner).mp hseen
    obtain ⟨a, -, hmem'⟩ := h.components.exact other hother
    have hmutual : Mutual (Calls functions) a owner := (hmem' owner).mp howner
    have hsame : ∀ x, x ∈ group ↔ x ∈ other := by
      intro x
      rw [hmem, hmem']
      exact ⟨hmutual.trans, hmutual.symm.trans⟩
    have hperm : group.Perm other :=
      (perm_ext_iff_of_nodup hsorted.nodup (h.sorted other hother).nodup).mpr hsame
    have heq : group = other :=
      hperm.eq_of_pairwise' hsorted.pairwise (h.sorted other hother).pairwise
    exact heq ▸ hother

end Distinct

/-- `A` calls itself and `B`, which calls nothing. -/
theorem recursiveComponents_exact_caller :
    ["A"] ∈ recursiveComponents [exampleCaller, exampleIdentity] := by
  have hself : Calls [exampleCaller, exampleIdentity] "A" "A" :=
    ⟨exampleCaller, by simp, rfl, ⟨⟨"again", "A", ["b"]⟩, by simp [exampleCaller], rfl⟩,
      exampleCaller, by simp, rfl⟩
  have hcaller : ∀ x y, Calls [exampleCaller, exampleIdentity] x y → x = "A" := by
    rintro x y ⟨f, hf, rfl, ⟨call, hcall, -⟩, -⟩
    rcases mem_pair.mp hf with rfl | rfl
    · rfl
    · cases hcall
  refine ((recursiveComponents_exact (by decide)).2 ["A"]).mpr
    ⟨(pairwise_singleton _ "A").sortedLT, "A", .single hself, fun x ↦ ?_⟩
  rw [mem_singleton]
  constructor
  · rintro rfl
    exact Mutual.refl "A"
  · rintro ⟨-, hback⟩
    rcases hback.cases_head with rfl | ⟨y, hxy, -⟩
    · rfl
    · exact hcaller x y hxy

end Components

end Codeclew.Values
