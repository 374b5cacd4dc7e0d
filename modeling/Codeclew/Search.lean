import Mathlib

/-!
# Searching a graph

A graph is given by the list of its edges. A search explores nodes one after the other. What it has
explored and what it has still to explore can be reached, and an edge from a node that is explored
leads to one that is explored or pending (`Explored`). When nothing is pending, what is explored is
all that can be reached.

There are two loops. `spread` marks a node when it comes to the queue, so that no node is there
twice. `finds` marks a node when it is taken from the queue, and passes over some of the nodes.

A node dominates another if every path to the other one visits it. Among the nodes that can be
reached this is a strict order.
-/

namespace Codeclew.Search

open Relation (ReflTransGen TransGen)
open List

variable {α : Type}

/-! ## What a search has explored -/

section Explored

variable {step : α → α → Prop} {start a b : α} {done pending done' pending' : α → Prop}

structure Explored (step : α → α → Prop) (start : α) (done pending : α → Prop) : Prop where
  reached : ∀ a, done a ∨ pending a → ReflTransGen step start a
  started : done start ∨ pending start
  closed : ∀ a b, done a → step a b → done b ∨ pending b

section

variable (h : Explored step start done pending)
include h

/-- The node `a` that was pending has been explored. -/
theorem Explored.visit (ha : pending a)
    (hnew : ∀ b, done' b ∨ pending' b → done b ∨ pending b ∨ step a b)
    (hkept : ∀ b, done b ∨ pending b ∨ step a b → done' b ∨ pending' b)
    (hdone : ∀ b, done' b → done b ∨ b = a) : Explored step start done' pending' where
  reached b hb := by
    rcases hnew b hb with hb | hb | hstep
    · exact h.reached b (.inl hb)
    · exact h.reached b (.inr hb)
    · exact (h.reached a (.inr ha)).tail hstep
  started := by
    refine hkept start ?_
    exact h.started.imp_right .inl
  closed b c hb hstep := by
    refine hkept c ?_
    rcases hdone b hb with hb | rfl
    · exact (h.closed b c hb hstep).imp_right .inl
    · exact .inr (.inr hstep)

/-- Pending nodes that are explored already may be dropped. -/
theorem Explored.drop (hiff : ∀ b, done b ∨ pending' b ↔ done b ∨ pending b) :
    Explored step start done pending' where
  reached b hb := h.reached b ((hiff b).mp hb)
  started := (hiff start).mpr h.started
  closed b c hb hstep := (hiff c).mpr (h.closed b c hb hstep)

/-- At the end of a search. -/
theorem Explored.done_iff (hend : ∀ a, ¬pending a) :
    done a ↔ ReflTransGen step start a := by
  refine ⟨fun ha ↦ h.reached a (.inl ha), fun hpath ↦ ?_⟩
  induction hpath with
  | refl => exact h.started.resolve_right (hend start)
  | tail _ hstep ih => exact (h.closed _ _ ih hstep).resolve_right (hend _)

end

end Explored

/-! ## Edges -/

section Edges

variable [DecidableEq α] (edges : List (α × α))

def Step (a b : α) : Prop := (a, b) ∈ edges

instance (a b : α) : Decidable (Step edges a b) := inferInstanceAs (Decidable ((a, b) ∈ edges))

/-- The targets of the edges from `a`, in the order of the edges. -/
def successors (a : α) : List α := (edges.filter (·.1 = a)).map (·.2)

variable {edges}

@[simp] theorem mem_successors {a b : α} : b ∈ successors edges a ↔ Step edges a b := by
  simp [successors, Step]

/-- Marking a node closes the edges that end there. -/
theorem countP_notMem_cons (edges : List (α × α)) (endpoint : α × α → α) {marked : List α} {b : α}
    (hb : b ∉ marked) :
    edges.countP (endpoint · ∉ b :: marked) + edges.countP (endpoint · = b)
      = edges.countP (endpoint · ∉ marked) := by
  induction edges with
  | nil => rfl
  | cons e edges ih =>
    rw [countP_cons, countP_cons, countP_cons, ← ih]
    by_cases he : endpoint e = b
    · simp [he, hb]
      omega
    · by_cases hmem : endpoint e ∈ marked
      · simp [he, hmem]
      · simp [he, hmem]
        omega

theorem countP_source_eq (a : α) : edges.countP (·.1 = a) = (successors edges a).length := by
  rw [successors, length_map, countP_eq_length_filter]

end Edges

/-! ## Marking nodes as they come to the queue -/

section Spread

variable [DecidableEq α] {edges : List (α × α)} {stop : α → Bool}

/-- The nodes that are not marked are marked and put at the end of the queue. -/
def mark (marked queue : List α) : List α → List α × List α
  | [] => (marked, queue)
  | b :: bs => if b ∈ marked then mark marked queue bs else mark (b :: marked) (queue ++ [b]) bs

theorem mem_fst_mark {bs marked queue : List α} {c : α} :
    c ∈ (mark marked queue bs).1 ↔ c ∈ marked ∨ c ∈ bs := by
  induction bs generalizing marked queue with
  | nil => simp [mark]
  | cons b bs ih =>
    rw [mark]
    split
    · rename_i hb
      rw [ih, mem_cons]
      constructor
      · exact Or.imp_right .inr
      · rintro (hc | rfl | hc)
        · exact .inl hc
        · exact .inl hb
        · exact .inr hc
    · rw [ih, mem_cons, mem_cons, or_assoc, or_left_comm]

theorem mem_snd_mark {bs marked queue : List α} {c : α} :
    c ∈ (mark marked queue bs).2 ↔ c ∈ queue ∨ (c ∈ bs ∧ c ∉ marked) := by
  induction bs generalizing marked queue with
  | nil => simp [mark]
  | cons b bs ih =>
    rw [mark]
    split
    · grind
    · grind

/-- What comes to the queue is paid for by the edges that lead there. -/
theorem length_mark_le (marked queue : List α) {bs : List α}
    (hbs : ∀ b ∈ bs, ∃ e ∈ edges, e.2 = b) :
    edges.countP (·.2 ∉ (mark marked queue bs).1) + (mark marked queue bs).2.length
      ≤ edges.countP (·.2 ∉ marked) + queue.length := by
  induction bs generalizing marked queue with
  | nil => exact le_rfl
  | cons b bs ih =>
    have htail : ∀ b ∈ bs, ∃ e ∈ edges, e.2 = b := fun c hc ↦ hbs c (mem_cons_of_mem _ hc)
    rw [mark]
    split
    · exact ih marked queue htail
    · rename_i hb
      have hpaid : 0 < edges.countP (·.2 = b) := by
        rw [countP_pos_iff]
        simpa using hbs b mem_cons_self
      have hclosed := countP_notMem_cons edges (·.2) hb
      have hrest := ih (b :: marked) (queue ++ [b]) htail
      rw [length_append, length_singleton] at hrest
      omega

/-- The nodes that are marked in the end, or nothing if a node was met where the search stops. -/
def spread (edges : List (α × α)) (stop : α → Bool) (marked : List α) : List α → Option (List α)
  | [] => some marked
  | a :: queue =>
    if stop a then none
    else spread edges stop (mark marked queue (successors edges a)).1
      (mark marked queue (successors edges a)).2
termination_by queue => edges.countP (·.2 ∉ marked) + queue.length
decreasing_by
  have hsucc : ∀ b ∈ successors edges a, ∃ e ∈ edges, e.2 = b :=
    fun b hb ↦ ⟨(a, b), mem_successors.mp hb, rfl⟩
  have hle := length_mark_le marked queue hsucc
  rw [length_cons]
  omega

theorem spread_explored {start : α} {marked queue : List α}
    (h : Explored (Step edges) start (fun a ↦ a ∈ marked ∧ a ∉ queue) (· ∈ queue))
    (hqueue : ∀ a ∈ queue, a ∈ marked) (hgo : ∀ a ∈ marked, a ∉ queue → stop a = false) :
    (spread edges stop marked queue = none ↔
      ∃ a, ReflTransGen (Step edges) start a ∧ stop a = true) ∧
    ∀ found, spread edges stop marked queue = some found →
      ∀ a, a ∈ found ↔ ReflTransGen (Step edges) start a := by
  fun_induction spread edges stop marked queue with
  | case1 marked =>
    have hdone : ∀ a, a ∈ marked ↔ ReflTransGen (Step edges) start a := fun a ↦ by
      rw [← h.done_iff fun _ ↦ not_mem_nil]
      exact (and_iff_left not_mem_nil).symm
    refine ⟨⟨nofun, ?_⟩, ?_⟩
    · rintro ⟨a, ha, hstop⟩
      rw [hgo a ((hdone a).mpr ha) not_mem_nil] at hstop
      cases hstop
    · rintro found ⟨⟩
      exact hdone
  | case2 marked a queue hstop =>
    have ha : ReflTransGen (Step edges) start a := h.reached a (.inr mem_cons_self)
    exact ⟨⟨fun _ ↦ ⟨a, ha, hstop⟩, fun _ ↦ rfl⟩, nofun⟩
  | case3 marked a queue hstop ih =>
    -- `a` is explored now, unless it is in the queue a second time
    have hpop : ∀ {b}, b ∉ queue → b ∈ a :: queue → b = a := fun hb hmem ↦
      (mem_cons.mp hmem).resolve_right hb
    refine ih (h.visit mem_cons_self ?_ ?_ ?_) ?_ ?_
    · intro b hb
      simp only [mem_fst_mark, mem_snd_mark, mem_successors] at hb
      by_cases hmem : b ∈ a :: queue
      · exact .inr (.inl hmem)
      · grind
    · intro b hb
      simp only [mem_fst_mark, mem_snd_mark, mem_successors]
      grind
    · intro b hb
      simp only [mem_fst_mark, mem_snd_mark, mem_successors] at hb
      grind
    · intro b hb
      simp only [mem_fst_mark, mem_snd_mark] at hb ⊢
      grind
    · intro b hb hnot
      simp only [mem_fst_mark, mem_snd_mark] at hb hnot
      grind

theorem spread_start (edges : List (α × α)) (stop : α → Bool) (start : α) :
    (spread edges stop [start] [start] = none ↔
      ∃ a, ReflTransGen (Step edges) start a ∧ stop a = true) ∧
    ∀ found, spread edges stop [start] [start] = some found →
      ∀ a, a ∈ found ↔ ReflTransGen (Step edges) start a := by
  refine spread_explored ⟨?_, .inr mem_cons_self, ?_⟩ (fun _ ha ↦ ha) fun _ ha hnot ↦ absurd ha hnot
  · rintro a (⟨ha, hnot⟩ | ha)
    · exact absurd ha hnot
    · rw [mem_singleton.mp ha]
  · rintro a b ⟨ha, hnot⟩
    exact absurd ha hnot

end Spread

/-! ## Marking nodes as they leave the queue -/

section Finds

variable [DecidableEq α] {edges : List (α × α)} {passed : α → Bool} {target : α}

/-- Whether the search meets `target`. Nodes that are `passed` are not looked at. -/
def finds (edges : List (α × α)) (passed : α → Bool) (target : α) (seen : List α) : List α → Bool
  | [] => false
  | a :: queue =>
    if passed a ∨ a ∈ seen then finds edges passed target seen queue
    else if a = target then true
    else finds edges passed target (a :: seen) (queue ++ successors edges a)
termination_by queue => edges.countP (·.1 ∉ seen) + queue.length
decreasing_by
  · exact Nat.lt_succ_self _
  · rename_i hnew _
    have hclosed := countP_notMem_cons edges (·.1) (not_or.mp hnew).2
    rw [countP_source_eq] at hclosed
    rw [length_append, length_cons]
    omega

/-- A step to a node that is not passed. -/
def StepAround (edges : List (α × α)) (passed : α → Bool) (a b : α) : Prop :=
  Step edges a b ∧ passed b = false

theorem finds_explored {start : α} {seen queue : List α}
    (h : Explored (StepAround edges passed) start (· ∈ seen) fun a ↦ a ∈ queue ∧ passed a = false)
    (hnot : target ∉ seen) :
    finds edges passed target seen queue = true ↔
      ReflTransGen (StepAround edges passed) start target := by
  fun_induction finds edges passed target seen queue with
  | case1 seen =>
    rw [← h.done_iff (by simp)]
    simpa using hnot
  | case2 seen a queue hskip ih =>
    refine ih (h.drop fun b ↦ ?_) hnot
    grind
  | case3 seen queue hnew =>
    have hopen : passed target = false := by simpa using (not_or.mp hnew).1
    exact ⟨fun _ ↦ h.reached target (.inr ⟨mem_cons_self, hopen⟩), fun _ ↦ rfl⟩
  | case4 seen a queue hnew hne ih =>
    have hopen : passed a = false := by simpa using (not_or.mp hnew).1
    refine ih (h.visit ⟨mem_cons_self, hopen⟩ ?_ ?_ ?_) ?_
    · intro b hb
      simp only [mem_append, mem_successors] at hb
      rw [StepAround]
      grind
    · intro b hb
      simp only [mem_append, mem_successors]
      rw [StepAround] at hb
      grind
    · intro b hb
      grind
    · grind

theorem finds_start {start : α} (hstart : passed start = false) :
    finds edges passed target [] [start] = true ↔
      ReflTransGen (StepAround edges passed) start target := by
  refine finds_explored ⟨?_, .inr ⟨mem_cons_self, hstart⟩, nofun⟩ not_mem_nil
  rintro a (ha | ⟨ha, -⟩)
  · cases ha
  · rw [mem_singleton.mp ha]

end Finds

/-! ## Paths and dominance -/

section Paths

variable {step : α → α → Prop} {a b c x : α} {p : List α}

/-- The nodes of a path, from its first to its last. -/
inductive Path (step : α → α → Prop) : α → α → List α → Prop
  | single (a : α) : Path step a a [a]
  | cons {a b c : α} {p : List α} (hstep : step a b) (h : Path step b c p) : Path step a c (a :: p)

theorem exists_path (h : ReflTransGen step a b) : ∃ p, Path step a b p := by
  induction h using ReflTransGen.head_induction_on with
  | refl => exact ⟨_, .single b⟩
  | head hstep _ ih =>
    obtain ⟨p, hp⟩ := ih
    exact ⟨_, .cons hstep hp⟩

/-- A path that does not visit `x`. -/
theorem exists_path_notMem_iff : (∃ p, Path step a b p ∧ x ∉ p) ↔
    a ≠ x ∧ ReflTransGen (fun u v ↦ step u v ∧ v ≠ x) a b := by
  constructor
  · rintro ⟨p, hp, hx⟩
    induction hp with
    | single a => exact ⟨fun h ↦ hx (h ▸ mem_singleton_self a), .refl⟩
    | cons hstep hp ih =>
      rw [mem_cons, not_or] at hx
      obtain ⟨hne, hpath⟩ := ih hx.2
      exact ⟨Ne.symm hx.1, .head ⟨hstep, hne⟩ hpath⟩
  · rintro ⟨hne, hpath⟩
    induction hpath using ReflTransGen.head_induction_on with
    | refl => exact ⟨[b], .single b, by simpa using Ne.symm hne⟩
    | head hstep _ ih =>
      obtain ⟨p, hp, hx⟩ := ih hstep.2
      exact ⟨_, .cons hstep.1 hp, by simpa using ⟨Ne.symm hne, hx⟩⟩

/-- The part of a path up to a node that it visits. -/
theorem Path.exists_upTo (h : Path step a c p) (hb : b ∈ p) :
    ∃ q, Path step a b q ∧ q ⊆ p ∧ (b ≠ c → q.length < p.length) := by
  induction h with
  | single a =>
    obtain rfl := mem_singleton.mp hb
    exact ⟨[b], .single b, List.Subset.refl _, fun hne ↦ absurd rfl hne⟩
  | @cons a d c p hstep h ih =>
    rcases mem_cons.mp hb with rfl | hb
    · refine ⟨[b], .single b, by simp, fun _ ↦ ?_⟩
      have hpos : 0 < p.length := by
        cases h <;> simp
      simpa using hpos
    · obtain ⟨q, hq, hsub, hlt⟩ := ih hb
      refine ⟨a :: q, .cons hstep hq, cons_subset_cons a hsub, fun hne ↦ ?_⟩
      simpa using hlt hne

/-- Every path from `root` to `b` visits `a`, which is another node. -/
def StrictlyDominates (step : α → α → Prop) (root a b : α) : Prop :=
  a ≠ b ∧ ∀ p, Path step root b p → a ∈ p

variable {root : α}

theorem StrictlyDominates.asymm (hab : StrictlyDominates step root a b)
    (hreached : ReflTransGen step root b) : ¬StrictlyDominates step root b a := by
  intro hba
  -- A path to `b` visits `a`, and its part up to `a` visits `b` earlier.
  suffices h : ∀ n p, Path step root b p → p.length = n → False by
    obtain ⟨p, hp⟩ := exists_path hreached
    exact h _ p hp rfl
  intro n
  induction n using Nat.strong_induction_on with
  | _ n ih =>
    rintro p hp rfl
    obtain ⟨q, hq, -, hlt⟩ := hp.exists_upTo (hab.2 p hp)
    obtain ⟨r, hr, -, hlt'⟩ := hq.exists_upTo (hba.2 q hq)
    exact ih _ ((hlt' hba.1).trans (hlt hab.1)) r hr rfl

theorem StrictlyDominates.trans (hab : StrictlyDominates step root a b)
    (hbc : StrictlyDominates step root b c) (hreached : ReflTransGen step root b) :
    StrictlyDominates step root a c := by
  refine ⟨?_, fun p hp ↦ ?_⟩
  · rintro rfl
    exact hab.asymm hreached hbc
  · obtain ⟨q, hq, hsub, -⟩ := hp.exists_upTo (hbc.2 p hp)
    exact hsub (hab.2 q hq)

end Paths

end Codeclew.Search
