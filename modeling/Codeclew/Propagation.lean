import Mathlib

/-!
# Propagation of bits

Each node of a graph has a mask. A node on the work list passes its bits on to its predecessors, and
a predecessor that gains a bit by this is put on the list. In the end a node has the bits that some
node it reaches had in the beginning: `getLsbD_spread_iff`. The loop ends because a node is put on
the list only when it gains a bit.
-/

namespace Codeclew

open List

/-- The masks of the nodes, and the work list with its members marked. -/
structure Spread (n w : ℕ) where
  masks : Fin n → BitVec w
  pending : Fin n → Bool
  queue : List (Fin n)

namespace Spread

variable {n w : ℕ} {s s' : Spread n w} {node v : Fin n} {mask incoming : BitVec w} {b : ℕ}

/-- Nothing is marked. -/
def empty (n w : ℕ) : Spread n w := ⟨fun _ ↦ 0, fun _ ↦ false, []⟩

/-- Put a node on the list, once. -/
def enqueue (s : Spread n w) (node : Fin n) : Spread n w :=
  if s.pending node then s
  else { s with pending := Function.update s.pending node true, queue := s.queue ++ [node] }

/-- Give a node bits, and put it on the list. -/
def mark (s : Spread n w) (node : Fin n) (mask : BitVec w) : Spread n w :=
  { s with masks := Function.update s.masks node (s.masks node ||| mask) }.enqueue node

/-- Give a node bits, and put it on the list if one of them is new. -/
def relax (incoming : BitVec w) (s : Spread n w) (caller : Fin n) : Spread n w :=
  if s.masks caller ||| incoming ≠ s.masks caller then s.mark caller incoming else s

/-- Take a node off the list. -/
def take (s : Spread n w) (node : Fin n) (queue : List (Fin n)) : Spread n w :=
  { s with pending := Function.update s.pending node false, queue }

/-! ## Termination -/

/-- The bits that a mask does not have. -/
def missing (mask : BitVec w) : ℕ :=
  (Finset.univ.filter fun b : Fin w ↦ mask.getLsbD b = false).card

/-- The bits that can still be gained. -/
def room (s : Spread n w) : ℕ := ∑ v, missing (s.masks v)

theorem missing_or_le : missing (mask ||| incoming) ≤ missing mask := by
  refine Finset.card_le_card fun b hb ↦ ?_
  simp only [Finset.mem_filter, Finset.mem_univ, true_and, BitVec.getLsbD_or,
    Bool.or_eq_false_iff] at hb ⊢
  exact hb.1

theorem missing_or_lt (h : mask ||| incoming ≠ mask) :
    missing (mask ||| incoming) < missing mask := by
  obtain ⟨b, hb, hne⟩ : ∃ b, ∃ _ : b < w, (mask ||| incoming).getLsbD b ≠ mask.getLsbD b := by
    by_contra hno
    push Not at hno
    exact h (BitVec.eq_of_getLsbD_eq hno)
  refine Finset.card_lt_card (Finset.ssubset_iff_of_subset ?_ |>.mpr ⟨⟨b, hb⟩, ?_, ?_⟩)
  · intro b hb
    simp only [Finset.mem_filter, Finset.mem_univ, true_and, BitVec.getLsbD_or,
      Bool.or_eq_false_iff] at hb ⊢
    exact hb.1
  · rw [BitVec.getLsbD_or] at hne
    simp only [Finset.mem_filter, Finset.mem_univ, true_and]
    cases hmask : mask.getLsbD b with
    | false => rfl
    | true => simp [hmask] at hne
  · rw [BitVec.getLsbD_or] at hne
    simp only [Finset.mem_filter, Finset.mem_univ, true_and, BitVec.getLsbD_or]
    intro hfalse
    rw [hfalse] at hne
    exact hne (Bool.or_eq_false_iff.mp hfalse).1.symm

@[simp]
theorem enqueue_masks : (s.enqueue node).masks = s.masks := by
  rw [enqueue]
  split_ifs <;> rfl

@[simp]
theorem mark_masks :
    (s.mark node mask).masks = Function.update s.masks node (s.masks node ||| mask) := by
  rw [mark, enqueue_masks]

/-- A node that gains a bit leaves less room. -/
theorem room_relax (s : Spread n w) (incoming : BitVec w) (node : Fin n) :
    s.relax incoming node = s ∨ (s.relax incoming node).room < s.room := by
  rw [relax]
  split_ifs with h
  · refine .inr (Finset.sum_lt_sum (fun v _ ↦ ?_) ⟨node, Finset.mem_univ _, ?_⟩)
    · rw [mark_masks]
      rcases eq_or_ne v node with rfl | hne
      · rw [Function.update_self]
        exact missing_or_le
      · rw [Function.update_of_ne hne]
    · rw [mark_masks, Function.update_self]
      exact missing_or_lt h
  · exact .inl rfl

theorem room_foldl_relax (s : Spread n w) (incoming : BitVec w) (callers : List (Fin n)) :
    callers.foldl (relax incoming) s = s ∨ (callers.foldl (relax incoming) s).room < s.room := by
  induction callers generalizing s with
  | nil => exact .inl rfl
  | cons caller callers ih =>
    rw [foldl_cons]
    rcases room_relax s incoming caller with heq | hlt
    · rw [heq]
      exact ih s
    · rcases ih (s.relax incoming caller) with heq | hlt'
      · rw [heq]
        exact .inr hlt
      · exact .inr (hlt'.trans hlt)

/-- Pass bits on until the list is empty. -/
def spread (predecessors : Fin n → List (Fin n)) (s : Spread n w) : Spread n w :=
  match _h : s.queue with
  | [] => s
  | node :: queue =>
    spread predecessors ((predecessors node).foldl (relax (s.masks node)) (s.take node queue))
termination_by (s.room, s.queue.length)
decreasing_by
  rcases room_foldl_relax (s.take node queue) (s.masks node) (predecessors node) with heq | hlt
  · rw [heq, Prod.lex_def]
    exact .inr ⟨rfl, by simp [take, _h]⟩
  · exact Prod.Lex.left _ _ hlt

/-! ## What a node gets -/

variable {predecessors : Fin n → List (Fin n)} {start : Fin n → BitVec w} {u : Fin n}

/-- A node reaches another along the edges, from predecessors to successors. -/
abbrev Reaches (predecessors : Fin n → List (Fin n)) : Fin n → Fin n → Prop :=
  Relation.ReflTransGen fun caller node ↦ caller ∈ predecessors node

/-- The bits of one node are also bits of another. -/
def Passed (s : Spread n w) (v caller : Fin n) : Prop :=
  ∀ b, (s.masks v).getLsbD b = true → (s.masks caller).getLsbD b = true

/-- The marks tell who is on the list. -/
structure Marked (s : Spread n w) : Prop where
  pending_iff : ∀ v, s.pending v = true ↔ v ∈ s.queue
  nodup : s.queue.Nodup

theorem Marked.mem_enqueue (h : s.Marked) :
    v ∈ (s.enqueue node).queue ↔ v ∈ s.queue ∨ v = node := by
  rw [enqueue]
  split_ifs with hpending
  · refine ⟨.inl, fun hv ↦ hv.elim id ?_⟩
    rintro rfl
    exact (h.pending_iff v).mp hpending
  · simp

theorem Marked.enqueue (h : s.Marked) : (s.enqueue node).Marked := by
  rw [Spread.enqueue]
  split_ifs with hpending
  · exact h
  refine ⟨fun v ↦ ?_, nodup_append.mpr ⟨h.nodup, nodup_singleton _, ?_⟩⟩
  · rcases eq_or_ne v node with rfl | hne
    · simp
    · simp [h.pending_iff, hne]
  · rintro a ha b hb rfl
    obtain rfl := mem_singleton.mp hb
    exact hpending ((h.pending_iff a).mpr ha)

theorem Marked.mark (h : s.Marked) : (s.mark node mask).Marked :=
  Marked.enqueue ⟨h.pending_iff, h.nodup⟩

theorem Marked.mem_mark (h : s.Marked) :
    v ∈ (s.mark node mask).queue ↔ v ∈ s.queue ∨ v = node :=
  Marked.mem_enqueue ⟨h.pending_iff, h.nodup⟩

theorem Marked.take (h : s.Marked) {queue : List (Fin n)} (hqueue : s.queue = node :: queue) :
    (s.take node queue).Marked := by
  have hnodup := h.nodup
  rw [hqueue, nodup_cons] at hnodup
  refine ⟨fun v ↦ ?_, hnodup.2⟩
  rcases eq_or_ne v node with rfl | hne
  · simp [Spread.take, hnodup.1]
  · simp [Spread.take, h.pending_iff, hqueue, hne]

/-- What holds while bits are passed on: a node has the bits it began with and no others than those
of the nodes it reaches, and it has passed them on if it is not on the list, or being dealt with. -/
structure Sound (predecessors : Fin n → List (Fin n)) (start : Fin n → BitVec w)
    (busy : Option (Fin n)) (s : Spread n w) : Prop extends s.Marked where
  sound : ∀ v b, (s.masks v).getLsbD b = true →
    ∃ u, Reaches predecessors v u ∧ (start u).getLsbD b = true
  above : ∀ v b, (start v).getLsbD b = true → (s.masks v).getLsbD b = true
  settled : ∀ v, v ∉ s.queue → some v ≠ busy → ∀ caller ∈ predecessors v, s.Passed v caller

theorem getLsbD_mark : ((s.mark node mask).masks v).getLsbD b =
    ((s.masks v).getLsbD b || (decide (v = node) && mask.getLsbD b)) := by
  rw [mark_masks]
  rcases eq_or_ne v node with rfl | hne
  · simp
  · simp [hne]

/-! ## The beginning -/

/-- Give bits to nodes, one after another. -/
def markAll (s : Spread n w) (marks : List (Fin n × BitVec w)) : Spread n w :=
  marks.foldl (fun s entry ↦ s.mark entry.1 entry.2) s

theorem marked_empty : (empty n w).Marked := ⟨fun v ↦ by simp [empty], nodup_nil⟩

theorem Marked.markAll (h : s.Marked) (marks : List (Fin n × BitVec w)) :
    (s.markAll marks).Marked ∧
      ∀ v, v ∈ (s.markAll marks).queue ↔ v ∈ s.queue ∨ ∃ entry ∈ marks, entry.1 = v := by
  induction marks generalizing s with
  | nil => exact ⟨h, by simp [Spread.markAll]⟩
  | cons entry marks ih =>
    have hmark : (s.mark entry.1 entry.2).Marked := h.mark
    obtain ⟨hmarked, hqueue⟩ := ih hmark
    refine ⟨hmarked, fun v ↦ (hqueue v).trans ?_⟩
    rw [h.mem_mark, exists_mem_cons_iff, or_assoc, eq_comm]

theorem getLsbD_markAll {marks : List (Fin n × BitVec w)} :
    ((s.markAll marks).masks v).getLsbD b = true ↔
      (s.masks v).getLsbD b = true ∨
        ∃ entry ∈ marks, entry.1 = v ∧ entry.2.getLsbD b = true := by
  induction marks generalizing s with
  | nil => simp [markAll]
  | cons entry marks ih =>
    refine ih.trans ?_
    rw [getLsbD_mark, Bool.or_eq_true, Bool.and_eq_true, decide_eq_true_iff,
      exists_mem_cons_iff, or_assoc, @eq_comm _ v]

section Run

variable {busy : Option (Fin n)}

/-- Bits that a node may have are given to it. -/
theorem Sound.relax (h : Sound predecessors start busy s)
    (hincoming : ∀ b, incoming.getLsbD b = true →
      ∃ u, Reaches predecessors node u ∧ (start u).getLsbD b = true) :
    Sound predecessors start busy (s.relax incoming node) := by
  rw [Spread.relax]
  split_ifs
  · refine ⟨h.toMarked.mark, fun v b hv ↦ ?_, fun v b hv ↦ ?_,
      fun v hv hbusy caller hcaller b hb ↦ ?_⟩
    · rw [getLsbD_mark, Bool.or_eq_true, Bool.and_eq_true, decide_eq_true_iff] at hv
      rcases hv with hv | ⟨rfl, hv⟩
      · exact h.sound v b hv
      · exact hincoming b hv
    · rw [getLsbD_mark, h.above v b hv, Bool.true_or]
    · -- The node that gained a bit is on the list now.
      rw [h.toMarked.mem_mark, not_or] at hv
      rw [getLsbD_mark, decide_eq_false hv.2, Bool.false_and, Bool.or_false] at hb
      rw [getLsbD_mark, h.settled v hv.1 hbusy caller hcaller b hb, Bool.true_or]
  · exact h

theorem getLsbD_relax : ((s.relax incoming node).masks v).getLsbD b =
    ((s.masks v).getLsbD b || (decide (v = node) && incoming.getLsbD b)) := by
  rw [relax]
  split_ifs with h
  · exact getLsbD_mark
  · have hbit := congrArg (·.getLsbD b) (not_not.mp h)
    rcases eq_or_ne v node with rfl | hne
    · simpa using hbit.symm
    · simp [hne]

theorem getLsbD_foldl_relax {callers : List (Fin n)} :
    ((callers.foldl (relax incoming) s).masks v).getLsbD b =
      ((s.masks v).getLsbD b || (decide (v ∈ callers) && incoming.getLsbD b)) := by
  induction callers generalizing s with
  | nil => simp
  | cons caller callers ih =>
    rw [foldl_cons, ih, getLsbD_relax]
    by_cases hv : v = caller
    · simp only [hv, mem_cons, true_or, decide_true, Bool.true_and]
      cases incoming.getLsbD b <;> simp
    · simp [hv]

theorem Sound.foldl_relax {callers : List (Fin n)} (h : Sound predecessors start busy s)
    (hincoming : ∀ caller ∈ callers, ∀ b, incoming.getLsbD b = true →
      ∃ u, Reaches predecessors caller u ∧ (start u).getLsbD b = true) :
    Sound predecessors start busy (callers.foldl (Spread.relax incoming) s) := by
  induction callers generalizing s with
  | nil => exact h
  | cons caller callers ih =>
    obtain ⟨hcaller, hcallers⟩ := forall_mem_cons.mp hincoming
    exact ih (h.relax hcaller) hcallers

/-- A node that is taken off the list passes its bits on. -/
theorem Sound.step (h : Sound predecessors start none s) {queue : List (Fin n)}
    (hqueue : s.queue = node :: queue) :
    Sound predecessors start none
      ((predecessors node).foldl (Spread.relax (s.masks node)) (s.take node queue)) := by
  have htaken : Sound predecessors start (some node) (s.take node queue) := by
    refine ⟨h.toMarked.take hqueue, h.sound, h.above, fun v hv hbusy ↦ h.settled v ?_ nofun⟩
    rw [hqueue, mem_cons, not_or]
    exact ⟨fun heq ↦ hbusy (congrArg some heq), hv⟩
  have hpassed : Sound predecessors start (some node)
      ((predecessors node).foldl (Spread.relax (s.masks node)) (s.take node queue)) := by
    refine htaken.foldl_relax fun caller hcaller b hb ↦ ?_
    obtain ⟨u, hu, hstart⟩ := h.sound node b hb
    exact ⟨u, hu.head hcaller, hstart⟩
  refine ⟨hpassed.toMarked, hpassed.sound, hpassed.above, fun v hv _ caller hcaller b hb ↦ ?_⟩
  rcases eq_or_ne v node with rfl | hne
  · have hold : (s.masks v).getLsbD b = true := by
      rw [getLsbD_foldl_relax, Bool.or_eq_true, Bool.and_eq_true] at hb
      exact hb.elim id And.right
    rw [getLsbD_foldl_relax, hold, decide_eq_true hcaller, Bool.and_true, Bool.or_true]
  · exact hpassed.settled v hv (fun heq ↦ hne (Option.some.inj heq)) caller hcaller b hb

theorem Sound.spread (h : Sound predecessors start none s) :
    Sound predecessors start none (s.spread predecessors) ∧
      (s.spread predecessors).queue = [] := by
  fun_induction Spread.spread predecessors s with
  | case1 s hqueue => exact ⟨h, hqueue⟩
  | case2 s node queue hqueue ih => exact ih (h.step hqueue)

end Run

/-- In the end a node has the bits of the nodes that it reaches, if those that began with a bit were
on the list. -/
theorem getLsbD_spread_iff (h : s.Marked) (hlisted : ∀ v, v ∉ s.queue → s.masks v = 0) :
    ((s.spread predecessors).masks v).getLsbD b = true ↔
      ∃ u, Reaches predecessors v u ∧ (s.masks u).getLsbD b = true := by
  have hstart : Sound predecessors s.masks none s := by
    refine ⟨h, fun v b hb ↦ ⟨v, .refl, hb⟩, fun v b hb ↦ hb, fun v hv _ caller _ b hb ↦ ?_⟩
    simp [hlisted v hv] at hb
  obtain ⟨hsound, hqueue⟩ := hstart.spread
  refine ⟨hsound.sound v b, ?_⟩
  rintro ⟨u, hu, hb⟩
  induction hu using Relation.ReflTransGen.head_induction_on with
  | refl => exact hsound.above u b hb
  | head hcaller _ ih =>
    exact hsound.settled _ (by rw [hqueue]; exact not_mem_nil) nofun _ hcaller b ih

end Spread

end Codeclew
