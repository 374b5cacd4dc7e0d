import Mathlib

/-!
# Breadth-first search

A search takes nodes from the front of a queue, lists the successors that it has not listed yet one
step further from the root, and puts them at the end of the queue. It may run out of room: then
nodes are not listed any more, or they are listed but not queued.

`Layers` is what holds of such a search at every time. All nodes are listed with their distance from
the root, whatever room there was; and if there was room for all of them, then what is listed in the
end is what can be reached within the limit: `Layers.isSome_iff`.
-/

namespace Codeclew

open List Option

variable {α : Type} {succ : α → α → Prop} {root : α}

/-- There is a path of so many steps from the root. -/
inductive Steps (succ : α → α → Prop) (root : α) : ℕ → α → Prop
  | zero : Steps succ root 0 root
  | succ {n : ℕ} {a b : α} : Steps succ root n a → succ a b → Steps succ root (n + 1) b

/-- The length of the shortest path from the root. -/
structure IsDistance (succ : α → α → Prop) (root a : α) (d : ℕ) : Prop where
  steps : Steps succ root d a
  shortest : ∀ n, Steps succ root n a → d ≤ n

theorem steps_zero_iff {a : α} : Steps succ root 0 a ↔ a = root := by
  constructor
  · rintro ⟨⟩
    rfl
  · rintro rfl
    exact .zero

/-- Where a search stands. Nodes are listed with a depth. Those that are `active` have not been
dealt with: the one whose successors are being looked at, and the queue. No depth of an active node
is less than `level`, and no depth at all is larger than the next level. There is `room` as long as
every node that was found has been listed, and it is `queued` as long as every node that was listed
has been queued. -/
structure Layers (succ : α → α → Prop) (root : α) (limit : ℕ) (listed : α → Option ℕ)
    (active : List α) (level : ℕ) (room queued : Prop) : Prop where
  distance : ∀ a d, listed a = some d → IsDistance succ root a d
  near : ∀ a d, listed a = some d → d ≤ level + 1
  limited : ∀ a d, listed a = some d → d ≤ limit
  level_le : ∀ a ∈ active, ∃ d, listed a = some d ∧ level ≤ d
  ordered : active.Pairwise fun a b ↦ ∀ d e, listed a = some d → listed b = some e → d ≤ e
  /-- Nothing up to this level is missing. -/
  complete : room → ∀ n a, n ≤ level → Steps succ root n a → (listed a).isSome
  /-- What is not active on this level is done, if there is a next level to come. -/
  done : room → level < limit → (queued ∨ ∃ a ∈ active, listed a = some (level + 1)) →
    ∀ a, listed a = some level → a ∈ active ∨ ∀ b, succ a b → (listed b).isSome
  /-- The next level waits. -/
  waiting : queued → ∀ a, listed a = some (level + 1) → a ∈ active

namespace Layers

variable {limit level : ℕ} {listed : α → Option ℕ} {active rest : List α} {room queued : Prop}
  {a b : α}

/-- The root alone is listed and queued. -/
theorem start [DecidableEq α] (succ : α → α → Prop) (root : α) (limit : ℕ) (room queued : Prop) :
    Layers succ root limit (fun a ↦ if a = root then some 0 else none) [root] 0 room queued where
  distance a d h := by
    obtain ⟨rfl, rfl⟩ : a = root ∧ 0 = d := by simpa using h
    exact ⟨.zero, fun n _ ↦ n.zero_le⟩
  near a d h := by
    obtain ⟨rfl, rfl⟩ : a = root ∧ 0 = d := by simpa using h
    exact Nat.zero_le _
  limited a d h := by
    obtain ⟨rfl, rfl⟩ : a = root ∧ 0 = d := by simpa using h
    exact Nat.zero_le _
  level_le a ha := by
    obtain rfl := mem_singleton.mp ha
    exact ⟨0, if_pos rfl, le_rfl⟩
  ordered := pairwise_singleton _ _
  complete _ n a hn ha := by
    obtain rfl := Nat.le_zero.mp hn
    rw [if_pos (steps_zero_iff.mp ha)]
    rfl
  done _ _ _ a ha := by
    obtain ⟨rfl, -⟩ : a = root ∧ True := by simpa using ha
    exact .inl (mem_singleton_self a)
  waiting _ a ha := by simp at ha

/-- Room can be lost at any time. -/
theorem weaken {room' queued' : Prop} (h : Layers succ root limit listed active level room queued)
    (hroom : room' → room) (hqueued : queued' → queued) :
    Layers succ root limit listed active level room' queued' where
  distance := h.distance
  near := h.near
  limited := h.limited
  level_le := h.level_le
  ordered := h.ordered
  complete hr := h.complete (hroom hr)
  done hr hlt hnext := h.done (hroom hr) hlt (hnext.imp_left hqueued)
  waiting hq := h.waiting (hqueued hq)

/-- The next level is entered when the front of the queue belongs to it. -/
theorem advance (h : Layers succ root limit listed (a :: rest) level room queued)
    (ha : listed a = some (level + 1)) :
    Layers succ root limit listed (a :: rest) (level + 1) room queued := by
  -- The rest of the queue belongs to the next level too.
  have hactive : ∀ b ∈ a :: rest, listed b = some (level + 1) := by
    intro b hb
    obtain ⟨d, hd, -⟩ := h.level_le b hb
    rcases mem_cons.mp hb with rfl | hb
    · exact ha
    · have hle := (pairwise_cons.mp h.ordered).1 b hb _ _ ha hd
      rw [hd, le_antisymm (h.near b d hd) hle]
  have hlt : level < limit := h.limited a _ ha
  have hnext : queued ∨ ∃ b ∈ a :: rest, listed b = some (level + 1) :=
    .inr ⟨a, mem_cons_self, ha⟩
  refine ⟨h.distance, fun b d hd ↦ (h.near b d hd).trans (Nat.le_succ _), h.limited,
    fun b hb ↦ ⟨_, hactive b hb, le_rfl⟩, h.ordered, ?_, ?_, ?_⟩
  · intro hroom n c hn hc
    rcases Nat.lt_or_eq_of_le hn with hn | rfl
    · exact h.complete hroom n c (Nat.lt_succ_iff.mp hn) hc
    cases hc with
    | @succ n b c hb hbc =>
      obtain ⟨d, hd⟩ := isSome_iff_exists.mp (h.complete hroom _ b le_rfl hb)
      rcases Nat.lt_or_eq_of_le ((h.distance b d hd).shortest _ hb) with hlt' | rfl
      · exact h.complete hroom (d + 1) c hlt' (.succ (h.distance b d hd).steps hbc)
      · refine (h.done hroom hlt hnext b hd).resolve_left (fun hmem ↦ ?_) c hbc
        rw [hactive b hmem, Option.some.injEq] at hd
        exact absurd hd (Nat.succ_ne_self _)
  · rintro hroom - (hqueued | ⟨b, hb, hdepth⟩) c hc
    · exact .inl (h.waiting hqueued c hc)
    · rw [hactive b hb, Option.some.injEq] at hdepth
      exact absurd hdepth (Nat.succ_ne_self _).symm
  · intro _ b hb
    exact absurd (h.near b _ hb) (by simp)

/-- The level is that of the front of the queue. -/
theorem exists_level (h : Layers succ root limit listed (a :: rest) level room queued) :
    ∃ level', listed a = some level' ∧
      Layers succ root limit listed (a :: rest) level' room queued := by
  obtain ⟨d, hd, hle⟩ := h.level_le a mem_cons_self
  rcases Nat.lt_or_eq_of_le hle with hlt | rfl
  · have heq : d = level + 1 := le_antisymm (h.near a d hd) hlt
    subst heq
    exact ⟨_, hd, h.advance hd⟩
  · exact ⟨_, hd, h⟩

section Discover

theorem ne_of_mem (h : Layers succ root limit listed active level room queued)
    (hb : listed b = none) (ha : a ∈ active) : a ≠ b := by
  rintro rfl
  obtain ⟨d, hd, -⟩ := h.level_le a ha
  rw [hb] at hd
  cases hd

variable [DecidableEq α]

theorem update_eq_some_iff (hb : listed b = none) {c : α} {d n : ℕ} :
    Function.update listed b (some n) c = some d ↔ (c = b ∧ d = n) ∨ listed c = some d := by
  rcases eq_or_ne c b with rfl | hne
  · rw [Function.update_self, hb]
    simp [eq_comm]
  · rw [Function.update_of_ne hne]
    simp [hne]

variable (h : Layers succ root limit listed (a :: rest) level room queued)
  (ha : listed a = some level) (hlt : level < limit) (hab : succ a b) (hb : listed b = none)
  (hroom : room)

include h ha hlt hab hb hroom

omit [DecidableEq α] hlt in
/-- A successor that has not been listed is one step further. -/
theorem isDistance_succ : IsDistance succ root b (level + 1) := by
  refine ⟨.succ (h.distance a _ ha).steps hab, fun n hn ↦ ?_⟩
  by_contra hlt
  have hsome := h.complete hroom n b (by omega) hn
  rw [hb] at hsome
  cases hsome

omit hab ha hlt hroom in
/-- The order of the active nodes is not changed by a node that was not among them. -/
theorem ordered_update {n : ℕ} : (a :: rest).Pairwise fun c c' ↦ ∀ d e,
    Function.update listed b (some n) c = some d →
    Function.update listed b (some n) c' = some e → d ≤ e := by
  have hlisted : ∀ c ∈ a :: rest, ∀ d, Function.update listed b (some n) c = some d →
      listed c = some d := by
    intro c hc d hd
    exact ((update_eq_some_iff hb).mp hd).resolve_left fun ⟨heq, _⟩ ↦ h.ne_of_mem hb hc heq
  exact h.ordered.imp_of_mem fun {c c'} hc hc' hle d e hd he ↦
    hle d e (hlisted c hc d hd) (hlisted c' hc' e he)

/-- A successor is listed, and queued unless there is no room for this any more. -/
theorem discover {active' : List α} {room' queued' : Prop}
    (hactive : (active' = a :: rest ++ [b] ∧ queued) ∨ (active' = a :: rest ∧ ¬queued')) :
    Layers succ root limit (Function.update listed b (some (level + 1))) active' level room'
      queued' := by
  have hsome : ∀ c, (listed c).isSome →
      (Function.update listed b (some (level + 1)) c).isSome := by
    intro c hc
    obtain ⟨d, hd⟩ := isSome_iff_exists.mp hc
    rw [(update_eq_some_iff hb).mpr (.inr hd)]
    rfl
  have hself := (update_eq_some_iff hb).mpr (.inl ⟨rfl, (rfl : level + 1 = level + 1)⟩)
  have hmem : ∀ c ∈ active', c ∈ a :: rest ∨ c = b := by
    rcases hactive with ⟨rfl, -⟩ | ⟨rfl, -⟩
    · intro c hc
      exact (mem_append.mp hc).imp_right mem_singleton.mp
    · exact fun c hc ↦ .inl hc
  have hsub : ∀ c ∈ a :: rest, c ∈ active' := by
    rcases hactive with ⟨rfl, -⟩ | ⟨rfl, -⟩
    · exact fun c hc ↦ mem_append_left _ hc
    · exact fun c hc ↦ hc
  refine ⟨fun c d hc ↦ ?_, fun c d hc ↦ ?_, fun c d hc ↦ ?_, fun c hc ↦ ?_, ?_,
    fun _ n c hn hc ↦ hsome c (h.complete hroom n c hn hc), fun _ _ hnext c hc ↦ ?_,
    fun hqueued c hc ↦ ?_⟩
  · rcases (update_eq_some_iff hb).mp hc with ⟨rfl, rfl⟩ | hc
    · exact isDistance_succ h ha hab hb hroom
    · exact h.distance c d hc
  · rcases (update_eq_some_iff hb).mp hc with ⟨-, rfl⟩ | hc
    · exact le_rfl
    · exact h.near c d hc
  · rcases (update_eq_some_iff hb).mp hc with ⟨-, rfl⟩ | hc
    · exact hlt
    · exact h.limited c d hc
  · rcases hmem c hc with hmem | rfl
    · obtain ⟨d, hd, hle⟩ := h.level_le c hmem
      exact ⟨d, (update_eq_some_iff hb).mpr (.inr hd), hle⟩
    · exact ⟨_, hself, Nat.le_succ _⟩
  · rcases hactive with ⟨rfl, -⟩ | ⟨rfl, -⟩
    · refine pairwise_append.mpr ⟨ordered_update h hb, pairwise_singleton _ _, ?_⟩
      intro c hc c' hc' d e hd he
      obtain rfl := mem_singleton.mp hc'
      obtain rfl := Option.some.inj (hself.symm.trans he)
      rcases (update_eq_some_iff hb).mp hd with ⟨-, rfl⟩ | hd
      · exact le_rfl
      · exact h.near c d hd
    · exact ordered_update h hb
  · have hlisted : listed c = some level :=
      ((update_eq_some_iff hb).mp hc).resolve_left fun ⟨_, heq⟩ ↦ Nat.succ_ne_self _ heq.symm
    have hnext : queued ∨ ∃ c ∈ a :: rest, listed c = some (level + 1) := by
      rcases hactive with ⟨-, hqueued⟩ | ⟨rfl, hno⟩
      · exact .inl hqueued
      · obtain ⟨c', hc', hdepth⟩ := hnext.resolve_left hno
        exact .inr ⟨c', hc', ((update_eq_some_iff hb).mp hdepth).resolve_left fun ⟨heq, _⟩ ↦
          h.ne_of_mem hb hc' heq⟩
    exact (h.done hroom hlt hnext c hlisted).imp (hsub c) fun hsucc c' hc' ↦ hsome c' (hsucc c' hc')
  · rcases hactive with ⟨rfl, hold⟩ | ⟨-, hno⟩
    · rcases (update_eq_some_iff hb).mp hc with ⟨rfl, -⟩ | hc
      · simp
      · exact hsub c (h.waiting hold c hc)
    · exact absurd hqueued hno

end Discover

/-- A node is done with when all its successors are listed. -/
theorem finish (h : Layers succ root limit listed (a :: rest) level room queued)
    (ha : listed a = some level)
    (hdone : room → level < limit → ∀ b, succ a b → (listed b).isSome) :
    Layers succ root limit listed rest level room queued where
  distance := h.distance
  near := h.near
  limited := h.limited
  level_le b hb := h.level_le b (mem_cons_of_mem _ hb)
  ordered := (pairwise_cons.mp h.ordered).2
  complete := h.complete
  done hroom hlt hnext b hb := by
    have hnext' : queued ∨ ∃ b ∈ a :: rest, listed b = some (level + 1) :=
      hnext.imp_right fun ⟨c, hc, hdepth⟩ ↦ ⟨c, mem_cons_of_mem _ hc, hdepth⟩
    rcases h.done hroom hlt hnext' b hb with hmem | hsucc
    · rcases mem_cons.mp hmem with rfl | hmem
      · exact .inr (hdone hroom hlt)
      · exact .inl hmem
    · exact .inr hsucc
  waiting hqueued b hb := by
    refine (mem_cons.mp (h.waiting hqueued b hb)).resolve_left ?_
    rintro rfl
    rw [ha, Option.some.injEq] at hb
    exact Nat.succ_ne_self _ hb.symm

/-- When the queue is empty, everything that can be reached is found up to this level. -/
theorem exists_le_level (h : Layers succ root limit listed [] level room queued) (hroom : room)
    (hqueued : queued) (hlt : level < limit) {n : ℕ} (hn : Steps succ root n a) :
    ∃ m ≤ level, Steps succ root m a := by
  induction hn with
  | zero => exact ⟨0, Nat.zero_le _, .zero⟩
  | @succ n b c _ hbc ih =>
    obtain ⟨m, hm, hb⟩ := ih
    obtain ⟨d, hd⟩ := isSome_iff_exists.mp (h.complete hroom m b hm hb)
    have hdistance := h.distance b d hd
    rcases Nat.lt_or_eq_of_le ((hdistance.shortest m hb).trans hm) with hless | rfl
    · exact ⟨d + 1, hless, .succ hdistance.steps hbc⟩
    -- A successor of a node of the last level has a depth, which is not one that waits.
    have hsucc := (h.done hroom hlt (.inl hqueued) b hd).resolve_left (not_mem_nil)
    obtain ⟨e, he⟩ := isSome_iff_exists.mp (hsucc c hbc)
    rcases Nat.lt_or_eq_of_le (h.near c e he) with hle | rfl
    · exact ⟨e, Nat.lt_succ_iff.mp hle, (h.distance c e he).steps⟩
    · exact absurd (h.waiting hqueued c he) not_mem_nil

/-- In the end, what is listed is what can be reached within the limit. -/
theorem isSome_iff (h : Layers succ root limit listed [] level room queued) (hroom : room)
    (hqueued : queued) (a : α) : (listed a).isSome ↔ ∃ n ≤ limit, Steps succ root n a := by
  constructor
  · intro ha
    obtain ⟨d, hd⟩ := isSome_iff_exists.mp ha
    exact ⟨d, h.limited a d hd, (h.distance a d hd).steps⟩
  · rintro ⟨n, hn, ha⟩
    rcases Nat.lt_or_ge level limit with hlt | hge
    · obtain ⟨m, hm, ha⟩ := h.exists_le_level hroom hqueued hlt ha
      exact h.complete hroom m a hm ha
    · exact h.complete hroom n a (hn.trans hge) ha

end Layers

end Codeclew
