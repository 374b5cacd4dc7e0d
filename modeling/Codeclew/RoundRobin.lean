import Codeclew.Collections

/-!
# Selecting in turn

Elements are taken from several lanes in turn, one from each, until there are enough of them or all
lanes are used up. An element whose key was taken before is passed over, and the lane's next one is
taken in its place, so that in every round each lane that still has something new contributes.

Where nothing is passed over, what is taken is a beginning of the interleaving of the lanes, and no
lane gets more than one element ahead of another that is not used up.
-/

namespace Codeclew.RoundRobin

open KeyedSet List

variable {α κ : Type} [LinearOrder κ] (key : α → κ)

/-! ## Rounds -/

/-- Take the first element of a lane that is not there yet: the selection after it, what is left of
the lane, and whether there was one. -/
def advance (selected : List α) : List α → List α × List α × Bool
  | [] => (selected, [], false)
  | a :: lane =>
    if key a ∈ keys key selected then advance selected lane
    else (insert key a selected, lane, true)

/-- One element from every lane, until the limit is reached. -/
def round (limit : ℕ) (selected : List α) : List (List α) → List α × List (List α) × Bool
  | [] => (selected, [], false)
  | lane :: lanes =>
    let turn := advance key selected lane
    if turn.1.length = limit then (turn.1, turn.2.1 :: lanes, turn.2.2)
    else
      let others := round limit turn.1 lanes
      (others.1, turn.2.1 :: others.2.1, turn.2.2 || others.2.2)

variable {key}

variable (key) in
theorem length_advance (selected lane : List α) :
    (advance key selected lane).1.length =
      selected.length + (advance key selected lane).2.2.toNat := by
  induction lane with
  | nil => rfl
  | cons a lane ih =>
    rw [advance]
    split_ifs with hmem
    · exact ih
    · exact length_insert_of_notMem_keys hmem

variable (key) in
theorem le_length_round (limit : ℕ) (selected : List α) (lanes : List (List α)) :
    selected.length ≤ (round key limit selected lanes).1.length := by
  induction lanes generalizing selected with
  | nil => exact le_rfl
  | cons lane lanes ih =>
    have hlength := length_advance key selected lane
    rw [round]
    split_ifs
    · exact Nat.le.intro hlength.symm
    · exact (Nat.le.intro hlength.symm).trans (ih _)

theorem lt_length_round {limit : ℕ} {selected : List α} {lanes : List (List α)}
    (h : (round key limit selected lanes).2.2 = true) :
    selected.length < (round key limit selected lanes).1.length := by
  induction lanes generalizing selected with
  | nil => cases h
  | cons lane lanes ih =>
    have hlength := length_advance key selected lane
    have hmore := le_length_round key limit (advance key selected lane).1 lanes
    rw [round] at h ⊢
    split_ifs at h ⊢
    · rw [hlength, show (advance key selected lane).2.2 = true from h]
      exact Nat.lt_succ_self _
    · rcases Bool.or_eq_true_iff.mp h with hp | hp
      · rw [hp] at hlength
        exact Nat.lt_of_lt_of_le (hlength ▸ Nat.lt_succ_self _) hmore
      · exact Nat.lt_of_le_of_lt (Nat.le.intro hlength.symm) (ih hp)

/-! ## Selections -/

set_option linter.unusedVariables false in
variable (key) in
/-- Round after round, while the selection is too small and grows. -/
def select (limit : ℕ) (selected : List α) (lanes : List (List α)) : List α :=
  if hlimit : selected.length < limit then
    let after := round key limit selected lanes
    if hprogressed : after.2.2 = true then select limit after.1 after.2.1 else after.1
  else selected
termination_by limit - selected.length
decreasing_by
  have := lt_length_round hprogressed
  omega

/-! ## Interleaving -/

/-- The elements at one position of each family. -/
def turn {α : Type} (families : List (List α)) (round : ℕ) : List α :=
  families.filterMap (·[round]?)

set_option linter.unusedVariables false in
/-- The elements of families in turn, from the position `round` on: the ones at that position, then
the ones at the next. -/
def interleave {α : Type} (families : List (List α)) (round : ℕ) : List α :=
  if h : turn families round = [] then []
  else turn families round ++ interleave families (round + 1)
termination_by (families.map List.length).sum - round
decreasing_by
  obtain ⟨a, rest, hrow⟩ := exists_cons_of_ne_nil h
  have hmem : a ∈ turn families round := hrow ▸ mem_cons_self
  obtain ⟨family, hfamily, ha⟩ := mem_filterMap.mp hmem
  have hlt : round < family.length := (List.getElem?_eq_some_iff.mp ha).1
  have hle : family.length ≤ (families.map List.length).sum :=
    le_sum_of_mem (mem_map_of_mem hfamily)
  omega

variable {α : Type} (lanes : List (List α))

theorem interleave_eq (position : ℕ) :
    interleave lanes position = turn lanes position ++
      if turn lanes position = [] then [] else interleave lanes (position + 1) := by
  rw [interleave]
  split_ifs with hrow
  · simp [hrow]
  · rfl

theorem turn_eq (round : ℕ) :
    turn lanes round = (lanes.map (List.drop round)).filterMap List.head? := by
  rw [turn, filterMap_map]
  exact filterMap_congr fun lane _ ↦ List.head?_drop.symm

theorem map_tail_map_drop (position : ℕ) :
    (lanes.map (List.drop position)).map List.tail = lanes.map (List.drop (position + 1)) := by
  simp [map_map, Function.comp_def, tail_drop]

/-! ## Dealing -/

section Dealing

variable {α σ : Type} (full : σ → Bool) (accept : σ → α → Option σ)

/-- One pass over the lanes, with the first element of each. The pass is left where nothing more is
wanted or an element is not admitted; otherwise it leaves the lanes without these elements, and
tells whether there was one. -/
def pass (state : σ) : List (List α) → σ × Option (List (List α) × Bool)
  | [] => (state, some ([], false))
  | [] :: lanes =>
    if full state then (state, none)
    else
      let others := pass state lanes
      (others.1, others.2.map fun rest ↦ ([] :: rest.1, rest.2))
  | (a :: lane) :: lanes =>
    if full state then (state, none)
    else
      match accept state a with
      | none => (state, none)
      | some next =>
        let others := pass next lanes
        (others.1, others.2.map fun rest ↦ (lane :: rest.1, true))

/-- Take elements one after the other, up to the first that is not admitted. -/
def absorb (state : σ) : List α → σ
  | [] => state
  | a :: xs =>
    if full state then state
    else
      match accept state a with
      | none => state
      | some next => absorb next xs

variable {full accept}

theorem absorb_of_full {state : σ} (h : full state = true) (xs : List α) :
    absorb full accept state xs = state := by
  cases xs <;> simp [absorb, h]

theorem absorb_cons_of_none {state : σ} {a : α} (h : accept state a = none) (xs : List α) :
    absorb full accept state (a :: xs) = state := by
  simp [absorb, h]

variable {state next : σ}

theorem absorb_cons_of_some {a : α} (hfull : ¬full state = true) (h : accept state a = some next)
    (xs : List α) :
    absorb full accept state (a :: xs) = absorb full accept next xs := by
  simp [absorb, h, hfull]

variable {lanes : List (List α)}

/-- A pass that was left early has absorbed all it can. -/
theorem pass_none (h : pass full accept state lanes = (next, none)) (xs : List α) :
    absorb full accept state (lanes.filterMap List.head? ++ xs) = next := by
  induction lanes generalizing state with
  | nil => simp [pass] at h
  | cons lane lanes ih =>
    rcases lane with _ | ⟨a, lane⟩ <;> rw [pass] at h <;> split_ifs at h with hfull
    · rw [absorb_of_full hfull]
      exact congrArg Prod.fst h
    · obtain ⟨hnext, hnone⟩ := Prod.mk.inj h
      exact ih (Prod.ext hnext (Option.map_eq_none_iff.mp hnone))
    · rw [absorb_of_full hfull]
      exact congrArg Prod.fst h
    · rcases ha : accept state a with _ | state' <;> simp only [ha] at h
      · exact (absorb_cons_of_none ha _).trans (congrArg Prod.fst h)
      · obtain ⟨hnext, hnone⟩ := Prod.mk.inj h
        exact (absorb_cons_of_some hfull ha _).trans
          (ih (Prod.ext hnext (Option.map_eq_none_iff.mp hnone)))

/-- A whole pass absorbs the first element of every lane. -/
theorem pass_some {lanes rest : List (List α)} {progressed : Bool}
    (h : pass full accept state lanes = (next, some (rest, progressed))) :
    rest = lanes.map List.tail ∧ progressed = !(lanes.filterMap List.head?).isEmpty ∧
      ∀ xs, absorb full accept state (lanes.filterMap List.head? ++ xs) =
        absorb full accept next xs := by
  induction lanes generalizing state rest progressed with
  | nil =>
    simp only [pass, Prod.mk.injEq, Option.some.injEq] at h
    obtain ⟨rfl, rfl, rfl⟩ := h
    exact ⟨rfl, rfl, fun _ ↦ rfl⟩
  | cons lane lanes ih =>
    rcases lane with _ | ⟨a, lane⟩ <;> rw [pass] at h <;> split_ifs at h with hfull
    · cases congrArg Prod.snd h
    · obtain ⟨hnext, hsome⟩ := Prod.mk.inj h
      obtain ⟨⟨others, more⟩, hothers, heq⟩ := Option.map_eq_some_iff.mp hsome
      obtain ⟨rfl, rfl⟩ := Prod.mk.inj heq
      obtain ⟨rfl, hmore, habsorb⟩ := ih (Prod.ext hnext hothers)
      exact ⟨rfl, hmore, habsorb⟩
    · cases congrArg Prod.snd h
    · rcases ha : accept state a with _ | state' <;> simp only [ha] at h
      · cases congrArg Prod.snd h
      · obtain ⟨hnext, hsome⟩ := Prod.mk.inj h
        obtain ⟨⟨others, more⟩, hothers, heq⟩ := Option.map_eq_some_iff.mp hsome
        obtain ⟨rfl, rfl⟩ := Prod.mk.inj heq
        obtain ⟨rfl, -, habsorb⟩ := ih (Prod.ext hnext hothers)
        exact ⟨rfl, rfl, fun xs ↦ (absorb_cons_of_some hfull ha _).trans (habsorb xs)⟩

theorem sum_length_tail_lt (h : lanes.filterMap List.head? ≠ []) :
    ((lanes.map List.tail).map List.length).sum < (lanes.map List.length).sum := by
  induction lanes with
  | nil => exact absurd rfl h
  | cons lane lanes ih =>
    rcases lane with _ | ⟨a, lane⟩
    · simpa using ih h
    · have hle : ((lanes.map List.tail).map List.length).sum ≤ (lanes.map List.length).sum := by
        rw [map_map]
        exact sum_le_sum fun lane _ ↦ by simp
      simp only [map_cons, tail_cons, sum_cons, length_cons]
      omega

set_option linter.unusedVariables false in
variable (full accept) in
/-- Pass after pass over the lanes, until nothing more is wanted, an element is not admitted or all
lanes are used up. -/
def deal (state : σ) (lanes : List (List α)) : σ :=
  if full state then state
  else
    match h : pass full accept state lanes with
    | (next, none) => next
    | (next, some (rest, progressed)) =>
      if hprogressed : progressed = true then deal next rest else next
termination_by (lanes.map List.length).sum
decreasing_by
  obtain ⟨rfl, hrow, -⟩ := pass_some h
  exact sum_length_tail_lt (by rintro hnil; simp [hprogressed, hnil] at hrow)

/-- What is dealt is absorbed in the order of the interleaving. -/
theorem deal_drop (state : σ) (lanes : List (List α)) (round : ℕ) :
    deal full accept state (lanes.map (List.drop round)) =
      absorb full accept state (interleave lanes round) := by
  induction hn : ((lanes.map (List.drop round)).map List.length).sum using Nat.strong_induction_on
    generalizing state round with
  | _ n ih =>
    rw [deal]
    split_ifs with hfull
    · rw [absorb_of_full hfull]
    · rw [interleave_eq, turn_eq]
      split
      · next next h => exact (pass_none h _).symm
      · next next rest progressed h =>
        obtain ⟨rfl, rfl, habsorb⟩ := pass_some h
        have hlt := @sum_length_tail_lt _ (lanes.map (List.drop round))
        rw [map_tail_map_drop] at hlt ⊢
        rw [habsorb]
        by_cases hrow : (lanes.map (List.drop round)).filterMap List.head? = []
        · simp [hrow, absorb]
        · rw [dif_pos (by simpa using hrow), if_neg hrow]
          exact ih _ (hn ▸ hlt hrow) next (round + 1) rfl

theorem deal_eq (state : σ) (lanes : List (List α)) :
    deal full accept state lanes = absorb full accept state (interleave lanes 0) := by
  have hdrop : lanes.map (List.drop 0) = lanes := map_id lanes
  rw [← deal_drop, hdrop]

end Dealing

/-! ## Lanes by tags -/

section Fair

variable {α τ : Type} [DecidableEq τ] {tag : α → τ} {lane : τ → List α} {order : List τ}

/-- At one position, what has a tag is what its own lane has there. -/
theorem filter_turn (htag : ∀ t, ∀ a ∈ lane t, tag a = t) (horder : order.Nodup) (t : τ)
    (round : ℕ) :
    (turn (order.map lane) round).filter (tag · = t) =
      if t ∈ order then ((lane t).drop round).take 1 else [] := by
  induction order with
  | nil => rfl
  | cons s order ih =>
    obtain ⟨hs, horder⟩ := nodup_cons.mp horder
    have hturn : turn ((s :: order).map lane) round =
        ((lane s).drop round).take 1 ++ turn (order.map lane) round := by
      rw [turn, map_cons, filterMap_cons, ← List.head?_drop]
      cases (lane s).drop round <;> rfl
    have htake : ∀ a ∈ ((lane s).drop round).take 1, tag a = s := fun a ha ↦
      htag s a (mem_of_mem_drop (mem_of_mem_take ha))
    rw [hturn, filter_append, ih horder]
    by_cases hst : s = t
    · subst hst
      rw [if_neg hs, if_pos mem_cons_self, append_nil]
      exact filter_eq_self.mpr fun a ha ↦ by simp [htake a ha]
    · have hnil : (((lane s).drop round).take 1).filter (tag · = t) = [] :=
        filter_eq_nil_iff.mpr fun a ha ↦ by simp [htake a ha, hst]
      rw [hnil, nil_append]
      exact if_congr (by simp [Ne.symm hst]) rfl rfl

theorem take_one_append_take (xs : List α) (k : ℕ) :
    xs.take 1 ++ (xs.drop 1).take k = xs.take (k + 1) := by
  cases xs <;> simp

/-- The beginning of an interleaving has, for some `k`, the first `k` or `k + 1` elements of every
lane. -/
theorem filter_take_interleave (htag : ∀ t, ∀ a ∈ lane t, tag a = t) (horder : order.Nodup)
    (n round : ℕ) :
    ∃ k, ∀ t ∈ order,
      ((interleave (order.map lane) round).take n).filter (tag · = t) =
        ((lane t).drop round).take k ∨
      ((interleave (order.map lane) round).take n).filter (tag · = t) =
        ((lane t).drop round).take (k + 1) := by
  fun_induction interleave (order.map lane) round generalizing n with
  | case1 round hrow =>
    refine ⟨0, fun t ht ↦ .inl ?_⟩
    simp
  | case2 round hrow ih =>
    have hturn : ∀ t ∈ order, (turn (order.map lane) round).filter (tag · = t) =
        ((lane t).drop round).take 1 := fun t ht ↦ by
      rw [filter_turn htag horder, if_pos ht]
    rcases Nat.lt_or_ge n (turn (order.map lane) round).length with hn | hn
    · -- The interleaving is cut within this round.
      refine ⟨0, fun t ht ↦ ?_⟩
      rw [take_append_of_le_length hn.le]
      have hcut : (turn (order.map lane) round).take n <+: _ := take_prefix n _
      have hprefix := hcut.filter (tag · = t)
      rw [hturn t ht] at hprefix
      rcases hd : (lane t).drop round with _ | ⟨a, rest⟩
      · rw [hd] at hprefix
        exact .inl (prefix_nil.mp hprefix)
      · rw [hd, take_succ_cons, take_zero] at hprefix
        rcases prefix_cons_iff.mp hprefix with h | ⟨_, h, hnil⟩
        · exact .inl h
        · rw [prefix_nil.mp hnil] at h
          exact .inr h
    · obtain ⟨k, hk⟩ := ih (n - (turn (order.map lane) round).length)
      refine ⟨k + 1, fun t ht ↦ ?_⟩
      rw [take_append, take_of_length_le hn, filter_append, hturn t ht]
      rcases hk t ht with h | h
      · rw [h, ← drop_drop, take_one_append_take]
        exact .inl rfl
      · rw [h, ← drop_drop, take_one_append_take]
        exact .inr rfl

/-- An interleaving has the elements of every lane in the order of the lane. -/
theorem filter_interleave (htag : ∀ t, ∀ a ∈ lane t, tag a = t) (horder : order.Nodup) {t : τ}
    (ht : t ∈ order) (round : ℕ) :
    (interleave (order.map lane) round).filter (tag · = t) = (lane t).drop round := by
  fun_induction interleave (order.map lane) round with
  | case1 round hrow =>
    have hturn := filter_turn htag horder t round
    rw [hrow, if_pos ht] at hturn
    cases hd : (lane t).drop round with
    | nil => rfl
    | cons a rest => simp [hd] at hturn
  | case2 round hrow ih =>
    rw [filter_append, filter_turn htag horder, if_pos ht, ih, ← drop_drop,
      take_append_drop]

theorem exists_mem_of_mem_interleave {lanes : List (List α)} {round : ℕ} {a : α}
    (h : a ∈ interleave lanes round) : ∃ lane ∈ lanes, a ∈ lane := by
  fun_induction interleave lanes round with
  | case1 => cases h
  | case2 round hrow ih =>
    rcases mem_append.mp h with h | h
    · obtain ⟨lane, hlane, ha⟩ := mem_filterMap.mp h
      exact ⟨lane, hlane, mem_of_getElem? ha⟩
    · exact ih h

section Sorted

variable (tag order) in
/-- The elements of a list in lanes by their tags, in turn. -/
def alternate (items : List α) : List α :=
  interleave (order.map fun t ↦ items.filter (tag · = t)) 0

variable (horder : order.Nodup) (items : List α)
include horder

theorem alternate_perm (hall : ∀ a ∈ items, tag a ∈ order) :
    (alternate tag order items).Perm items := by
  classical
  refine perm_iff_count.mpr fun a ↦ ?_
  by_cases ha : tag a ∈ order
  · have hlane : (alternate tag order items).filter (tag · = tag a) =
        items.filter (tag · = tag a) :=
      filter_interleave (by simp) horder ha 0
    have hcount := congrArg (List.count a) hlane
    rwa [count_filter (by simp), count_filter (by simp)] at hcount
  · have hitems : a ∉ items := fun hmem ↦ ha (hall a hmem)
    have halternate : a ∉ alternate tag order items := fun hmem ↦ by
      obtain ⟨lane, hlane, hmem⟩ := exists_mem_of_mem_interleave hmem
      obtain ⟨t, -, rfl⟩ := mem_map.mp hlane
      exact hitems (mem_of_mem_filter hmem)
    rw [count_eq_zero.mpr hitems, count_eq_zero.mpr halternate]

theorem exists_take_alternate (limit : ℕ) :
    ∃ k, ∀ t ∈ order, ((alternate tag order items).take limit).filter (tag · = t) =
        (items.filter (tag · = t)).take k ∨
      ((alternate tag order items).take limit).filter (tag · = t) =
        (items.filter (tag · = t)).take (k + 1) := by
  have htag : ∀ t, ∀ a ∈ items.filter (tag · = t), tag a = t := by simp
  exact filter_take_interleave htag horder limit 0

/-- The beginning of every lane is taken. -/
theorem filter_take_alternate_prefix (limit : ℕ) {t : τ} (ht : t ∈ order) :
    ((alternate tag order items).take limit).filter (tag · = t) <+: items.filter (tag · = t) := by
  obtain ⟨k, hk⟩ := exists_take_alternate horder items limit
  rcases hk t ht with h | h <;> rw [h] <;> exact take_prefix _ _

/-- No lane is more than one element ahead of one that is not used up. -/
theorem length_filter_take_alternate_le (limit : ℕ) {s t : τ} (hs : s ∈ order) (ht : t ∈ order)
    (hleft : (((alternate tag order items).take limit).filter (tag · = t)).length <
      (items.filter (tag · = t)).length) :
    (((alternate tag order items).take limit).filter (tag · = s)).length ≤
      (((alternate tag order items).take limit).filter (tag · = t)).length + 1 := by
  obtain ⟨k, hk⟩ := exists_take_alternate horder items limit
  have hs : (((alternate tag order items).take limit).filter (tag · = s)).length ≤ k + 1 := by
    rcases hk s hs with h | h <;> rw [h, length_take] <;> omega
  have ht : k ≤ (((alternate tag order items).take limit).filter (tag · = t)).length := by
    rcases hk t ht with h | h <;> rw [h, length_take] at hleft ⊢ <;> omega
  omega

end Sorted

end Fair

end Codeclew.RoundRobin
