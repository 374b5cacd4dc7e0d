import Mathlib

/-!
# Depth-first search and components

A depth-first search lists what it finds, each node after what was found from it. `Found` says of
such a list what holds among the nodes the search had not seen: the list has exactly what can be
reached around those, and it is `Finished`, that is, a node which reaches into a rest of the list
behind it shares a cycle with some node of that rest. The two rules `Found.append` and `Found.node`
follow the search.

A second search runs backwards, over the nodes from the last finished on. What it finds from a node
that it has not seen is the component of the node (`Found.mem_iff_mutual`), so the lists it collects
are the components: `Components`.
-/

namespace Codeclew.DepthFirst

open Relation List

variable {α : Type} {r : α → α → Prop} {seen other : Set α} {a b c : α}

/-- There is a way from one node to another around the seen nodes, where it starts apart. -/
def Around (r : α → α → Prop) (seen : Set α) : α → α → Prop :=
  ReflTransGen fun a b ↦ r a b ∧ b ∉ seen

/-- Two nodes reach each other. -/
def Mutual (r : α → α → Prop) (a b : α) : Prop := ReflTransGen r a b ∧ ReflTransGen r b a

theorem Mutual.refl (a : α) : Mutual r a a := ⟨.refl, .refl⟩

theorem Mutual.symm (h : Mutual r a b) : Mutual r b a := ⟨h.2, h.1⟩

theorem Mutual.trans (h : Mutual r a b) (h' : Mutual r b c) : Mutual r a c :=
  ⟨h.1.trans h'.1, h'.2.trans h.2⟩

theorem Around.mono (h : Around r other a b) (hsub : seen ⊆ other) : Around r seen a b := by
  refine ReflTransGen.mono ?_ a b h
  exact fun x y hstep ↦ ⟨hstep.1, fun hmem ↦ hstep.2 (hsub hmem)⟩

theorem Around.reach (h : Around r seen a b) : ReflTransGen r a b := by
  refine ReflTransGen.mono ?_ a b h
  exact fun x y hstep ↦ hstep.1

theorem Around.notMem (h : Around r seen a b) (ha : a ∉ seen) : b ∉ seen := by
  cases h with
  | refl => exact ha
  | tail _ hstep => exact hstep.2

theorem around_empty : Around r ∅ a b ↔ ReflTransGen r a b := by
  refine ⟨Around.reach, ReflTransGen.mono ?_ a b⟩
  exact fun x y hstep ↦ ⟨hstep, Set.notMem_empty y⟩

/-- A way around some nodes goes around others, too, or through one of them. -/
theorem Around.union_or (h : Around r seen a b) (other : Set α) :
    Around r (seen ∪ other) a b ∨ ∃ c ∈ other, Around r seen a c ∧ Around r seen c b := by
  induction h with
  | refl => exact .inl .refl
  | @tail b c hab hbc ih =>
    rcases ih with hunion | ⟨d, hd, had, hdb⟩
    · by_cases hc : c ∈ other
      · exact .inr ⟨c, hc, hab.tail hbc, .refl⟩
      · refine .inl (hunion.tail ⟨hbc.1, ?_⟩)
        rintro (hseen | hother)
        · exact hbc.2 hseen
        · exact hc hother
    · exact .inr ⟨d, hd, had, hdb.tail hbc⟩

/-! ## What a search finds -/

/-- A node that reaches into the list behind it shares a cycle with a node behind it. -/
def Finished (r : α → α → Prop) (seen : Set α) (found : List α) : Prop :=
  ∀ before behind, found = before ++ behind → ∀ a ∈ before, ∀ b ∈ behind, Around r seen a b →
    ∃ c ∈ behind, Around r seen a c ∧ Around r seen c a

/-- What is found from some nodes, of what had not been seen. -/
structure Found (r : α → α → Prop) (seen : Set α) (starts found : List α) : Prop where
  nodup : found.Nodup
  mem_iff : ∀ x, x ∈ found ↔ ∃ a ∈ starts, a ∉ seen ∧ Around r seen a x
  finished : Finished r seen found

variable {starts starts' found found' : List α}

theorem Found.notMem (h : Found r seen starts found) (ha : a ∈ found) : a ∉ seen := by
  obtain ⟨b, -, hb, hba⟩ := (h.mem_iff a).mp ha
  exact hba.notMem hb

/-- What can be reached from what was found was found. -/
theorem Found.closed (h : Found r seen starts found) (ha : a ∈ found) (hab : Around r seen a b) :
    b ∈ found := by
  obtain ⟨c, hc, hseen, hca⟩ := (h.mem_iff a).mp ha
  exact (h.mem_iff b).mpr ⟨c, hc, hseen, hca.trans hab⟩

theorem found_nil (r : α → α → Prop) (seen : Set α) : Found r seen [] [] where
  nodup := nodup_nil
  mem_iff x := by simp
  finished before behind h a ha := by
    obtain ⟨rfl, -⟩ := append_eq_nil_iff.mp h.symm
    cases ha

/-- From a seen node nothing is found. -/
theorem found_seen (ha : a ∈ seen) : Found r seen [a] [] where
  nodup := nodup_nil
  mem_iff x := by simp [ha]
  finished := (found_nil r seen).finished

/-- The search goes on from further nodes. -/
theorem Found.append (h : Found r seen starts found)
    (h' : Found r (seen ∪ {x | x ∈ found}) starts' found') :
    Found r seen (starts ++ starts') (found ++ found') := by
  have hdisjoint : ∀ x, x ∈ found' → x ∉ found := fun x hx hmem ↦ h'.notMem hx (.inr hmem)
  refine ⟨h.nodup.append h'.nodup fun x hx hx' ↦ hdisjoint x hx' hx, fun x ↦ ?_, ?_⟩
  · rw [mem_append]
    constructor
    · rintro (hx | hx)
      · obtain ⟨a, ha, hseen, hax⟩ := (h.mem_iff x).mp hx
        exact ⟨a, mem_append_left _ ha, hseen, hax⟩
      · obtain ⟨a, ha, hseen, hax⟩ := (h'.mem_iff x).mp hx
        exact ⟨a, mem_append_right _ ha, fun hmem ↦ hseen (.inl hmem),
          hax.mono Set.subset_union_left⟩
    · rintro ⟨a, ha, hseen, hax⟩
      rcases mem_append.mp ha with ha | ha
      · exact .inl ((h.mem_iff x).mpr ⟨a, ha, hseen, hax⟩)
      · by_cases hfound : a ∈ found
        · exact .inl (h.closed hfound hax)
        · rcases hax.union_or {x | x ∈ found} with hunion | ⟨c, hc, -, hcx⟩
          · refine .inr ((h'.mem_iff x).mpr ⟨a, ha, ?_, hunion⟩)
            rintro (hmem | hmem)
            · exact hseen hmem
            · exact hfound hmem
          · exact .inl (h.closed hc hcx)
  · intro before behind heq a ha b hb hab
    -- the list is cut either in its second part or in its first
    rcases append_eq_append_iff.mp heq with ⟨rest, rfl, hrest⟩ | ⟨rest, hrest, rfl⟩
    · have hb' : b ∉ found := hdisjoint b (hrest ▸ mem_append_right _ hb)
      rcases mem_append.mp ha with ha | ha
      · exact absurd (h.closed ha hab) hb'
      · rcases hab.union_or {x | x ∈ found} with hunion | ⟨c, hc, -, hcb⟩
        · obtain ⟨c, hc, hac, hca⟩ := h'.finished rest behind hrest a ha b hb hunion
          exact ⟨c, hc, hac.mono Set.subset_union_left, hca.mono Set.subset_union_left⟩
        · exact absurd (h.closed hc hcb) hb'
    · have hmem : b ∈ found := h.closed (hrest ▸ mem_append_left _ ha) hab
      have hb' : b ∈ rest := by
        rcases mem_append.mp hb with hb | hb
        · exact hb
        · exact absurd hmem (hdisjoint b hb)
      obtain ⟨c, hc, hac, hca⟩ := h.finished before rest hrest a ha b hb' hab
      exact ⟨c, mem_append_left _ hc, hac, hca⟩

/-- A node comes after what is found from those it leads to. -/
theorem Found.node (ha : a ∉ seen) (hstarts : ∀ b, b ∈ starts ↔ r a b)
    (h : Found r (seen ∪ {a}) starts found) : Found r seen [a] (found ++ [a]) := by
  have hmem : ∀ x, x ∈ found → Around r seen a x := by
    intro x hx
    obtain ⟨b, hb, hseen, hbx⟩ := (h.mem_iff x).mp hx
    have hab : Around r seen a b :=
      .single ⟨(hstarts b).mp hb, fun hmem ↦ hseen (.inl hmem)⟩
    exact hab.trans (hbx.mono Set.subset_union_left)
  have hnot : a ∉ found := fun hmem ↦ h.notMem hmem (.inr rfl)
  refine ⟨h.nodup.append (nodup_singleton a) (by simpa using hnot), fun x ↦ ?_, ?_⟩
  · rw [mem_append, mem_singleton]
    constructor
    · rintro (hx | rfl)
      · exact ⟨a, mem_singleton_self a, ha, hmem x hx⟩
      · exact ⟨x, mem_singleton_self x, ha, .refl⟩
    · rintro ⟨b, hb, -, hbx⟩
      obtain rfl := mem_singleton.mp hb
      -- along the way: what is found is closed, except for the way back to the node
      induction hbx with
      | refl => exact .inr rfl
      | @tail y z _ hstep ih =>
        by_cases hz : z = b
        · exact .inr hz
        · have hnew : z ∉ seen ∪ {b} := by
            rintro (hmem | hmem)
            · exact hstep.2 hmem
            · exact hz hmem
          rcases ih with hy | rfl
          · exact .inl (h.closed hy (.single ⟨hstep.1, hnew⟩))
          · exact .inl ((h.mem_iff z).mpr ⟨z, (hstarts z).mpr hstep.1, hnew, .refl⟩)
  · intro before behind heq x hx y hy hxy
    have hback : Around r seen a x := by
      have hx' : x ∈ found ++ [a] := heq ▸ mem_append_left _ hx
      rcases mem_append.mp hx' with hx' | hx'
      · exact hmem x hx'
      · rw [mem_singleton.mp hx']
        exact .refl
    rcases append_eq_append_iff.mp heq with ⟨rest, rfl, hrest⟩ | ⟨rest, hrest, rfl⟩
    · have hya : y = a := mem_singleton.mp (hrest ▸ mem_append_right _ hy)
      exact ⟨y, hy, hxy, hya ▸ hback⟩
    · by_cases hxa : Around r seen x a
      · exact ⟨a, mem_append_right _ (mem_singleton_self a), hxa, hback⟩
      · rcases mem_append.mp hy with hy | hy
        · rcases hxy.union_or {a} with hunion | ⟨c, rfl, hxc, -⟩
          · obtain ⟨c, hc, hxc, hcx⟩ := h.finished before rest hrest x hx y hy hunion
            exact ⟨c, mem_append_left _ hc, hxc.mono Set.subset_union_left,
              hcx.mono Set.subset_union_left⟩
          · exact absurd hxc hxa
        · exact absurd (mem_singleton.mp hy ▸ hxy) hxa

/-! ## Searches -/

/-- A search from some nodes. Its states are what has been seen and what has been listed. -/
def Visited (r : α → α → Prop) (starts : List α) (s s' : List α × List α) : Prop :=
  ∃ found, s'.2 = s.2 ++ found ∧ (∀ x, x ∈ s'.1 ↔ x ∈ s.1 ∨ x ∈ found) ∧
    Found r {x | x ∈ s.1} starts found

variable {s s' s'' : List α × List α}

theorem Visited.subset (h : Visited r starts s s') : s.1 ⊆ s'.1 := by
  obtain ⟨found, -, hseen, -⟩ := h
  exact fun x hx ↦ (hseen x).mpr (.inl hx)

theorem visited_nil (r : α → α → Prop) (s : List α × List α) : Visited r [] s s :=
  ⟨[], (append_nil _).symm, fun x ↦ by simp, found_nil r _⟩

theorem visited_seen (ha : a ∈ s.1) : Visited r [a] s s :=
  ⟨[], (append_nil _).symm, fun x ↦ by simp, found_seen ha⟩

theorem Visited.append (h : Visited r starts s s') (h' : Visited r starts' s' s'') :
    Visited r (starts ++ starts') s s'' := by
  obtain ⟨found, hlist, hseen, hfound⟩ := h
  obtain ⟨found', hlist', hseen', hfound'⟩ := h'
  have hunion : {x | x ∈ s'.1} = {x | x ∈ s.1} ∪ {x | x ∈ found} := Set.ext hseen
  rw [hunion] at hfound'
  refine ⟨found ++ found', ?_, fun x ↦ ?_, hfound.append hfound'⟩
  · rw [hlist', hlist, append_assoc]
  · rw [hseen', hseen, mem_append, or_assoc]

theorem Visited.node (ha : a ∉ s.1) (hstarts : ∀ b, b ∈ starts ↔ r a b)
    (h : Visited r starts (a :: s.1, s.2) s') : Visited r [a] s (s'.1, s'.2 ++ [a]) := by
  obtain ⟨found, hlist, hseen, hfound⟩ := h
  have hunion : {x | x ∈ a :: s.1} = {x | x ∈ s.1} ∪ {a} := by
    ext x
    simp
  rw [hunion] at hfound
  refine ⟨found ++ [a], ?_, fun x ↦ ?_, hfound.node ha hstarts⟩
  · rw [hlist, append_assoc]
  · rw [hseen, mem_cons, mem_append, mem_singleton]
    tauto

/-- A loop over the nodes is a search, if each round is. What the rounds need must not be lost when
more has been seen. -/
theorem visited_foldl {f : List α × List α → α → List α × List α} {P : List α × List α → Prop}
    (hP : ∀ s s', s.1 ⊆ s'.1 → P s → P s') (starts : List α)
    (hround : ∀ a ∈ starts, ∀ s, P s → Visited r [a] s (f s a)) (hs : P s) :
    Visited r starts s (starts.foldl f s) := by
  induction starts generalizing s with
  | nil => exact visited_nil r s
  | cons a starts ih =>
    have hfirst := hround a mem_cons_self s hs
    exact hfirst.append (ih (fun b hb ↦ hround b (mem_cons_of_mem _ hb))
      (hP s _ hfirst.subset hs))

/-! ## Components -/

/-- Lists of nodes that are the components of what the second search has seen. -/
structure Components (r : α → α → Prop) (seen : Set α) (groups : List (List α)) : Prop where
  closed : ∀ b ∈ seen, ∀ a, r a b → a ∈ seen
  mem_iff : ∀ a, a ∈ seen ↔ ∃ group ∈ groups, a ∈ group
  exact : ∀ group ∈ groups, ∃ a ∈ group, ∀ b, b ∈ group ↔ Mutual r a b
  nodup : groups.Nodup

theorem components_nil (r : α → α → Prop) : Components r ∅ [] where
  closed b hb := hb.elim
  mem_iff a := by simp
  exact group h := by cases h
  nodup := nodup_nil

variable {groups : List (List α)} {group before behind : List α}

theorem Components.reach (h : Components r seen groups) (hb : b ∈ seen) (hab : ReflTransGen r a b) :
    a ∈ seen := by
  induction hab with
  | refl => exact hb
  | tail _ hstep ih => exact ih (h.closed _ hb _ hstep)

section Step

variable (h : Components r seen groups) (hfinished : Finished r ∅ (before ++ a :: behind))
  (hall : ∀ x y, r x y → x ∈ before ++ a :: behind) (hbehind : ∀ x ∈ behind, x ∈ seen)
  (ha : a ∉ seen) (hfound : Found (Function.swap r) seen [a] group)
include h hfinished hall hbehind ha hfound

/-- From a node it has not seen, with everything behind the node seen, the second search finds the
component of the node. -/
theorem Components.mem_iff_mutual (b : α) : b ∈ group ↔ Mutual r a b := by
  have hback : b ∈ group ↔ Around (Function.swap r) seen a b := by
    simp [hfound.mem_iff, ha]
  rw [hback]
  clear hback
  constructor
  · intro hab
    have hba : ReflTransGen r b a := reflTransGen_swap.mp hab.reach
    refine ⟨?_, hba⟩
    rcases hba.cases_head with rfl | ⟨c, hbc, -⟩
    · exact .refl
    · have hb : b ∉ seen := hab.notMem ha
      rcases mem_append.mp (hall b c hbc) with hmem | hmem
      · -- the node has finished before `a`, which it reaches
        obtain ⟨d, hd, hbd, hdb⟩ := hfinished before (a :: behind) rfl b hmem a
          mem_cons_self (around_empty.mpr hba)
        rcases mem_cons.mp hd with rfl | hd
        · exact hdb.reach
        · exact absurd (h.reach (hbehind d hd) hbd.reach) hb
      · rcases mem_cons.mp hmem with rfl | hmem
        · exact .refl
        · exact absurd (hbehind b hmem) hb
  · rintro ⟨hab, hba⟩
    induction hba using ReflTransGen.head_induction_on with
    | refl => exact .refl
    | head hbc _ ih =>
      exact (ih (hab.tail hbc)).tail ⟨hbc, fun hmem ↦ ha (h.reach hmem hab)⟩

theorem Components.step {sorted : List α} (hsorted : ∀ x, x ∈ sorted ↔ x ∈ group) :
    Components r (seen ∪ {x | x ∈ group}) (groups ++ [sorted]) where
  closed := by
    rintro y (hy | hy) x hxy
    · exact .inl (h.closed y hy x hxy)
    · by_cases hx : x ∈ seen
      · exact .inl hx
      · exact .inr (hfound.closed hy (.single ⟨hxy, hx⟩))
  mem_iff x := by
    simp [h.mem_iff, hsorted, or_and_right, exists_or]
  exact := by
    intro other hother
    rcases mem_append.mp hother with hother | hother
    · exact h.exact other hother
    · obtain rfl := mem_singleton.mp hother
      have hmutual := h.mem_iff_mutual hfinished hall hbehind ha hfound
      refine ⟨a, (hsorted a).mpr ((hmutual a).mpr (Mutual.refl a)), fun b ↦ ?_⟩
      rw [hsorted, hmutual]
  nodup := by
    have hmutual := h.mem_iff_mutual hfinished hall hbehind ha hfound
    have hmem : a ∈ sorted := (hsorted a).mpr ((hmutual a).mpr (Mutual.refl a))
    refine h.nodup.append (nodup_singleton sorted) ?_
    rw [disjoint_singleton]
    exact fun hgroup ↦ ha ((h.mem_iff a).mpr ⟨sorted, hgroup, hmem⟩)

end Step

/-- A component that has more than one node, or whose node leads to itself, has a cycle. -/
theorem transGen_iff_of_mutual [DecidableEq α] (hnodup : group.Nodup)
    (hmem : ∀ x, x ∈ group ↔ Mutual r a x) :
    TransGen r a a ↔ 1 < group.length ∨ ∃ x ∈ group, r x x := by
  constructor
  · intro hcycle
    obtain ⟨b, hab, hba⟩ := TransGen.head'_iff.mp hcycle
    have ha : a ∈ group := (hmem a).mpr (Mutual.refl a)
    by_cases heq : b = a
    · exact .inr ⟨a, ha, heq ▸ hab⟩
    · have hb : b ∈ group := (hmem b).mpr ⟨.single hab, hba⟩
      refine .inl ?_
      rw [← toFinset_card_of_nodup hnodup, Finset.one_lt_card]
      exact ⟨a, mem_toFinset.mpr ha, b, mem_toFinset.mpr hb, fun h ↦ heq h.symm⟩
  · rintro (hlength | ⟨x, hx, hxx⟩)
    · rw [← toFinset_card_of_nodup hnodup] at hlength
      obtain ⟨b, hb, hne⟩ := Finset.exists_mem_ne hlength a
      obtain ⟨hab, hba⟩ := (hmem b).mp (mem_toFinset.mp hb)
      rcases reflTransGen_iff_eq_or_transGen.mp hab with heq | htrans
      · exact absurd heq hne
      · exact htrans.trans_left hba
    · obtain ⟨hax, hxa⟩ := (hmem x).mp hx
      exact TransGen.trans_right hax (.trans_left (.single hxx) hxa)

end Codeclew.DepthFirst
