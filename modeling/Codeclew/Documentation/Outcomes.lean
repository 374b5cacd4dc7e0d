import Codeclew.Propagation

/-!
# Outcomes that a method can reach

Each bit of a mask stands for an outcome that was asked for, which a method may be the seed of. The
outcomes of the methods are found along the call edges, backwards from the seeds. A single outcome
is first looked for by at most two scans over all edges; only if these do not settle it, and for
several outcomes, an index is built and the bits are propagated by a work list.
-/

namespace Codeclew.Outcomes

open Std (ExtTreeMap)
open List

abbrev Masks := ExtTreeMap String (BitVec 32)

section Definitions

variable (methods : List String) (edges : List (String × String))

/-! ## Scans -/

def scanEdge (warm : Masks) (edge : String × String) : Masks :=
  if edge.2 ∈ warm ∧ edge.1 ∉ warm ∧ edge.1 ∈ methods then warm.insert edge.1 1 else warm

def scan (warm : Masks) : Masks := edges.foldl (scanEdge methods) warm

/-- Scan up to so many times, and say whether this was enough. -/
def warmUp : ℕ → Masks → Masks × Bool
  | 0, warm => (warm, false)
  | n + 1, warm =>
    let next := scan methods edges warm
    if next.size = warm.size ∨ next.size = methods.length then (next, true) else warmUp n next

/-! ## The index -/

/-- The place of a method, the last one if it is listed more than once. -/
def ids : ExtTreeMap String (Fin methods.length) :=
  (List.finRange methods.length).foldl (fun ids i ↦ ids.insert (methods.get i) i) ∅

def addPredecessor (predecessors : Fin methods.length → List (Fin methods.length))
    (edge : String × String) : Fin methods.length → List (Fin methods.length) :=
  match (ids methods)[edge.1]?, (ids methods)[edge.2]? with
  | some source, some target =>
    Function.update predecessors target (predecessors target ++ [source])
  | _, _ => predecessors

def predecessors : Fin methods.length → List (Fin methods.length) :=
  edges.foldl (addPredecessor methods) fun _ ↦ []

/-- The seeds that are listed, each with its bit. -/
def seedMarks (seeds : List (Option String)) : List (Fin methods.length × BitVec 32) :=
  seeds.zipIdx.filterMap fun (seed, bit) ↦
    (seed.bind fun id ↦ (ids methods)[id]?).map fun node ↦ (node, (1 : BitVec 32) <<< bit)

/-- What the scans have found; all of it is listed. -/
def warmMarks (warm : Masks) : List (Fin methods.length × BitVec 32) :=
  warm.toList.filterMap fun (id, mask) ↦ (ids methods)[id]?.map fun node ↦ (node, mask)

/-- The masks that the propagation starts with. -/
def startMasks (seeds : List (Option String)) (warm : Masks) : Spread methods.length 32 :=
  ((Spread.empty methods.length 32).markAll (seedMarks methods seeds)).markAll
    (warmMarks methods warm)

/-- The indexed propagation. -/
def indexedMasks (seeds : List (Option String)) (warm : Masks) : Masks :=
  let masks := ((startMasks methods seeds warm).spread (predecessors methods edges)).masks
  (ids methods).filterMap fun _ i ↦ if masks i ≠ 0 then some (masks i) else none

/-- A single outcome: two scans are tried before the index is built. -/
def singleMasks (seed : String) : Masks :=
  if seed ∈ methods then
    let (warm, settled) := warmUp methods edges 2 (ExtTreeMap.ofList [(seed, (1 : BitVec 32))])
    if settled then warm else indexedMasks methods edges [some seed] warm
  else ∅

/-- The outcomes of the methods. There must not be more than 32 of them. -/
def outcomeMasks (seeds : List (Option String)) : Option Masks :=
  if 32 < seeds.length then none
  else if seeds.all Option.isNone then some ∅
  else
    match seeds with
    | [some seed] => some (singleMasks methods edges seed)
    | _ => some (indexedMasks methods edges seeds ∅)

end Definitions

/-! ## What the masks say -/

section Reach

variable {methods : List String} {edges : List (String × String)} {seeds : List (Option String)}

/-- An edge between methods that are listed. -/
def Calls (methods : List String) (edges : List (String × String))
    (source target : String) : Prop :=
  (source, target) ∈ edges ∧ source ∈ methods ∧ target ∈ methods

/-- The seed of an outcome is listed, and a method reaches it. -/
def HasOutcome (methods : List String) (edges : List (String × String))
    (seeds : List (Option String)) (id : String) (bit : ℕ) : Prop :=
  ∃ seed, seeds[bit]? = some (some seed) ∧ seed ∈ methods ∧
    Relation.ReflTransGen (Calls methods edges) id seed

/-- The masks are those of the methods that reach an outcome. -/
def Exact (methods : List String) (edges : List (String × String)) (seeds : List (Option String))
    (masks : Masks) : Prop :=
  ∀ id mask, masks[id]? = some mask ↔ id ∈ methods ∧ mask ≠ 0 ∧
    ∀ bit, mask.getLsbD bit = true ↔ HasOutcome methods edges seeds id bit

theorem Exact.unique {masks masks' : Masks} (h : Exact methods edges seeds masks)
    (h' : Exact methods edges seeds masks') : masks = masks' := by
  refine ExtTreeMap.ext_getElem? fun id ↦ Option.ext fun mask ↦ ?_
  rw [h id mask, h' id mask]

/-! ## Places -/

theorem getElem?_foldl_insert {places : List (Fin methods.length)}
    {map : ExtTreeMap String (Fin methods.length)}
    (hmap : ∀ id i, map[id]? = some i → methods.get i = id) :
    (∀ id i, (places.foldl (fun ids i ↦ ids.insert (methods.get i) i) map)[id]? = some i →
      methods.get i = id) ∧
    ∀ id, id ∈ places.foldl (fun ids i ↦ ids.insert (methods.get i) i) map ↔
      id ∈ map ∨ ∃ i ∈ places, methods.get i = id := by
  induction places generalizing map with
  | nil => exact ⟨hmap, by simp⟩
  | cons place places ih =>
    have hinsert : ∀ id i, (map.insert (methods.get place) place)[id]? = some i →
        methods.get i = id := by
      intro id i h
      rw [ExtTreeMap.getElem?_insert] at h
      split_ifs at h with heq
      · obtain rfl := Option.some.inj h
        exact compare_eq_iff_eq.mp heq
      · exact hmap id i h
    obtain ⟨hget, hmem⟩ := ih hinsert
    refine ⟨hget, fun id ↦ (hmem id).trans ?_⟩
    rw [ExtTreeMap.mem_insert, compare_eq_iff_eq, exists_mem_cons_iff, or_assoc, or_left_comm]

variable {i : Fin methods.length} {id : String}

theorem get_of_getElem?_ids (h : (ids methods)[id]? = some i) : methods.get i = id :=
  (getElem?_foldl_insert (by simp)).1 id i h

theorem exists_place : (∃ i, (ids methods)[id]? = some i) ↔ id ∈ methods := by
  rw [← Option.isSome_iff_exists, ← ExtTreeMap.mem_iff_isSome_getElem?, ids,
    (getElem?_foldl_insert (by simp)).2 id, mem_iff_get]
  simp

variable {a b : String}

theorem ids_injective (ha : (ids methods)[a]? = some i) (hb : (ids methods)[b]? = some i) : a = b :=
  (get_of_getElem?_ids ha).symm.trans (get_of_getElem?_ids hb)

theorem mem_predecessors {source target : Fin methods.length} :
    source ∈ predecessors methods edges target ↔
      ∃ edge ∈ edges, (ids methods)[edge.1]? = some source ∧
        (ids methods)[edge.2]? = some target := by
  have hfold : ∀ known : Fin methods.length → List (Fin methods.length),
      source ∈ edges.foldl (addPredecessor methods) known target ↔ source ∈ known target ∨
        ∃ edge ∈ edges, (ids methods)[edge.1]? = some source ∧
          (ids methods)[edge.2]? = some target := by
    induction edges with
    | nil => simp
    | cons edge edges ih =>
      intro known
      rw [foldl_cons, ih, exists_mem_cons_iff, ← or_assoc]
      refine or_congr_left ?_
      rcases hs : (ids methods)[edge.1]? with _ | s
      · simp [addPredecessor, hs]
      rcases ht : (ids methods)[edge.2]? with _ | t
      · simp [addPredecessor, hs, ht]
      rcases eq_or_ne target t with rfl | hne
      · simp [addPredecessor, hs, ht, eq_comm]
      · simp [addPredecessor, hs, ht, hne, hne.symm]
  rw [predecessors, hfold]
  simp

/-- Places reach each other as the methods do. -/
theorem reaches_iff {i j : Fin methods.length} (ha : (ids methods)[a]? = some i)
    (hb : (ids methods)[b]? = some j) :
    Spread.Reaches (predecessors methods edges) i j ↔
      Relation.ReflTransGen (Calls methods edges) a b := by
  constructor
  · intro h
    induction h using Relation.ReflTransGen.head_induction_on generalizing a with
    | refl =>
      obtain rfl := ids_injective ha hb
      exact .refl
    | head hcaller _ ih =>
      obtain ⟨edge, hedge, hsource, htarget⟩ := mem_predecessors.mp hcaller
      obtain rfl := ids_injective ha hsource
      exact (ih htarget).head ⟨hedge, exists_place.mp ⟨_, hsource⟩, exists_place.mp ⟨_, htarget⟩⟩
  · intro h
    induction h using Relation.ReflTransGen.head_induction_on generalizing i with
    | refl =>
      obtain rfl := Option.some.inj (ha.symm.trans hb)
      exact .refl
    | head hcalls _ ih =>
      obtain ⟨k, hk⟩ := exists_place.mpr hcalls.2.2
      exact (ih hk).head (mem_predecessors.mpr ⟨_, hcalls.1, ha, hk⟩)

/-! ## The indexed propagation -/

theorem getLsbD_one_shiftLeft {bit b : ℕ} (h : bit < 32) :
    ((1 : BitVec 32) <<< bit).getLsbD b = decide (b = bit) := by
  rw [BitVec.getLsbD_shiftLeft]
  rcases Nat.lt_trichotomy b bit with hlt | rfl | hgt
  · simp [hlt, hlt.ne]
  · simp [h]
  · have hsub : b - bit ≠ 0 := by omega
    simp [hgt.ne', hsub]

variable {node : Fin methods.length}

theorem mem_seedMarks {mask : BitVec 32} :
    (node, mask) ∈ seedMarks methods seeds ↔
      ∃ (bit : ℕ) (seed : String), seeds[bit]? = some (some seed) ∧
        (ids methods)[seed]? = some node ∧ mask = (1 : BitVec 32) <<< bit := by
  rw [seedMarks, mem_filterMap]
  constructor
  · rintro ⟨⟨seed, bit⟩, hmem, h⟩
    obtain ⟨place, hplace, heq⟩ := Option.map_eq_some_iff.mp h
    obtain ⟨id, rfl, hid⟩ := Option.bind_eq_some_iff.mp hplace
    obtain ⟨rfl, rfl⟩ := Prod.mk.inj heq
    exact ⟨bit, id, mem_zipIdx_iff_getElem?.mp hmem, hid, rfl⟩
  · rintro ⟨bit, seed, hseed, hid, rfl⟩
    refine ⟨(some seed, bit), mem_zipIdx_iff_getElem?.mpr hseed, ?_⟩
    simp [hid]

variable {warm : Masks}

theorem mem_warmMarks {mask : BitVec 32} :
    (node, mask) ∈ warmMarks methods warm ↔
      ∃ id : String, warm[id]? = some mask ∧ (ids methods)[id]? = some node := by
  rw [warmMarks, mem_filterMap]
  constructor
  · rintro ⟨⟨id, mask'⟩, hmem, h⟩
    obtain ⟨place, hplace, heq⟩ := Option.map_eq_some_iff.mp h
    obtain ⟨rfl, rfl⟩ := Prod.mk.inj heq
    exact ⟨id, ExtTreeMap.mem_toList_iff_getElem?_eq_some.mp hmem, hplace⟩
  · rintro ⟨id, hid, hnode⟩
    exact ⟨(id, mask), ExtTreeMap.mem_toList_iff_getElem?_eq_some.mpr hid, by simp [hnode]⟩

/-- What the scans found is right. -/
def WarmSound (methods : List String) (edges : List (String × String))
    (seeds : List (Option String)) (warm : Masks) : Prop :=
  ∀ id mask, warm[id]? = some mask → ∀ bit, mask.getLsbD bit = true →
    HasOutcome methods edges seeds id bit

theorem HasOutcome.head {bit : ℕ} (h : HasOutcome methods edges seeds b bit)
    (hreach : Relation.ReflTransGen (Calls methods edges) a b) :
    HasOutcome methods edges seeds a bit := by
  obtain ⟨seed, hbit, hseed, hrest⟩ := h
  exact ⟨seed, hbit, hseed, hreach.trans hrest⟩

theorem getLsbD_startMasks {v : Fin methods.length} {b : ℕ} :
    ((startMasks methods seeds warm).masks v).getLsbD b = true ↔
      ∃ mask, ((v, mask) ∈ seedMarks methods seeds ∨ (v, mask) ∈ warmMarks methods warm) ∧
        mask.getLsbD b = true := by
  rw [startMasks, Spread.getLsbD_markAll, Spread.getLsbD_markAll]
  constructor
  · rintro ((h | ⟨⟨_, mask⟩, hmem, rfl, hb⟩) | ⟨⟨_, mask⟩, hmem, rfl, hb⟩)
    · simp [Spread.empty] at h
    · exact ⟨mask, .inl hmem, hb⟩
    · exact ⟨mask, .inr hmem, hb⟩
  · rintro ⟨mask, hmem | hmem, hb⟩
    · exact .inl (.inr ⟨(v, mask), hmem, rfl, hb⟩)
    · exact .inr ⟨(v, mask), hmem, rfl, hb⟩

/-- Whoever starts with a bit is on the list. -/
theorem marked_startMasks : (startMasks methods seeds warm).Marked ∧
    ∀ v, v ∉ (startMasks methods seeds warm).queue →
      (startMasks methods seeds warm).masks v = 0 := by
  obtain ⟨hseeds, hseedQueue⟩ := Spread.marked_empty.markAll (seedMarks methods seeds)
  obtain ⟨hmarked, hqueue⟩ := hseeds.markAll (warmMarks methods warm)
  refine ⟨hmarked, fun v hv ↦ BitVec.eq_of_getLsbD_eq fun b _ ↦ ?_⟩
  have hzero : (0 : BitVec 32).getLsbD b = false := BitVec.getLsbD_zero
  rw [hzero, Bool.eq_false_iff]
  intro hb
  obtain ⟨mask, hmem, -⟩ := getLsbD_startMasks.mp hb
  refine hv ((hqueue v).mpr ?_)
  rw [hseedQueue]
  exact hmem.imp (fun hmem ↦ .inr ⟨_, hmem, rfl⟩) fun hmem ↦ ⟨_, hmem, rfl⟩

theorem getLsbD_masks_iff (hseeds : seeds.length ≤ 32) (hwarm : WarmSound methods edges seeds warm)
    (hid : (ids methods)[id]? = some i) {b : ℕ} :
    (((startMasks methods seeds warm).spread (predecessors methods edges)).masks i).getLsbD b =
      true ↔
      HasOutcome methods edges seeds id b := by
  rw [Spread.getLsbD_spread_iff marked_startMasks.1 marked_startMasks.2]
  constructor
  · rintro ⟨u, hreach, hb⟩
    obtain ⟨mask, hmem | hmem, hbit⟩ := getLsbD_startMasks.mp hb
    · obtain ⟨bit, seed, hseed, hu, rfl⟩ := mem_seedMarks.mp hmem
      have hlt : bit < 32 := (List.getElem?_eq_some_iff.mp hseed).1.trans_le hseeds
      rw [getLsbD_one_shiftLeft hlt, decide_eq_true_iff] at hbit
      subst hbit
      exact ⟨seed, hseed, exists_place.mp ⟨u, hu⟩, (reaches_iff hid hu).mp hreach⟩
    · obtain ⟨id', hid', hu⟩ := mem_warmMarks.mp hmem
      exact (hwarm id' mask hid' b hbit).head ((reaches_iff hid hu).mp hreach)
  · rintro ⟨seed, hbit, hseed, hreach⟩
    obtain ⟨u, hu⟩ := exists_place.mpr hseed
    refine ⟨u, (reaches_iff hid hu).mpr hreach, getLsbD_startMasks.mpr
      ⟨_, .inl (mem_seedMarks.mpr ⟨b, seed, hbit, hu, rfl⟩), ?_⟩⟩
    have hlt : b < 32 := (List.getElem?_eq_some_iff.mp hbit).1.trans_le hseeds
    rw [getLsbD_one_shiftLeft hlt, decide_eq_true rfl]

theorem exact_indexedMasks (hseeds : seeds.length ≤ 32)
    (hwarm : WarmSound methods edges seeds warm) :
    Exact methods edges seeds (indexedMasks methods edges seeds warm) := by
  intro id mask
  rw [indexedMasks, ExtTreeMap.getElem?_filterMap', Option.bind_eq_some_iff]
  constructor
  · rintro ⟨i, hid, h⟩
    rw [Option.ite_none_right_eq_some, Option.some.injEq] at h
    obtain ⟨hne, rfl⟩ := h
    exact ⟨exists_place.mp ⟨i, hid⟩, hne, fun bit ↦ getLsbD_masks_iff hseeds hwarm hid⟩
  · rintro ⟨hmem, hne, hbits⟩
    obtain ⟨i, hid⟩ := exists_place.mpr hmem
    have heq : ((startMasks methods seeds warm).spread (predecessors methods edges)).masks i =
        mask := by
      refine BitVec.eq_of_getLsbD_eq fun b _ ↦ ?_
      rw [Bool.eq_iff_iff, getLsbD_masks_iff hseeds hwarm hid, hbits]
    exact ⟨i, hid, by rw [Option.ite_none_right_eq_some]; exact ⟨heq ▸ hne, congrArg some heq⟩⟩

/-! ## Scans -/

theorem scanEdge_cases (warm : Masks) (edge : String × String) :
    (scanEdge methods warm edge = warm ∧
      (edge.1 ∈ methods → edge.2 ∈ warm → edge.1 ∈ warm)) ∨
    (scanEdge methods warm edge = warm.insert edge.1 1 ∧ edge.2 ∈ warm ∧ edge.1 ∉ warm ∧
      edge.1 ∈ methods) := by
  rw [scanEdge]
  split_ifs with h
  · exact .inr ⟨rfl, h⟩
  · refine .inl ⟨rfl, fun hmem htarget ↦ ?_⟩
    by_contra hnot
    exact h ⟨htarget, hnot, hmem⟩

theorem size_scanEdge (warm : Masks) (edge : String × String) :
    scanEdge methods warm edge = warm ∨ (scanEdge methods warm edge).size = warm.size + 1 := by
  rcases scanEdge_cases warm edge with ⟨heq, -⟩ | ⟨heq, -, hnew, -⟩
  · exact .inl heq
  · rw [heq, ExtTreeMap.size_insert, if_neg (by rwa [← ExtTreeMap.mem_iff_contains])]
    exact .inr rfl

theorem size_le_scan (warm : Masks) : warm.size ≤ (scan methods edges warm).size := by
  rw [scan]
  induction edges generalizing warm with
  | nil => exact le_rfl
  | cons edge edges ih =>
    refine le_trans ?_ (ih (scanEdge methods warm edge))
    rcases size_scanEdge warm edge with heq | hsize
    · rw [heq]
    · omega

/-- A scan that finds nothing new has nothing to find. -/
theorem scan_eq_of_size_eq (h : (scan methods edges warm).size = warm.size) :
    scan methods edges warm = warm ∧
      ∀ edge ∈ edges, edge.1 ∈ methods → edge.2 ∈ warm → edge.1 ∈ warm := by
  induction edges generalizing warm with
  | nil => exact ⟨rfl, nofun⟩
  | cons edge edges ih =>
    have hle : (scanEdge methods warm edge).size ≤ (scan methods (edge :: edges) warm).size :=
      size_le_scan _
    rcases scanEdge_cases warm edge with ⟨heq, hedge⟩ | ⟨heq, -, hnew, -⟩
    · have hscan : scan methods (edge :: edges) warm = scan methods edges warm := by
        rw [scan, foldl_cons, heq, scan]
      rw [hscan] at h ⊢
      obtain ⟨hsame, hclosed⟩ := ih h
      exact ⟨hsame, forall_mem_cons.mpr ⟨hedge, hclosed⟩⟩
    · rw [h, heq, ExtTreeMap.size_insert, if_neg (by rwa [← ExtTreeMap.mem_iff_contains])] at hle
      omega

/-- What the scans for one seed have found. -/
structure Warm (methods : List String) (edges : List (String × String)) (seed : String)
    (warm : Masks) : Prop where
  mask : ∀ (id : String) (mask : BitVec 32), warm[id]? = some mask → mask = 1
  sound : ∀ id ∈ warm, Relation.ReflTransGen (Calls methods edges) id seed
  seed_mem : seed ∈ warm

theorem Warm.scan {seed : String} (hseed : seed ∈ methods) (h : Warm methods edges seed warm) :
    Warm methods edges seed (Outcomes.scan methods edges warm) := by
  have hfold : ∀ more ⊆ edges, Warm methods edges seed
      (more.foldl (scanEdge methods) warm) := by
    intro more hmore
    induction more generalizing warm with
    | nil => exact h
    | cons edge more ih =>
      obtain ⟨hedge, hmore⟩ := cons_subset.mp hmore
      refine ih ?_ hmore
      rcases scanEdge_cases warm edge with ⟨heq, -⟩ | ⟨heq, htarget, hnew, hmem⟩
      · rw [heq]
        exact h
      · rw [heq]
        have hreach := h.sound _ htarget
        have htarget' : edge.2 ∈ methods := by
          rcases Relation.ReflTransGen.cases_head hreach with rfl | ⟨_, hcalls, -⟩
          · exact hseed
          · exact hcalls.2.1
        refine ⟨fun id mask hid ↦ ?_, fun id hid ↦ ?_,
          ExtTreeMap.mem_insert.mpr (.inr h.seed_mem)⟩
        · rw [ExtTreeMap.getElem?_insert] at hid
          split_ifs at hid
          · exact (Option.some.inj hid).symm
          · exact h.mask id mask hid
        · rcases ExtTreeMap.mem_insert.mp hid with heq | hid
          · obtain rfl := compare_eq_iff_eq.mp heq
            exact hreach.head ⟨hedge, hmem, htarget'⟩
          · exact h.sound id hid
  exact hfold edges (List.Subset.refl _)

variable {seed : String} {warm : Masks}

theorem Warm.mem_methods (h : Warm methods edges seed warm) (hseed : seed ∈ methods)
    (hid : id ∈ warm) : id ∈ methods := by
  rcases Relation.ReflTransGen.cases_head (h.sound id hid) with rfl | ⟨_, hcalls, -⟩
  · exact hseed
  · exact hcalls.2.1

theorem hasOutcome_single {bit : ℕ} (hseed : seed ∈ methods) :
    HasOutcome methods edges [some seed] id bit ↔
      bit = 0 ∧ Relation.ReflTransGen (Calls methods edges) id seed := by
  constructor
  · rintro ⟨seed', hbit, -, hreach⟩
    obtain ⟨rfl, heq⟩ : bit = 0 ∧ some seed = some seed' := by
      rcases bit with _ | bit
      · exact ⟨rfl, by simpa using hbit⟩
      · simp at hbit
    obtain rfl := Option.some.inj heq
    exact ⟨rfl, hreach⟩
  · rintro ⟨rfl, hreach⟩
    exact ⟨seed, rfl, hseed, hreach⟩

section

variable (h : Warm methods edges seed warm)
include h

section

variable (hseed : seed ∈ methods)
include hseed

theorem Warm.warmSound :
    WarmSound methods edges [some seed] warm := by
  intro id mask hid bit hbit
  rw [h.mask id mask hid] at hbit
  obtain rfl : bit = 0 := by simpa using hbit
  refine (hasOutcome_single hseed).mpr ⟨rfl, h.sound id ?_⟩
  rw [ExtTreeMap.mem_iff_isSome_getElem?, hid]
  rfl

/-- Scans that are settled have found everything. -/
theorem Warm.exact (hclosed : ∀ source target, Calls methods edges source target → target ∈ warm →
      source ∈ warm) : Exact methods edges [some seed] warm := by
  have hmem : ∀ id, Relation.ReflTransGen (Calls methods edges) id seed → id ∈ warm := by
    intro id hreach
    induction hreach using Relation.ReflTransGen.head_induction_on with
    | refl => exact h.seed_mem
    | head hcalls _ ih => exact hclosed _ _ hcalls ih
  intro id mask
  constructor
  · intro hid
    have hin : id ∈ warm := by
      rw [ExtTreeMap.mem_iff_isSome_getElem?, hid]
      rfl
    obtain rfl := h.mask id mask hid
    refine ⟨h.mem_methods hseed hin, by decide, fun bit ↦ ?_⟩
    rw [hasOutcome_single hseed]
    simp [h.sound id hin]
  · rintro ⟨-, hne, hbits⟩
    obtain ⟨bit, hbit⟩ : ∃ bit, mask.getLsbD bit = true := by
      by_contra hno
      push Not at hno
      exact hne (BitVec.eq_of_getLsbD_eq fun b _ ↦ by simpa using hno b)
    obtain ⟨-, hreach⟩ := (hasOutcome_single hseed).mp ((hbits bit).mp hbit)
    obtain ⟨mask', hid⟩ :=
      Option.isSome_iff_exists.mp (ExtTreeMap.mem_iff_isSome_getElem?.mp (hmem id hreach))
    obtain rfl := h.mask id mask' hid
    have heq : mask = 1 := by
      refine BitVec.eq_of_getLsbD_eq fun b _ ↦ ?_
      rw [Bool.eq_iff_iff, hbits, hasOutcome_single hseed]
      simp [hreach]
    rw [hid, heq]

theorem Warm.forall_mem_of_size_eq (hsize : warm.size = methods.length) :
    ∀ id ∈ methods, id ∈ warm := by
  have hsubset : warm.keys ⊆ methods := fun id hid ↦
    h.mem_methods hseed (ExtTreeMap.mem_keys.mp hid)
  have hperm : warm.keys.Perm methods :=
    (subperm_of_subset ExtTreeMap.nodup_keys hsubset).perm_of_length_le
      (by rw [ExtTreeMap.length_keys, hsize])
  exact fun id hid ↦ ExtTreeMap.mem_keys.mp (hperm.mem_iff.mpr hid)

theorem Warm.warmUp (n : ℕ) :
    Warm methods edges seed (warmUp methods edges n warm).1 ∧
      ((Outcomes.warmUp methods edges n warm).2 = true →
        Exact methods edges [some seed] (Outcomes.warmUp methods edges n warm).1) := by
  induction n generalizing warm with
  | zero => exact ⟨h, nofun⟩
  | succ n ih =>
    have hnext := h.scan hseed
    rw [Outcomes.warmUp]
    split_ifs with hsettled
    · refine ⟨hnext, fun _ ↦ hnext.exact hseed fun source target hcalls htarget ↦ ?_⟩
      rcases hsettled with hsame | hall
      · obtain ⟨heq, hclosed⟩ := scan_eq_of_size_eq hsame
        rw [heq] at htarget ⊢
        exact hclosed _ hcalls.1 hcalls.2.1 htarget
      · exact hnext.forall_mem_of_size_eq hseed hall source hcalls.2.1
    · exact ih hnext

end

end

theorem warm_seed (edges : List (String × String)) (seed : String) :
    Warm methods edges seed (ExtTreeMap.ofList [(seed, (1 : BitVec 32))]) := by
  refine ⟨fun id mask h ↦ ?_, fun id hid ↦ ?_, by simp⟩
  · rw [ExtTreeMap.ofList_singleton, ExtTreeMap.getElem?_insert] at h
    split_ifs at h
    · exact (Option.some.inj h).symm
    · simp at h
  · obtain rfl : seed = id := by simpa using hid
    exact .refl

/-! ## Outcomes -/

theorem exact_empty (h : ∀ id bit, ¬HasOutcome methods edges seeds id bit) :
    Exact methods edges seeds ∅ := by
  refine fun id mask ↦ iff_of_false (by simp) ?_
  rintro ⟨-, hne, hbits⟩
  refine hne (BitVec.eq_of_getLsbD_eq fun b _ ↦ ?_)
  have hno := h id b
  rw [← hbits, Bool.not_eq_true] at hno
  simpa using hno

theorem exact_singleMasks (seed : String) :
    Exact methods edges [some seed] (singleMasks methods edges seed) := by
  rw [singleMasks]
  split_ifs with hseed
  · obtain ⟨hwarm, hexact⟩ := (warm_seed edges seed).warmUp hseed 2
    dsimp only
    split_ifs with hsettled
    · exact hexact hsettled
    · exact exact_indexedMasks (Nat.le_of_ble_eq_true rfl) (hwarm.warmSound hseed)
  · refine exact_empty fun id bit hbit ↦ ?_
    obtain ⟨seed', heq, hseed', -⟩ := hbit
    have hmem := mem_of_getElem? heq
    obtain rfl := Option.some.inj (mem_singleton.mp hmem)
    exact hseed hseed'

/-- The masks are the outcomes that can be reached, and those of the indexed propagation alone. -/
theorem outcomeMasks_exact (methods : List String) (edges : List (String × String))
    (seeds : List (Option String)) (hseeds : seeds.length ≤ 32) :
    ∃ masks, outcomeMasks methods edges seeds = some masks ∧
      Exact methods edges seeds masks ∧ masks = indexedMasks methods edges seeds ∅ := by
  have hindexed : Exact methods edges seeds (indexedMasks methods edges seeds ∅) :=
    exact_indexedMasks hseeds fun id mask h ↦ by simp at h
  suffices h : ∃ masks, outcomeMasks methods edges seeds = some masks ∧
      Exact methods edges seeds masks by
    obtain ⟨masks, heq, hexact⟩ := h
    exact ⟨masks, heq, hexact, hexact.unique hindexed⟩
  rw [outcomeMasks.eq_def, if_neg (Nat.not_lt.mpr hseeds)]
  by_cases hnone : seeds.all Option.isNone = true
  · rw [if_pos hnone]
    refine ⟨∅, rfl, exact_empty fun id bit hbit ↦ ?_⟩
    obtain ⟨seed, hseed, -⟩ := hbit
    have hsome := all_eq_true.mp hnone _ (mem_of_getElem? hseed)
    cases hsome
  · rw [if_neg hnone]
    split
    · exact ⟨_, rfl, exact_singleMasks _⟩
    · exact ⟨_, rfl, hindexed⟩

/-- A cycle, an edge that leaves the methods, and a seed that is not listed. -/
theorem outcomeMasks_exact_cycle : ∃ masks,
    outcomeMasks ["a", "b", "c"] [("a", "b"), ("b", "a"), ("c", "x"), ("b", "c")]
      [some "c", some "x", none] = some masks ∧
      Exact ["a", "b", "c"] [("a", "b"), ("b", "a"), ("c", "x"), ("b", "c")]
        [some "c", some "x", none] masks := by
  obtain ⟨masks, heq, hexact, -⟩ := outcomeMasks_exact ["a", "b", "c"]
    [("a", "b"), ("b", "a"), ("c", "x"), ("b", "c")] [some "c", some "x", none] (by decide)
  exact ⟨masks, heq, hexact⟩

end Reach

end Codeclew.Outcomes
