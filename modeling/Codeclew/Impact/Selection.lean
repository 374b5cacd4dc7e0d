import Codeclew.Callables.Shards
import Codeclew.Flow.Build
import Codeclew.RoundRobin

/-!
# What an impact report selects

The impact of a change is looked for on two sides, the provider's and the consumers', among facts of
three kinds. A report has room for a limited number of facts and of source windows, so it takes them
in turn: facts from the six lanes of a side and a kind, windows from the two sides.
-/

namespace Codeclew.Impact

open Callables RoundRobin
open List hiding interleave

inductive ImpactSide where
  | provider
  | consumer
  deriving DecidableEq, Repr

def ImpactSide.name : ImpactSide → String
  | .provider => "PROVIDER"
  | .consumer => "CONSUMER"

/-! ## Candidates -/

structure Lane where
  side : ImpactSide
  kind : CallableFactKind
  deriving DecidableEq, Repr

structure Candidate where
  side : ImpactSide
  memberAlias : String
  fact : Flow.CallableFact
  shardRef : Cas.CasObject

def factKind : Flow.CallableFact → CallableFactKind
  | .declaration _ => .declaration
  | .use _ => .use
  | .boundary _ => .boundary

def Candidate.lane (candidate : Candidate) : Lane := ⟨candidate.side, factKind candidate.fact⟩

def laneOrder : List Lane :=
  [⟨.provider, .declaration⟩, ⟨.provider, .use⟩, ⟨.provider, .boundary⟩,
    ⟨.consumer, .declaration⟩, ⟨.consumer, .use⟩, ⟨.consumer, .boundary⟩]

theorem mem_laneOrder (lane : Lane) : lane ∈ laneOrder := by
  obtain ⟨side, kind⟩ := lane
  cases side <;> cases kind <;> decide

/-- The candidates of the lanes in turn, as many as there is room for, and whether some are left. -/
def fairTakeCandidates (candidates : List Candidate) (limit : ℕ) : List Candidate × Bool :=
  let lanes := laneOrder.map fun lane ↦ candidates.filter (·.lane = lane)
  let selected := deal (fun selected ↦ decide (limit ≤ selected.length))
    (fun selected candidate ↦ some (selected ++ [candidate])) [] lanes
  (selected, decide (limit < candidates.length))

/-- What is taken without a condition is taken up to the limit. -/
theorem absorb_append {α : Type} (limit : ℕ) (selected xs : List α) :
    absorb (fun selected ↦ decide (limit ≤ selected.length))
      (fun selected a ↦ some (selected ++ [a])) selected xs =
        selected ++ xs.take (limit - selected.length) := by
  induction xs generalizing selected with
  | nil => simp [absorb]
  | cons a xs ih =>
    rw [absorb]
    split_ifs with hfull
    · rw [Nat.sub_eq_zero_of_le (of_decide_eq_true hfull), take_zero, append_nil]
    · have hroom : limit - selected.length = limit - (selected ++ [a]).length + 1 := by
        rw [decide_eq_true_eq] at hfull
        rw [length_append, length_singleton]
        omega
      change absorb _ _ (selected ++ [a]) xs = _
      rw [ih, hroom, take_succ_cons, append_assoc, singleton_append]

theorem fst_fairTakeCandidates (candidates : List Candidate) (limit : ℕ) :
    (fairTakeCandidates candidates limit).1 =
      (alternate Candidate.lane laneOrder candidates).take limit := by
  rw [fairTakeCandidates, deal_eq, absorb_append, nil_append]
  rfl

/-! ## Source windows -/

structure SourceAnchor where
  path : String
  start : Option UInt64
  stop : Option UInt64
  contentRef : Cas.CasObject
  deriving DecidableEq

/-- A finding, with the source of the evidence's provenance. -/
structure ImpactFinding where
  findingId : String
  side : ImpactSide
  memberAlias : String
  source : Option SourceAnchor

structure ImpactSourceWindow where
  windowId : String
  side : ImpactSide
  memberAlias : String
  anchor : SourceAnchor
  spanBytes : UInt64
  findingIds : List String
  deriving DecidableEq

/-- What tells windows apart, in the order in which they are listed. -/
abbrev WindowKey := ℕ ×ₗ String ×ₗ String ×ₗ WithBot ℕ ×ₗ WithBot ℕ ×ₗ String

def windowKey (side : ImpactSide) (memberAlias : String) (anchor : SourceAnchor) : WindowKey :=
  let rank := match side with
    | .provider => 0
    | .consumer => 1
  toLex (rank, toLex (memberAlias, toLex (anchor.path, toLex (anchor.start.map UInt64.toNat,
    toLex (anchor.stop.map UInt64.toNat, anchor.contentRef.digest)))))

def ImpactSourceWindow.key (window : ImpactSourceWindow) : WindowKey :=
  windowKey window.side window.memberAlias window.anchor

/-- The findings that have a source. -/
def anchored (findings : List ImpactFinding) : List (ImpactFinding × SourceAnchor) :=
  findings.filterMap fun finding ↦ finding.source.map (finding, ·)

def anchoredKey (row : ImpactFinding × SourceAnchor) : WindowKey :=
  windowKey row.1.side row.1.memberAlias row.2

def spanBytes (anchor : SourceAnchor) : Except ClewError UInt64 :=
  match anchor.start, anchor.stop with
  | some start, some stop => .ok (if start ≤ stop then stop - start else 0)
  | none, none => .ok anchor.contentRef.size
  | _, _ => .error (corrupt "impact source anchor range is inconsistent")

def SourceAnchor.json (anchor : SourceAnchor) : Json :=
  .obj ([("path", .str anchor.path)] ++ (anchor.start.map fun n ↦ ("start", Json.ofU64 n)).toList ++
    (anchor.stop.map fun n ↦ ("end", Json.ofU64 n)).toList ++
    [("contentRef", Json.toJson anchor.contentRef)])

section Windows

variable [Sha256]

/-- The window of a group of findings: the anchor is the first one's. -/
def sourceWindow (bindingDigest : String) (rows : List (ImpactFinding × SourceAnchor))
    (first : ImpactFinding × SourceAnchor) : Except ClewError ImpactSourceWindow := do
  let span ← spanBytes first.2
  let members := rows.filter fun row ↦ decide (anchoredKey row = anchoredKey first)
  let findingIds := KeyedSet.ofList id (members.map (·.1.findingId))
  let identity := Json.arr [.str "codeclew-kotlin-thread-impact-source-window/1.0",
    .str bindingDigest, .str first.1.side.name, .str first.1.memberAlias, first.2.json,
    .arr (findingIds.map .str)]
  return ⟨hashBytes identity.sortValue.bytes, first.1.side, first.1.memberAlias, first.2, span,
    findingIds⟩

/-- All windows of the findings, in the order of their keys. -/
def sourceWindows (bindingDigest : String) (findings : List ImpactFinding) :
    Except ClewError (List ImpactSourceWindow) :=
  let rows := anchored findings
  (KeyedSet.ofList anchoredKey rows).mapM (sourceWindow bindingDigest rows)

/-- The sides in the order in which they take turns. -/
def sides : List ImpactSide := [.provider, .consumer]

/-- Take a window, if it is not one too many and the bytes suffice. -/
def admitWindow (maxWindows : ℕ) (maxBytes : UInt64) (state : List ImpactSourceWindow × ℕ)
    (window : ImpactSourceWindow) : Option (List ImpactSourceWindow × ℕ) :=
  let nextBytes := state.2 + window.spanBytes.toNat
  if 2 ^ 64 ≤ nextBytes then none
  else if state.1.length = maxWindows ∨ maxBytes.toNat < nextBytes then none
  else some (state.1 ++ [window], nextBytes)

def selectSourceWindows (bindingDigest : String) (findings : List ImpactFinding) (maxWindows : ℕ)
    (maxBytes : UInt64) : Except ClewError (List ImpactSourceWindow × Bool) := do
  let windows ← sourceWindows bindingDigest findings
  let lanes := sides.map fun side ↦ windows.filter (·.side = side)
  let candidateCount := (lanes.map List.length).sum
  let selected := (deal (fun _ ↦ false) (admitWindow maxWindows maxBytes) ([], 0) lanes).1
  return (selected, decide (selected.length < candidateCount))

/-! ### The windows -/

omit [Sha256] in
theorem mem_anchored {findings : List ImpactFinding} {row : ImpactFinding × SourceAnchor} :
    row ∈ anchored findings ↔ row.1 ∈ findings ∧ row.1.source = some row.2 := by
  obtain ⟨finding, anchor⟩ := row
  simp only [anchored, mem_filterMap, Option.map_eq_some_iff, Prod.mk.injEq]
  constructor
  · rintro ⟨_, hmem, _, hsource, rfl, rfl⟩
    exact ⟨hmem, hsource⟩
  · rintro ⟨hmem, hsource⟩
    exact ⟨finding, hmem, anchor, hsource, rfl, rfl⟩

theorem sourceWindow_key {bindingDigest : String} {rows : List (ImpactFinding × SourceAnchor)}
    {first : ImpactFinding × SourceAnchor} {window : ImpactSourceWindow}
    (h : sourceWindow bindingDigest rows first = .ok window) : window.key = anchoredKey first := by
  obtain ⟨_, -, h⟩ := bind_eq_ok_iff.mp h
  rw [← Except.ok.inj h]
  rfl

variable {bindingDigest : String} {findings : List ImpactFinding}
  {windows : List ImpactSourceWindow}

section

variable (h : sourceWindows bindingDigest findings = .ok windows)
include h

theorem sourceWindows_keys :
    windows.map ImpactSourceWindow.key =
      (KeyedSet.ofList anchoredKey (anchored findings)).map anchoredKey := by
  rw [sourceWindows] at h
  generalize KeyedSet.ofList anchoredKey (anchored findings) = groups at h ⊢
  induction mapM_eq_ok_iff.mp h with
  | nil => rfl
  | cons hwindow hrest ih =>
    rw [map_cons, map_cons, sourceWindow_key hwindow, ih (mapM_eq_ok_iff.mpr hrest)]

/-- The windows are told apart by their keys. -/
theorem sourceWindows_nodup :
    (windows.map ImpactSourceWindow.key).Nodup := by
  rw [sourceWindows_keys h]
  exact (pairwise_map.mpr (KeyedSet.ascending_ofList _)).imp ne_of_lt

/-- There is one for every source of a finding. -/
theorem mem_sourceWindows_keys {key : WindowKey} :
    key ∈ windows.map ImpactSourceWindow.key ↔ ∃ finding ∈ findings, ∃ anchor,
      finding.source = some anchor ∧ windowKey finding.side finding.memberAlias anchor = key := by
  rw [sourceWindows_keys h, ← mem_toFinset]
  change key ∈ KeyedSet.keys anchoredKey _ ↔ _
  rw [KeyedSet.keys_ofList, KeyedSet.mem_keys]
  constructor
  · rintro ⟨row, hrow, hkey⟩
    obtain ⟨hmem, hsource⟩ := mem_anchored.mp hrow
    exact ⟨row.1, hmem, row.2, hsource, hkey⟩
  · rintro ⟨finding, hmem, anchor, hsource, hkey⟩
    exact ⟨(finding, anchor), mem_anchored.mpr ⟨hmem, hsource⟩, hkey⟩

end

/-! ### The selection -/

omit [Sha256] in
theorem sum_length_sides (windows : List ImpactSourceWindow) :
    ((sides.map fun side ↦ windows.filter (·.side = side)).map List.length).sum =
      windows.length := by
  induction windows with
  | nil => rfl
  | cons window windows ih =>
    simp only [sides, map_cons, map_nil, sum_cons, sum_nil] at ih ⊢
    rcases hside : window.side <;> simp [hside] <;> omega

omit [Sha256] in
/-- The windows that fit are a beginning of those there are, and the next one does not fit. -/
theorem absorb_admitWindow (maxWindows : ℕ) (maxBytes : UInt64) (xs : List ImpactSourceWindow) :
    ∀ selected : List ImpactSourceWindow, selected.length ≤ maxWindows →
      (selected.map (·.spanBytes.toNat)).sum ≤ maxBytes.toNat →
      ∃ n, let taken := selected ++ xs.take n
        (absorb (fun _ ↦ false) (admitWindow maxWindows maxBytes)
          (selected, (selected.map (·.spanBytes.toNat)).sum) xs).1 = taken ∧
        taken.length ≤ maxWindows ∧ (taken.map (·.spanBytes.toNat)).sum ≤ maxBytes.toNat ∧
        ∀ window, xs[n]? = some window → taken.length = maxWindows ∨
          maxBytes.toNat < (taken.map (·.spanBytes.toNat)).sum + window.spanBytes.toNat := by
  induction xs with
  | nil => exact fun selected hcount hbytes ↦ ⟨0, by simp [absorb, hcount, hbytes]⟩
  | cons window xs ih =>
    intro selected hcount hbytes
    have hmax := maxBytes.toNat_lt
    rw [absorb, if_neg Bool.false_ne_true]
    by_cases hstop : selected.length = maxWindows ∨
        maxBytes.toNat < (selected.map (·.spanBytes.toNat)).sum + window.spanBytes.toNat
    · have hnone : admitWindow maxWindows maxBytes
          (selected, (selected.map (·.spanBytes.toNat)).sum) window = none := by
        rw [admitWindow]
        split_ifs <;> rfl
      refine ⟨0, by simp [hnone], by simpa using hcount, by simpa using hbytes, ?_⟩
      intro next hnext
      obtain rfl : window = next := by simpa using hnext
      simpa using hstop
    · rw [not_or, not_lt] at hstop
      have hsome : admitWindow maxWindows maxBytes
          (selected, (selected.map (·.spanBytes.toNat)).sum) window =
            some (selected ++ [window],
              ((selected ++ [window]).map (·.spanBytes.toNat)).sum) := by
        rw [admitWindow, if_neg (by simp only; omega), if_neg (by simp only; omega)]
        simp
      obtain ⟨n, htaken, hrest⟩ := ih (selected ++ [window])
        (by rw [length_append, length_singleton]; omega) (by simpa using hstop.2)
      refine ⟨n + 1, ?_⟩
      rw [append_assoc, singleton_append] at htaken hrest
      simp only [hsome, take_succ_cons, List.getElem?_cons_succ]
      exact ⟨htaken, hrest⟩

theorem selectSourceWindows_eq_ok {maxWindows : ℕ} {maxBytes : UInt64}
    {selected : List ImpactSourceWindow} {truncated : Bool}
    (h : selectSourceWindows bindingDigest findings maxWindows maxBytes =
      .ok (selected, truncated)) :
    ∃ windows, sourceWindows bindingDigest findings = .ok windows ∧
      truncated = decide (selected.length < windows.length) ∧
      selected = (absorb (fun _ ↦ false) (admitWindow maxWindows maxBytes) ([], 0)
        (alternate ImpactSourceWindow.side sides windows)).1 := by
  obtain ⟨windows, hwindows, h⟩ := bind_eq_ok_iff.mp h
  dsimp only at h
  rw [sum_length_sides, deal_eq] at h
  obtain ⟨rfl, rfl⟩ := Prod.mk.inj (Except.ok.inj h)
  exact ⟨windows, hwindows, rfl, rfl⟩

omit [Sha256] in
theorem sides_complete : sides.Nodup ∧ ∀ side, side ∈ sides := by
  refine ⟨by decide, fun side ↦ ?_⟩
  cases side <;> decide

/-- Candidates are taken up to the limit, from each lane its first ones, and no lane is more than
one ahead of another that has more. The windows taken are a beginning of all windows, those of the
two sides in turn, up to the first that does not fit. -/
theorem selection_fair (bindingDigest : String) (candidates : List Candidate) (limit : ℕ)
    (findings : List ImpactFinding) (maxWindows : ℕ) (maxBytes : UInt64) :
    (let selected := (fairTakeCandidates candidates limit).1
     selected.length = min limit candidates.length ∧
     (∀ lane, selected.filter (·.lane = lane) <+: candidates.filter (·.lane = lane)) ∧
     ∀ lane other,
        (selected.filter (·.lane = lane)).length < (candidates.filter (·.lane = lane)).length →
        (selected.filter (·.lane = other)).length ≤
          (selected.filter (·.lane = lane)).length + 1) ∧
    ∀ selected truncated, selectSourceWindows bindingDigest findings maxWindows maxBytes =
        .ok (selected, truncated) →
      ∃ windows, sourceWindows bindingDigest findings = .ok windows ∧
        (windows.map ImpactSourceWindow.key).Nodup ∧
        (∀ key, key ∈ windows.map ImpactSourceWindow.key ↔ ∃ finding ∈ findings, ∃ anchor,
          finding.source = some anchor ∧
            windowKey finding.side finding.memberAlias anchor = key) ∧
        (truncated = true ↔ ∃ window ∈ windows, window ∉ selected) ∧
        ∃ n, selected = (alternate ImpactSourceWindow.side sides windows).take n ∧
          selected.length ≤ maxWindows ∧
          (selected.map (·.spanBytes.toNat)).sum ≤ maxBytes.toNat ∧
          ∀ window, (alternate ImpactSourceWindow.side sides windows)[n]? = some window →
            selected.length = maxWindows ∨
              maxBytes.toNat < (selected.map (·.spanBytes.toNat)).sum +
                window.spanBytes.toNat := by
  have horder : laneOrder.Nodup := by decide
  refine ⟨?_, ?_⟩
  · rw [fst_fairTakeCandidates]
    refine ⟨?_, fun lane ↦ ?_, fun lane other hleft ↦ ?_⟩
    · rw [length_take,
        (alternate_perm horder candidates fun _ _ ↦ mem_laneOrder _).length_eq]
    · exact filter_take_alternate_prefix horder candidates limit (mem_laneOrder lane)
    · exact length_filter_take_alternate_le horder candidates limit (mem_laneOrder other)
        (mem_laneOrder lane) hleft
  · intro selected truncated h
    obtain ⟨windows, hwindows, htruncated, hselected⟩ := selectSourceWindows_eq_ok h
    have hperm : (alternate ImpactSourceWindow.side sides windows).Perm windows :=
      alternate_perm sides_complete.1 windows fun _ _ ↦ sides_complete.2 _
    obtain ⟨n, htaken, hcount, hbytes, hstop⟩ := absorb_admitWindow maxWindows maxBytes
      (alternate ImpactSourceWindow.side sides windows) [] (Nat.zero_le _) (Nat.zero_le _)
    obtain rfl := hselected.trans htaken
    refine ⟨windows, hwindows, sourceWindows_nodup hwindows,
      fun _ ↦ mem_sourceWindows_keys hwindows, ?_, n, rfl, hcount, hbytes, hstop⟩
    rw [htruncated, decide_eq_true_eq]
    have hnodup := (sourceWindows_nodup hwindows).of_map
    refine length_lt_length_iff hnodup ?_ fun window hwindow ↦ ?_
    · exact (hperm.nodup_iff.mpr hnodup).sublist (take_sublist n _)
    · exact hperm.mem_iff.mp (mem_of_mem_take hwindow)

end Windows

/-! ## An example -/

section Example

attribute [local instance] Sha256.standard

/-- Two findings of the provider at places of their own, the second larger than the bytes allow. -/
def twoFindings : List ImpactFinding :=
  let content : Cas.CasObject := ⟨"sha256:00", "source", Cas.casObjectSchema, 100⟩
  [⟨"first", .provider, "member", some ⟨"a.kt", some 0, some 10, content⟩⟩,
    ⟨"second", .provider, "member", some ⟨"b.kt", none, none, content⟩⟩]

theorem sourceWindows_twoFindings : ∃ first second,
    sourceWindows "binding" twoFindings = .ok [first, second] ∧
      first.side = .provider ∧ first.spanBytes = 10 ∧
      second.side = .provider ∧ second.spanBytes = 100 := by
  refine ⟨_, _, rfl, rfl, rfl, rfl, rfl⟩

theorem selectSourceWindows_twoFindings : ∃ selected,
    selectSourceWindows "binding" twoFindings 2 50 = .ok (selected, true) := by
  obtain ⟨first, second, hwindows, hfirst, hspan, hsecond, hlarge⟩ := sourceWindows_twoFindings
  rw [selectSourceWindows, hwindows]
  refine ⟨[first], ?_⟩
  have halternate : interleave [[first, second], []] 0 = [first, second] := by
    rw [interleave, interleave, interleave]
    simp [turn]
  simp [sides, hfirst, hsecond, deal_eq, halternate, absorb, admitWindow, hspan, hlarge]

theorem selection_fair_twoFindings : ∃ selected windows,
    selectSourceWindows "binding" twoFindings 2 50 = .ok (selected, true) ∧
      sourceWindows "binding" twoFindings = .ok windows ∧
      ∃ window ∈ windows, window ∉ selected := by
  obtain ⟨selected, hselected⟩ := selectSourceWindows_twoFindings
  obtain ⟨windows, hwindows, -, -, hleft, -⟩ :=
    (selection_fair "binding" [] 0 twoFindings 2 50).2 selected true hselected
  exact ⟨selected, windows, hselected, hwindows, hleft.mp rfl⟩

end Example

end Codeclew.Impact
