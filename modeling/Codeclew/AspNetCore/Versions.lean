import Codeclew.Collections
import Codeclew.Json.Value
import Codeclew.Text
import Codeclew.Yields

/-!
# Routes with a version

A path may hold a parameter that stands for the version of the API. How versions are written is
configured at run time, so such a path is marked, and one candidate is made of it for each version
that the code declares.

`HasVersion` says what such a parameter is, wherever it stands in the path. The program looks at the
first parameter of a path only; its candidates are the right ones exactly for the paths whose first
parameter is the version, if one is (`expandVersions_exact_iff`).
-/

namespace Codeclew.AspNetCore

open List

structure Versions where
  declared : List String

/-! ## The program -/

/-- `str::replacen` with a count of one. -/
def replaceFirst (pattern replacement : List Char) : List Char → List Char
  | [] => if pattern = [] then replacement else []
  | c :: cs =>
    if pattern <+: c :: cs then replacement ++ (c :: cs).drop pattern.length
    else c :: replaceFirst pattern replacement cs

/-- The text from the first opening brace to the first closing brace after it. -/
def firstParameter (path : List Char) : Option (List Char) :=
  match path.dropWhile (· ≠ '\x7b') with
  | [] => none
  | rest => if '\x7d' ∈ rest then some (rest.takeWhile (· ≠ '\x7d') ++ ['\x7d']) else none

/-- The candidates of a path, if it has a version that the program sees. -/
def versionedPaths (versions : Versions) (path : String) : Option (List String) :=
  (firstParameter (chars path)).bind fun segment ↦
    if chars ":apiVersion\x7d" <:+ segment then
      some (versions.declared.map fun version ↦
        String.ofList (replaceFirst segment (chars version) (chars path)))
    else none

/-- The state of the loop over the paths: the candidates and the mark. -/
structure Expansion where
  versioned : List String
  boundary : Bool

def expandPath (versions : Versions) (state : Expansion) (path : String) : Expansion :=
  match versionedPaths versions path with
  | none => state
  | some candidates => ⟨KeyedSet.extend id state.versioned candidates, true⟩

/-- The paths, the candidates as a value, and the mark. -/
def expandVersions (paths : List String) (versions : Versions) (boundary : Bool) :
    List String × Json × Bool :=
  let state := paths.foldl (expandPath versions) ⟨[], boundary⟩
  (paths, if state.versioned.isEmpty then .null else .arr (state.versioned.map .str),
    state.boundary)

/-- The candidates that a value lists. -/
def listed (value : Json) : List String := (value.asArr?.getD []).filterMap Json.asStr?

/-! ## Parameters that stand for a version -/

/-- A path has a parameter for the version between `before` and `after`. -/
def VersionAt (path before after : List Char) : Prop :=
  ∃ name, '\x7b' ∉ name ∧ '\x7d' ∉ name ∧
    path = before ++ '\x7b' :: (name ++ (":apiVersion\x7d".toList ++ after))

def HasVersion (path : List Char) : Prop := ∃ before after, VersionAt path before after

/-- The leftmost of the parameters for the version. -/
def FirstVersionAt (path before after : List Char) : Prop :=
  VersionAt path before after ∧
    ∀ before' after', VersionAt path before' after' → before.length ≤ before'.length

/-- The first brace of a path opens a parameter for the version, whose name may hold braces. -/
def SeenAt (path before after : List Char) : Prop :=
  ∃ name, '\x7b' ∉ before ∧ '\x7d' ∉ name ∧
    path = before ++ '\x7b' :: (name ++ (":apiVersion\x7d".toList ++ after))

variable {path before after : List Char}

theorem VersionAt.seenAt (h : VersionAt path before after) (hbefore : '\x7b' ∉ before) :
    SeenAt path before after := by
  obtain ⟨name, -, hclose, rfl⟩ := h
  exact ⟨name, hbefore, hclose, rfl⟩

/-- The text that ends such a parameter, up to its brace. -/
theorem toList_apiVersion (after : List Char) :
    ":apiVersion\x7d".toList ++ after = ":apiVersion".toList ++ '\x7d' :: after := by simp

theorem notMem_append_apiVersion {name : List Char} (h : '\x7d' ∉ name) :
    '\x7d' ∉ name ++ ":apiVersion".toList := by
  simpa using h

/-- A text is cut at the first of its characters that is `c` in one way. -/
theorem eq_of_append_cons_eq {c : Char} {xs xs' ys ys' : List Char} (h : c ∉ xs) (h' : c ∉ xs')
    (heq : xs ++ c :: ys = xs' ++ c :: ys') : xs = xs' ∧ ys = ys' := by
  induction xs generalizing xs' with
  | nil =>
    cases xs' with
    | nil => exact ⟨rfl, (List.cons.inj heq).2⟩
    | cons x xs' => exact absurd ((List.cons.inj heq).1 ▸ mem_cons_self) h'
  | cons x xs ih =>
    cases xs' with
    | nil => exact absurd ((List.cons.inj heq).1 ▸ mem_cons_self) h
    | cons x' xs' =>
      obtain ⟨rfl, hrest⟩ := List.cons.inj heq
      obtain ⟨rfl, rfl⟩ := ih (not_mem_of_not_mem_cons h) (not_mem_of_not_mem_cons h') hrest
      exact ⟨rfl, rfl⟩

theorem SeenAt.unique {path before after before' after' : List Char}
    (h : SeenAt path before after) (h' : SeenAt path before' after') :
    before = before' ∧ after = after' := by
  obtain ⟨name, hbefore, hname, rfl⟩ := h
  obtain ⟨name', hbefore', hname', heq⟩ := h'
  simp only [toList_apiVersion, ← append_assoc name, ← append_assoc name'] at heq
  obtain ⟨rfl, hrest⟩ := eq_of_append_cons_eq hbefore hbefore' heq
  obtain ⟨-, rfl⟩ := eq_of_append_cons_eq (notMem_append_apiVersion hname)
    (notMem_append_apiVersion hname') hrest
  exact ⟨rfl, rfl⟩

theorem SeenAt.hasVersion (h : SeenAt path before after) :
    HasVersion path := by
  obtain ⟨name, -, hname, rfl⟩ := h
  -- The last opening brace of the name opens a parameter whose name has no brace.
  by_cases hopen : '\x7b' ∈ name
  · obtain ⟨inner, outer, hsplit, hinner⟩ :=
      eq_append_cons_of_mem (mem_reverse.mpr hopen)
    have hname' : name = outer.reverse ++ '\x7b' :: inner.reverse := by
      rw [← reverse_reverse name, hsplit]
      simp
    refine ⟨before ++ '\x7b' :: outer.reverse, after, inner.reverse, by simpa using hinner, ?_, ?_⟩
    · exact fun hmem ↦ hname (hname' ▸ mem_append_right _ (mem_cons_of_mem _ hmem))
    · simp [hname']
  · exact ⟨before, after, name, hopen, hname, rfl⟩

theorem HasVersion.exists_first {path : List Char} (h : HasVersion path) :
    ∃ before after, FirstVersionAt path before after := by
  obtain ⟨b, a, h⟩ := h
  induction hn : b.length using Nat.strong_induction_on generalizing b a with
  | _ n ih =>
    by_cases hfirst : ∀ before' after', VersionAt path before' after' → b.length ≤ before'.length
    · exact ⟨b, a, h, hfirst⟩
    · push Not at hfirst
      obtain ⟨before, after, hat, hlt⟩ := hfirst
      exact ih before.length (hn ▸ hlt) before after hat rfl

theorem VersionAt.prefix_path (h : VersionAt path before after) :
    before ++ ['\x7b'] <+: path := by
  obtain ⟨name, -, -, rfl⟩ := h
  simp

/-- With no brace before it, a parameter for the version is the leftmost, and the one that is
seen. -/
theorem VersionAt.firstVersionAt_iff (h : VersionAt path before after) (hbefore : '\x7b' ∉ before)
    {before' after' : List Char} :
    FirstVersionAt path before' after' ↔ SeenAt path before' after' := by
  have hpre : before <+: path := (prefix_append _ _).trans h.prefix_path
  constructor
  · rintro ⟨hat, hfirst⟩
    refine hat.seenAt fun hmem ↦ hbefore ?_
    have hpre' : before' <+: path := (prefix_append _ _).trans hat.prefix_path
    exact (prefix_of_prefix_length_le hpre' hpre (hfirst _ _ h)).subset hmem
  · intro hseen
    obtain ⟨rfl, rfl⟩ := hseen.unique (h.seenAt hbefore)
    refine ⟨h, fun other _ hother ↦ ?_⟩
    by_contra hlt
    have hopen := prefix_of_prefix_length_le hother.prefix_path hpre (by simp; omega)
    exact hbefore (hopen.subset (by simp))

/-! ## What the program sees -/

theorem dropWhile_append_open {before : List Char} (h : '\x7b' ∉ before) (rest : List Char) :
    (before ++ '\x7b' :: rest).dropWhile (· ≠ '\x7b') = '\x7b' :: rest := by
  rw [dropWhile_append_of_pos]
  · simp
  · exact fun c hc ↦ decide_eq_true (ne_of_mem_of_not_mem hc h)

variable {inside : List Char}

theorem takeWhile_append_close (h : '\x7d' ∉ inside) (rest : List Char) :
    (inside ++ '\x7d' :: rest).takeWhile (· ≠ '\x7d') = inside := by
  rw [takeWhile_append_of_pos]
  · simp
  · exact fun c hc ↦ decide_eq_true (ne_of_mem_of_not_mem hc h)

theorem firstParameter_append {before : List Char} (h : '\x7b' ∉ before) (rest : List Char) :
    firstParameter (before ++ '\x7b' :: rest) =
      if '\x7d' ∈ rest then some ('\x7b' :: (rest.takeWhile (· ≠ '\x7d') ++ ['\x7d']))
        else none := by
  rw [firstParameter, dropWhile_append_open h]
  simp

theorem firstParameter_eq_some_iff {path segment : List Char} :
    firstParameter path = some segment ↔ ∃ before inside after, '\x7b' ∉ before ∧ '\x7d' ∉ inside ∧
      path = before ++ '\x7b' :: (inside ++ '\x7d' :: after) ∧
      segment = '\x7b' :: (inside ++ ['\x7d']) := by
  constructor
  · intro h
    by_cases hopen : '\x7b' ∈ path
    · obtain ⟨before, rest, rfl, hbefore⟩ := eq_append_cons_of_mem hopen
      rw [firstParameter_append hbefore] at h
      obtain ⟨hclose, hsegment⟩ := Option.ite_none_right_eq_some.mp h
      obtain ⟨inside, after, rfl, hinside⟩ := eq_append_cons_of_mem hclose
      rw [takeWhile_append_close hinside] at hsegment
      exact ⟨before, inside, after, hbefore, hinside, rfl, (Option.some.inj hsegment).symm⟩
    · have hnil : path.dropWhile (· ≠ '\x7b') = [] :=
        dropWhile_eq_nil_iff.mpr fun c hc ↦ decide_eq_true (ne_of_mem_of_not_mem hc hopen)
      rw [firstParameter, hnil] at h
      cases h
  · rintro ⟨before, inside, after, hbefore, hinside, rfl, rfl⟩
    rw [firstParameter_append hbefore, if_pos (by simp), takeWhile_append_close hinside]

theorem replaceFirst_append {before : List Char} (h : '\x7b' ∉ before)
    (inside replacement after : List Char) :
    replaceFirst ('\x7b' :: inside) replacement (before ++ '\x7b' :: (inside ++ after)) =
      before ++ (replacement ++ after) := by
  induction before with
  | nil => simp [replaceFirst]
  | cons c before ih =>
    obtain ⟨hc, hbefore⟩ := ne_and_not_mem_of_not_mem_cons h
    have hother : ¬('\x7b' :: inside <+: c :: (before ++ '\x7b' :: (inside ++ after))) :=
      fun hpre ↦ hc (cons_prefix_cons.mp hpre).1
    rw [cons_append, replaceFirst, if_neg hother, ih hbefore, cons_append]

/-- The text between two braces ends as that of a parameter for the version. -/
theorem suffix_segment_iff :
    chars ":apiVersion\x7d" <:+ '\x7b' :: (inside ++ ['\x7d']) ↔
      ∃ name, inside = name ++ ":apiVersion".toList := by
  have happend : chars ":apiVersion\x7d" = ":apiVersion".toList ++ ['\x7d'] := by simp
  rw [happend]
  constructor
  · rintro ⟨head, hhead⟩
    rw [← append_assoc, ← cons_append, append_cancel_right_eq] at hhead
    cases head with
    | nil => simp at hhead
    | cons c name => exact ⟨name, (List.cons.inj hhead).2.symm⟩
  · rintro ⟨name, rfl⟩
    exact ⟨'\x7b' :: name, by simp⟩

theorem versionedPaths_eq_some_iff {versions : Versions} {path : String}
    {candidates : List String} :
    versionedPaths versions path = some candidates ↔
      ∃ before after, SeenAt path.toList before after ∧
      candidates = versions.declared.map fun version ↦
        String.ofList (before ++ (version.toList ++ after)) := by
  have hreplaced : ∀ {before : List Char}, '\x7b' ∉ before → ∀ inside after replacement : List Char,
      replaceFirst ('\x7b' :: (inside ++ ['\x7d'])) replacement
        (before ++ '\x7b' :: (inside ++ '\x7d' :: after)) = before ++ (replacement ++ after) := by
    intro before hbefore inside after replacement
    simpa using replaceFirst_append hbefore (inside ++ ['\x7d']) replacement after
  rw [versionedPaths, Option.bind_eq_some_iff]
  simp only [firstParameter_eq_some_iff, Option.ite_none_right_eq_some, Option.some.injEq]
  constructor
  · rintro ⟨_, ⟨before, inside, after, hbefore, hinside, hpath, rfl⟩, hsuffix, rfl⟩
    obtain ⟨name, rfl⟩ := suffix_segment_iff.mp hsuffix
    refine ⟨before, after, ⟨name, hbefore, fun hmem ↦ hinside (mem_append_left _ hmem), ?_⟩, ?_⟩
    · rw [toList_apiVersion, ← append_assoc, ← chars_eq_toList, hpath]
    · simp only [hpath, hreplaced hbefore, chars_eq_toList]
  · rintro ⟨before, after, ⟨name, hbefore, hname, hpath⟩, rfl⟩
    rw [toList_apiVersion, ← append_assoc, ← chars_eq_toList] at hpath
    refine ⟨_, ⟨before, _, after, hbefore, notMem_append_apiVersion hname, hpath, rfl⟩,
      suffix_segment_iff.mpr ⟨name, rfl⟩, ?_⟩
    simp only [hpath, hreplaced hbefore, chars_eq_toList]

/-! ## The loop -/

section Loop

variable {versions : Versions}

/-- A text is a candidate of a path: the version that is seen is replaced by a declared one. -/
def Candidate (versions : Versions) (path text : String) : Prop :=
  ∃ before after, SeenAt path.toList before after ∧
    ∃ version ∈ versions.declared, text = String.ofList (before ++ (version.toList ++ after))

theorem not_seenAt_of_none {path : String} (h : versionedPaths versions path = none)
    (before after : List Char) : ¬SeenAt path.toList before after := by
  intro hseen
  rw [versionedPaths_eq_some_iff.mpr ⟨before, after, hseen, rfl⟩] at h
  cases h

theorem expandPath_boundary (state : Expansion) (path : String) :
    (expandPath versions state path).boundary = true ↔
      state.boundary = true ∨ ∃ before after, SeenAt path.toList before after := by
  rw [expandPath]
  split
  · next hnone => simp [not_seenAt_of_none hnone]
  · next candidates hsome =>
    obtain ⟨before, after, hseen, -⟩ := versionedPaths_eq_some_iff.mp hsome
    exact iff_of_true rfl (Or.inr ⟨before, after, hseen⟩)

theorem mem_expandPath_versioned {state : Expansion} {path text : String} :
    text ∈ (expandPath versions state path).versioned ↔
      text ∈ state.versioned ∨ Candidate versions path text := by
  rw [expandPath]
  split
  · next hnone => simp [Candidate, not_seenAt_of_none hnone]
  · next candidates hsome =>
    obtain ⟨before, after, hseen, rfl⟩ := versionedPaths_eq_some_iff.mp hsome
    rw [KeyedSet.mem_extend_of_injOn (Set.injOn_id Set.univ) (fun _ _ ↦ trivial) fun _ _ ↦ trivial]
    refine or_congr_right ⟨fun hmem ↦ ?_, ?_⟩
    · obtain ⟨version, hversion, rfl⟩ := mem_map.mp hmem
      exact ⟨before, after, hseen, version, hversion, rfl⟩
    · rintro ⟨before', after', hseen', version, hversion, rfl⟩
      obtain ⟨rfl, rfl⟩ := hseen.unique hseen'
      exact mem_map_of_mem hversion

theorem expandVersions_boundary (paths : List String) :
    (expandVersions paths versions false).2.2 = true ↔
      ∃ path ∈ paths, ∃ before after, SeenAt path.toList before after := by
  refine (foldl_iff (fun state : Expansion ↦ state.boundary = true) expandPath_boundary paths
    _).trans ?_
  simp

theorem listed_value (texts : List String) :
    listed (if texts.isEmpty then .null else .arr (texts.map .str)) = texts := by
  cases texts with
  | nil => rfl
  | cons text texts => simp [listed, Json.asArr?, Json.asStr?, Function.comp_def]

theorem mem_listed_expandVersions {paths : List String} {text : String} :
    text ∈ listed (expandVersions paths versions false).2.1 ↔
      ∃ path ∈ paths, Candidate versions path text := by
  have hstep (state : Expansion) (path : String) :
      text ∈ (expandPath versions state path).versioned ↔
        text ∈ state.versioned ∨ Candidate versions path text := mem_expandPath_versioned
  rw [expandVersions, listed_value]
  refine (foldl_iff (fun state : Expansion ↦ text ∈ state.versioned) hstep paths _).trans ?_
  simp

end Loop

/-! ## The candidates -/

/-- The mark and the candidates are right for every choice of declared versions exactly when, in
each path with a version, that is the first parameter. -/
theorem expandVersions_exact_iff (paths : List String) :
    (∀ versions : Versions,
      ((expandVersions paths versions false).2.2 = true ↔ ∃ path ∈ paths, HasVersion path.toList) ∧
      ∀ text, text ∈ listed (expandVersions paths versions false).2.1 ↔
        ∃ path ∈ paths, ∃ before after, FirstVersionAt path.toList before after ∧
          ∃ version ∈ versions.declared,
            text = String.ofList (before ++ (version.toList ++ after))) ↔
    ∀ path ∈ paths, HasVersion path.toList →
      ∃ before after, VersionAt path.toList before after ∧ '\x7b' ∉ before := by
  constructor
  · intro hexact path hpath hversion
    obtain ⟨before, after, hfirst⟩ := hversion.exists_first
    refine ⟨before, after, hfirst.1, fun hopen ↦ ?_⟩
    -- A version that is longer than what comes before it leaves the brace where no candidate has
    -- one.
    let version := List.replicate before.length 'a'
    obtain ⟨-, hcandidates⟩ := hexact ⟨[String.ofList version]⟩
    have hmem := (hcandidates _).mpr
      ⟨path, hpath, before, after, hfirst, _, mem_singleton_self _, rfl⟩
    obtain ⟨path', -, before', after', ⟨name, hbefore', -, -⟩, other, hother, heq⟩ :=
      mem_listed_expandVersions.mp hmem
    rw [mem_singleton.mp hother] at heq
    have hlists : before ++ (version ++ after) = before' ++ (version ++ after') := by
      simpa using congrArg String.toList heq
    have hcandidate : before' ++ version <+: before ++ (version ++ after) := by
      rw [hlists, ← append_assoc]
      exact prefix_append _ _
    have hpre : before <+: before' ++ version :=
      prefix_of_prefix_length_le (prefix_append _ _) hcandidate (by simp [version])
    obtain hmem | hmem := mem_append.mp (hpre.subset hopen)
    · exact hbefore' hmem
    · exact absurd (eq_of_mem_replicate hmem) (by decide)
  · intro hfirst versions
    have hseen : ∀ path ∈ paths, ∀ before after,
        FirstVersionAt path.toList before after ↔ SeenAt path.toList before after := by
      intro path hpath before after
      by_cases hversion : HasVersion path.toList
      · obtain ⟨_, _, hat, hopen⟩ := hfirst path hpath hversion
        exact hat.firstVersionAt_iff hopen
      · exact iff_of_false (fun h ↦ hversion ⟨_, _, h.1⟩) fun h ↦ hversion h.hasVersion
    refine ⟨?_, fun text ↦ ?_⟩
    · rw [expandVersions_boundary]
      refine exists_congr fun path ↦ and_congr_right fun hpath ↦ ⟨?_, fun hversion ↦ ?_⟩
      · rintro ⟨before, after, h⟩
        exact h.hasVersion
      · obtain ⟨before, after, h⟩ := hversion.exists_first
        exact ⟨before, after, (hseen path hpath _ _).mp h⟩
    · rw [mem_listed_expandVersions]
      refine exists_congr fun path ↦ and_congr_right fun hpath ↦ ?_
      exact exists₂_congr fun before after ↦ and_congr_left fun _ ↦ (hseen path hpath _ _).symm

theorem expandVersions_second_parameter :
    HasVersion "/\x7bid\x7d/\x7bv:apiVersion\x7d".toList ∧
      expandVersions ["/\x7bid\x7d/\x7bv:apiVersion\x7d"] ⟨["1.0"]⟩ false =
        (["/\x7bid\x7d/\x7bv:apiVersion\x7d"], .null, false) := by
  refine ⟨⟨"/\x7bid\x7d/".toList, [], "v".toList, ?_, ?_, ?_⟩, by decide⟩
  · simp
  · simp
  · simp

example : expandVersions ["/v\x7bv:apiVersion\x7d/\x7bid\x7d"] ⟨["1.0", "2.0"]⟩ false =
    (["/v\x7bv:apiVersion\x7d/\x7bid\x7d"], .arr [.str "/v1.0/\x7bid\x7d", .str "/v2.0/\x7bid\x7d"],
      true) := by
  decide

end Codeclew.AspNetCore
