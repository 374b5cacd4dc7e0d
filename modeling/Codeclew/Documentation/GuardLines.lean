import Codeclew.Documentation.ProcessFlow

/-!
# Long conditions

The condition of a branch is cut into lines before it is printed. A line ends at the last break
position of its window, and the two characters of an operator should stay together. They do for the
operators whose first character is compared with the next one. An arrow and a double colon are on
the list of operators too, but what they start with is a break position already. So they are divided
where they come last in a window that has another break position. Which conditions have one in reach
is read off the text: `Apart`.
-/

namespace Codeclew.ProcessFlow

open List

def wrapGuardExpression (expression : String) (width : ℕ) : List (List Char) :=
  let cs := (chars expression).map plain
  if width = 0 then [cs] else wrapLines width cs.length cs

/-- The operators of two characters that are listed, without those of `unguarded`. -/
def guarded : List (Char × Char) :=
  [('&', '&'), ('|', '|'), ('=', '='), ('!', '='), ('<', '='), ('>', '='), ('=', '>')]

/-- The operators whose first character is a break position whatever comes next. -/
def unguarded : List (Char × Char) := [('-', '>'), (':', ':')]

/-- A break after `stop` characters divides one of `operators`, and the window has another break
position. -/
def Divides (operators : List (Char × Char)) (width : ℕ) (cs : List Char) (stop : ℕ) : Prop :=
  (∃ op ∈ operators, cs[stop - 1]? = some op.1 ∧ cs[stop]? = some op.2) ∧
    ∃ position ≤ width, position ≠ stop ∧ guardWrapBoundary cs position = true

/-- The breaks between lines: the text from the start of the line on, and where it is broken. -/
def breaks : List (List Char) → List (List Char × ℕ)
  | line :: next :: lines =>
      ((line :: next :: lines).flatten, line.length) :: breaks (next :: lines)
  | _ => []

/-- Lines that make up a text, are as long as they may be, and leave operators together. -/
structure Wrapped (cs : List Char) (width : ℕ) (lines : List (List Char)) : Prop where
  flatten : lines.flatten = cs
  lengths : ∀ line ∈ lines, 1 ≤ line.length ∧ line.length ≤ width
  together : ∀ b ∈ breaks lines, ¬Divides (guarded ++ unguarded) width b.1 b.2

/-- The arrows and double colons of a text have no break position less than `width` characters
before the one inside of them. -/
def Apart (cs : List Char) (width : ℕ) : Prop :=
  ∀ op ∈ unguarded, ∀ inside, cs[inside - 1]? = some op.1 → cs[inside]? = some op.2 →
    ∀ position < inside, guardWrapBoundary cs position = true → position + width ≤ inside

theorem breaks_cons (line : List Char) {lines : List (List Char)} (h : lines ≠ []) :
    breaks (line :: lines) = ((line :: lines).flatten, line.length) :: breaks lines := by
  obtain ⟨next, lines, rfl⟩ := exists_cons_of_ne_nil h
  rfl

/-- A break position of the text from the start of a line on is one of the text. -/
theorem guardWrapBoundary_drop {cs : List Char} {start position : ℕ}
    (h : guardWrapBoundary (cs.drop start) position = true) :
    0 < position ∧ guardWrapBoundary cs (start + position) = true := by
  rw [guardWrapBoundary] at h
  split at h
  · next previous next hprevious hnext =>
    obtain ⟨hpos, hbreak⟩ := Bool.and_eq_true_iff.mp h
    have hpositive : 0 < position := of_decide_eq_true hpos
    rw [getElem?_drop, ← Nat.add_sub_assoc hpositive] at hprevious
    rw [getElem?_drop] at hnext
    rw [guardWrapBoundary, hprevious, hnext]
    exact ⟨hpositive, Bool.and_eq_true_iff.mpr ⟨decide_eq_true (by omega), hbreak⟩⟩
  · cases h

theorem find?_window {cs : List Char} {width : ℕ} {found : Option ℕ}
    (h : ((List.range width).map (· + 1)).reverse.find? (guardWrapBoundary cs) = found) :
    (∀ stop ∈ found, 0 < stop ∧ stop ≤ width ∧ guardWrapBoundary cs stop = true) ∧
      ∀ position ≤ width, guardWrapBoundary cs position = true →
        ∃ stop ∈ found, position ≤ stop := by
  subst h
  induction width with
  | zero =>
    refine ⟨by simp, fun position hle hbreak ↦ ?_⟩
    have hpos := (@guardWrapBoundary_drop cs 0 position hbreak).1
    omega
  | succ width ih =>
    rw [range_succ, map_append, reverse_append, map_singleton, reverse_singleton, singleton_append,
      find?_cons]
    cases hlast : guardWrapBoundary cs (width + 1) with
    | true => exact ⟨by simp [hlast], fun position hle _ ↦ ⟨_, rfl, hle⟩⟩
    | false =>
      refine ⟨fun stop hstop ↦ ?_, fun position hle hbreak ↦ ih.2 position ?_ hbreak⟩
      · obtain ⟨hpos, hle, hbreak⟩ := ih.1 stop hstop
        exact ⟨hpos, hle.trans (Nat.le_succ _), hbreak⟩
      · refine Nat.le_of_lt_succ (lt_of_le_of_ne hle ?_)
        rintro rfl
        simp [hlast] at hbreak

/-- A line ends at the last break position of its window, if there is one. -/
theorem stop_spec (cs : List Char) {width : ℕ} (hwidth : 0 < width) :
    let stop := (((List.range width).map (· + 1)).reverse.find? (guardWrapBoundary cs)).getD width
    0 < stop ∧ stop ≤ width ∧ ∀ position ≤ width, guardWrapBoundary cs position = true →
      position ≤ stop ∧ guardWrapBoundary cs stop = true := by
  obtain ⟨hfound, hlast⟩ := @find?_window cs width _ rfl
  cases hfind : ((List.range width).map (· + 1)).reverse.find? (guardWrapBoundary cs) with
  | none =>
    refine ⟨hwidth, le_rfl, fun position hle hbreak ↦ ?_⟩
    obtain ⟨stop, hstop, -⟩ := hlast position hle hbreak
    simp [hfind] at hstop
  | some stop =>
    obtain ⟨hpos, hle, hbreak⟩ := hfound stop hfind
    refine ⟨hpos, hle, fun position hposition hother ↦ ?_⟩
    obtain ⟨other, hsame, hbefore⟩ := hlast position hposition hother
    obtain rfl : stop = other := Option.some.inj (hfind.symm.trans hsame)
    exact ⟨hbefore, hbreak⟩

/-- Every break is after a line that starts somewhere in the text, and at the last break position of
its window. -/
theorem wrapLines_spec {width : ℕ} (hwidth : 0 < width) {fuel : ℕ} {cs : List Char}
    (hfuel : cs.length ≤ fuel) :
    wrapLines width fuel cs ≠ [] ∧ (wrapLines width fuel cs).flatten = cs ∧
      (cs ≠ [] → ∀ line ∈ wrapLines width fuel cs, 1 ≤ line.length ∧ line.length ≤ width) ∧
      ∀ b ∈ breaks (wrapLines width fuel cs), (∃ start, b.1 = cs.drop start) ∧
        0 < b.2 ∧ b.2 ≤ width ∧ ∀ position ≤ width, guardWrapBoundary b.1 position = true →
          position ≤ b.2 ∧ guardWrapBoundary b.1 b.2 = true := by
  induction fuel generalizing cs with
  | zero =>
    obtain rfl := length_eq_zero_iff.mp (Nat.le_zero.mp hfuel)
    simp [wrapLines, breaks]
  | succ fuel ih =>
    rw [wrapLines]
    split_ifs with hshort
    · refine ⟨cons_ne_nil _ _, by simp, ?_, by simp [breaks]⟩
      intro hne line hline
      rw [mem_singleton.mp hline]
      exact ⟨length_pos_iff.mpr hne, hshort⟩
    · obtain ⟨hpos, hle, hbreak⟩ := stop_spec cs hwidth
      set stop := (((List.range width).map (· + 1)).reverse.find? (guardWrapBoundary cs)).getD width
      have hlength : (cs.take stop).length = stop := length_take_of_le (by omega)
      have hrest : (cs.drop stop).length ≤ fuel := by
        rw [length_drop]
        omega
      obtain ⟨hne, hflatten, hlines, hbreaks⟩ := ih hrest
      have hwhole : (cs.take stop :: wrapLines width fuel (cs.drop stop)).flatten = cs := by
        rw [flatten_cons, hflatten, take_append_drop]
      refine ⟨cons_ne_nil _ _, hwhole, fun _ ↦ ?_, ?_⟩
      · have hsome : cs.drop stop ≠ [] := by
          rw [Ne, drop_eq_nil_iff]
          omega
        exact forall_mem_cons.mpr ⟨⟨by omega, by omega⟩, hlines hsome⟩
      · rw [breaks_cons _ hne, hwhole, hlength]
        refine forall_mem_cons.mpr ⟨⟨⟨0, rfl⟩, hpos, hle, hbreak⟩, fun b hb ↦ ?_⟩
        obtain ⟨⟨start, hstart⟩, hspec⟩ := hbreaks b hb
        exact ⟨⟨stop + start, by rw [hstart, drop_drop]⟩, hspec⟩

/-- A break position does not divide a guarded operator. -/
theorem unguarded_of_guardWrapBoundary {cs : List Char} {stop : ℕ} {op : Char × Char}
    (hop : op ∈ guarded ++ unguarded) (hprevious : cs[stop - 1]? = some op.1)
    (hnext : cs[stop]? = some op.2) (h : guardWrapBoundary cs stop = true) : op ∈ unguarded := by
  refine (mem_append.mp hop).resolve_left fun hguarded ↦ ?_
  rw [guardWrapBoundary, hprevious, hnext, Bool.and_eq_true] at h
  have hboundary := h.2
  clear hop hprevious hnext h
  revert op
  decide

/-- Inside an unguarded operator there is a break position. -/
theorem guardWrapBoundary_of_unguarded {cs : List Char} {stop : ℕ} {op : Char × Char}
    (hop : op ∈ unguarded) (hpos : 0 < stop) (hprevious : cs[stop - 1]? = some op.1)
    (hnext : cs[stop]? = some op.2) : guardWrapBoundary cs stop = true := by
  rw [guardWrapBoundary, hprevious, hnext]
  refine Bool.and_eq_true_iff.mpr ⟨decide_eq_true hpos, ?_⟩
  clear hprevious hnext
  revert op
  decide

variable {expression : String} {width : ℕ}

/-- Where the unguarded operators have no break position in reach, operators stay together. -/
theorem wrapped_of_apart (hwidth : 0 < width) (hne : expression ≠ "")
    (hapart : Apart ((chars expression).map plain) width) :
    Wrapped ((chars expression).map plain) width (wrapGuardExpression expression width) := by
  obtain ⟨-, hflatten, hlengths, hbreaks⟩ :=
    wrapLines_spec hwidth (le_refl ((chars expression).map plain).length)
  rw [wrapGuardExpression, if_neg hwidth.ne']
  refine ⟨hflatten, hlengths (by simpa using hne), ?_⟩
  rintro b hb ⟨⟨op, hop, hprevious, hnext⟩, position, hle, hother, hboundary⟩
  obtain ⟨⟨start, hstart⟩, hpos, hstop, hlast⟩ := hbreaks b hb
  obtain ⟨hbefore, hbreak⟩ := hlast position hle hboundary
  have hunguarded := unguarded_of_guardWrapBoundary hop hprevious hnext hbreak
  rw [hstart] at hboundary hprevious hnext
  rw [getElem?_drop, ← Nat.add_sub_assoc hpos] at hprevious
  rw [getElem?_drop] at hnext
  obtain ⟨hposition, hboundary⟩ := guardWrapBoundary_drop hboundary
  have := hapart op hunguarded _ hprevious hnext _ (by omega) hboundary
  omega

/-- An operator after a break position is divided in lines that reach just into it. -/
theorem apart_of_wrapped {cs : List Char} (hcs : cs = (chars expression).map plain)
    (h : ∀ width, 0 < width → Wrapped cs width (wrapGuardExpression expression width)) (width : ℕ) :
    Apart cs width := by
  intro op hop inside hprevious hnext position hbefore hboundary
  have hpos : 0 < inside := by omega
  refine absurd ⟨⟨op, mem_append_right _ hop, hprevious, hnext⟩, position, hbefore.le, hbefore.ne,
    hboundary⟩ ((h inside hpos).together (cs, inside) ?_)
  have hlength : inside < cs.length := (List.getElem?_eq_some_iff.mp hnext).1
  obtain ⟨fuel, hfuel⟩ := Nat.exists_eq_succ_of_ne_zero (Nat.ne_zero_of_lt hlength)
  obtain ⟨-, hle, hlast⟩ := stop_spec cs hpos
  have hbreak := guardWrapBoundary_of_unguarded hop hpos hprevious hnext
  have hstop := hle.antisymm (hlast inside le_rfl hbreak).1
  obtain ⟨hne, hflatten, -⟩ := wrapLines_spec hpos
    (show (cs.drop inside).length ≤ fuel by rw [length_drop]; omega)
  rw [wrapGuardExpression, ← hcs, if_neg hpos.ne', hfuel, wrapLines, if_neg (by omega), hstop,
    breaks_cons _ hne, flatten_cons, hflatten, take_append_drop, length_take_of_le hlength.le]
  exact mem_cons_self

end Codeclew.ProcessFlow
