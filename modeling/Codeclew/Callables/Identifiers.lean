import Codeclew.Query.Terms
import Codeclew.Json.Size
import Codeclew.Runs

/-!
# Words and their runs

The index of callables finds a callable by the identifiers in its texts. A text is cut into words
like those of a query (`Query.normalizeTerms`), but a word is written in lower case only after it is
cut out. Both scanners forget a word that gets longer than 256 bytes and go on behind the cut, in
the middle of the word.

A term should be a whole word: the lower case of a run of letters, digits and underscores, whose
length is from 2 to 256 bytes. `whole_iff` says of which texts this is true.
-/

namespace Codeclew.Callables

open Json Query List

/-! ## Identifiers -/

section Model

variable [Unicode]

def lowercase (cs : List Char) : List Char := cs.flatMap toLowercase

/-- A token at its end. -/
def flush (token : List Char) : List (List Char) :=
  if 2 ≤ utf8Length token ∧ utf8Length token ≤ 256 then [token] else []

/-- The tokens of a text, from inside one that has begun with `token`. -/
def scanIdentifiers (token : List Char) : List Char → List (List Char)
  | [] => flush token
  | c :: cs =>
    if isWord c then
      if utf8Length (token ++ [c]) > 256 then scanIdentifiers [] cs
      else scanIdentifiers (token ++ [c]) cs
    else flush token ++ scanIdentifiers [] cs

/-- The terms of whole tokens. -/
def wholeTokenTerms (value : String) : List String :=
  (scanIdentifiers [] (chars value)).map fun token ↦ String.ofList (lowercase token)

/-- The terms of the tokens and of the parts of identifiers. -/
def identifierTerms (value : String) : List String :=
  sortDedup (wholeTokenTerms value ++ ((scanIdentifiers [] (chars value)).flatMap fun token ↦
    (splitIdentifier token).filterMap identifierAlias).map String.ofList)

end Model

/-! ## Cuts -/

/-- What is left of a run that is cut after each shortest piece of more than 256 bytes, if it begins
with `current`. -/
def afterCuts (current : List Char) : List Char → List Char
  | [] => current
  | c :: cs =>
    if 256 < utf8Length (current ++ [c]) then afterCuts [] cs else afterCuts (current ++ [c]) cs

theorem utf8Length_afterCuts_le {current : List Char} (h : utf8Length current ≤ 256)
    (cs : List Char) : utf8Length (afterCuts current cs) ≤ 256 := by
  induction cs generalizing current with
  | nil => exact h
  | cons c cs ih =>
    rw [afterCuts]
    split
    · exact ih (by simp)
    · exact ih (Nat.le_of_not_lt ‹_›)

theorem afterCuts_of_append_le {current cs : List Char} (h : utf8Length (current ++ cs) ≤ 256) :
    afterCuts current cs = current ++ cs := by
  induction cs generalizing current with
  | nil => rw [afterCuts, append_nil]
  | cons c cs ih =>
    have hsplit : current ++ c :: cs = current ++ [c] ++ cs := by simp
    rw [hsplit] at h ⊢
    have hshort : ¬256 < utf8Length (current ++ [c]) := by
      rw [utf8Length_append] at h
      omega
    rw [afterCuts, if_neg hshort, ih h]

theorem afterCuts_of_le {cs : List Char} (h : utf8Length cs ≤ 256) : afterCuts [] cs = cs :=
  afterCuts_of_append_le h

theorem afterCuts_suffix (current cs : List Char) : afterCuts current cs <:+ current ++ cs := by
  induction cs generalizing current with
  | nil => rw [afterCuts, append_nil]
  | cons c cs ih =>
    have hsplit : current ++ c :: cs = current ++ [c] ++ cs := by simp
    rw [hsplit, afterCuts]
    split
    · exact (ih []).trans (suffix_append _ _)
    · exact ih _

/-- The run is not too long, or nothing of it that is long enough stands after the cuts. -/
def KeepsTokens (run : List Char) : Prop :=
  utf8Length run ≤ 256 ∨ utf8Length (afterCuts [] run) < 2

instance (run : List Char) : Decidable (KeepsTokens run) := inferInstanceAs (Decidable (_ ∨ _))

theorem chars_ofList (cs : List Char) : chars (String.ofList cs) = cs := by
  rw [chars_eq_toList, String.toList_ofList]

/-! ## Scanners and runs -/

section Scanners

variable [Unicode]

/-- Tokens never get longer than a flush allows. -/
theorem scanIdentifiers_eq_scanTerms {token : List Char} (h : utf8Length token ≤ 256)
    (cs : List Char) : scanIdentifiers token cs = scanTerms token cs := by
  induction cs generalizing token with
  | nil => simp [scanIdentifiers, scanTerms, flush, h]
  | cons c cs ih =>
    rw [scanIdentifiers, scanTerms]
    split
    · split
      · exact ih (by simp)
      · exact ih (Nat.le_of_not_lt ‹_›)
    · rw [ih (by simp), flush]
      by_cases hlong : 2 ≤ utf8Length token
      · simp [h, hlong]
      · simp [hlong]

theorem scanTerms_append_cons {current xs ys : List Char} {y : Char} (hy : isWord y = false) :
    scanTerms current (xs ++ y :: ys) = scanTerms current xs ++ scanTerms [] ys := by
  induction xs generalizing current with
  | nil =>
    rw [nil_append, scanTerms, scanTerms, if_neg (by simp [hy])]
    split <;> rfl
  | cons x xs ih =>
    rw [cons_append, scanTerms, scanTerms]
    split
    · split <;> exact ih
    · split <;> simp [ih]

/-- A run gives what is left of it after the cuts. -/
theorem scanTerms_of_forall {current cs : List Char} (h : ∀ c ∈ cs, isWord c = true) :
    scanTerms current cs =
      if 2 ≤ utf8Length (afterCuts current cs) then [afterCuts current cs] else [] := by
  induction cs generalizing current with
  | nil => rfl
  | cons c cs ih =>
    have hrest : ∀ c ∈ cs, isWord c = true := fun d hd ↦ h d (mem_cons_of_mem c hd)
    rw [scanTerms, if_pos (h c mem_cons_self), afterCuts]
    split
    · exact ih hrest
    · exact ih hrest

theorem mem_scanTerms_iff {word cs : List Char} :
    word ∈ scanTerms [] cs ↔ ∃ run ∈ runs isWord cs, word = afterCuts [] run ∧
      2 ≤ utf8Length word := by
  have hruns : scanTerms [] cs = (runs isWord cs).flatMap (scanTerms []) :=
    eq_flatMap_runs rfl (fun _ _ _ hy ↦ scanTerms_append_cons hy) cs
  rw [hruns, mem_flatMap]
  refine exists_congr fun run ↦ and_congr_right fun hrun ↦ ?_
  rw [scanTerms_of_forall (forall_of_mem_runs hrun)]
  split
  · simp only [mem_singleton]
    constructor
    · rintro rfl
      exact ⟨rfl, ‹_›⟩
    · exact And.left
  · rename_i hshort
    refine iff_of_false not_mem_nil ?_
    rintro ⟨rfl, hlong⟩
    exact hshort hlong

/-! ## Whole words -/

/-- The term is the lower case of the whole run, and the run is neither too short nor too long. -/
def IsWhole (run : List Char) (term : String) : Prop :=
  term = String.ofList (lowercase run) ∧ 2 ≤ utf8Length run ∧ utf8Length run ≤ 256

/-- The terms of a text are those of its runs, and a run gives at most one, its own. -/
def WholeTerms (terms : String → List String) (value : String) : Prop :=
  (∀ term ∈ terms value, ∃ run ∈ runs isWord (chars value), term ∈ terms (String.ofList run)) ∧
    ∀ run ∈ runs isWord (chars value), ∀ term ∈ terms (String.ofList run), IsWhole run term

/-- Nothing long enough of the lower case stands after the cuts, or the lower case is one run
without a cut, and the run is within the bounds. -/
def KeepsTerms (run : List Char) : Prop :=
  (∀ part ∈ runs isWord (lowercase run), utf8Length (afterCuts [] part) < 2) ∨
    (lowercase run).all isWord = true ∧ utf8Length (lowercase run) ≤ 256 ∧
      2 ≤ utf8Length run ∧ utf8Length run ≤ 256

instance (run : List Char) : Decidable (KeepsTerms run) := inferInstanceAs (Decidable (_ ∨ _))

/-! ### Tokens -/

theorem mem_wholeTokenTerms_iff {value term : String} :
    term ∈ wholeTokenTerms value ↔ ∃ run ∈ runs isWord (chars value),
      2 ≤ utf8Length (afterCuts [] run) ∧ term = String.ofList (lowercase (afterCuts [] run)) := by
  rw [wholeTokenTerms, scanIdentifiers_eq_scanTerms (by simp), mem_map]
  constructor
  · rintro ⟨token, htoken, rfl⟩
    obtain ⟨run, hrun, rfl, hlong⟩ := mem_scanTerms_iff.mp htoken
    exact ⟨run, hrun, hlong, rfl⟩
  · rintro ⟨run, hrun, hlong, rfl⟩
    exact ⟨_, mem_scanTerms_iff.mpr ⟨run, hrun, rfl, hlong⟩, rfl⟩

theorem mem_wholeTokenTerms_run_iff {value term : String} {run : List Char}
    (hrun : run ∈ runs isWord (chars value)) :
    term ∈ wholeTokenTerms (String.ofList run) ↔
      2 ≤ utf8Length (afterCuts [] run) ∧ term = String.ofList (lowercase (afterCuts [] run)) := by
  rw [mem_wholeTokenTerms_iff, chars_ofList,
    runs_of_forall (forall_of_mem_runs hrun) (ne_nil_of_mem_runs hrun)]
  simp only [mem_singleton, exists_eq_left]

theorem wholeTerms_tokens_iff (value : String) : WholeTerms wholeTokenTerms value ↔
    ∀ run ∈ runs isWord (chars value), KeepsTokens run := by
  constructor
  · rintro ⟨-, hwhole⟩ run hrun
    by_contra hlost
    obtain ⟨hlong, hrest⟩ := not_or.mp hlost
    have hterm := (mem_wholeTokenTerms_run_iff hrun).mpr ⟨Nat.le_of_not_lt hrest, rfl⟩
    exact hlong (hwhole run hrun _ hterm).2.2
  · intro hkeeps
    refine ⟨fun term hterm ↦ ?_, fun run hrun term hterm ↦ ?_⟩
    · obtain ⟨run, hrun, hterm⟩ := mem_wholeTokenTerms_iff.mp hterm
      exact ⟨run, hrun, (mem_wholeTokenTerms_run_iff hrun).mpr hterm⟩
    · obtain ⟨hrest, rfl⟩ := (mem_wholeTokenTerms_run_iff hrun).mp hterm
      rcases hkeeps run hrun with hshort | hlost
      · rw [afterCuts_of_le hshort] at hrest ⊢
        exact ⟨rfl, hrest, hshort⟩
      · omega

/-! ### Terms -/

theorem mem_normalizeTerms_iff {value term : String} :
    term ∈ normalizeTerms [value] ↔
      ∃ word ∈ scanTerms [] (lowercase (chars value)), term = String.ofList word := by
  rw [normalizeTerms, sortDedup, KeyedSet.mem_ofList_of_injOn (Set.injOn_id _)]
  simp [lowercase, eq_comm]

/-- Lower case is written before the words are cut out. This makes no difference to the other
characters, which have no lower case. -/
theorem scanTerms_lowercase (hother : ∀ c, isWord c = false → toLowercase c = [c])
    (cs : List Char) : scanTerms [] (lowercase cs) =
      (runs isWord cs).flatMap fun run ↦ scanTerms [] (lowercase run) := by
  refine eq_flatMap_runs (f := fun cs ↦ scanTerms [] (lowercase cs)) rfl (fun xs y ys hy ↦ ?_) cs
  have hsplit : lowercase (xs ++ y :: ys) = lowercase xs ++ y :: lowercase ys := by
    simp [lowercase, hother y hy]
  rw [hsplit]
  exact scanTerms_append_cons hy

/-- A run whose lower case has a part that gives a term keeps it whole only if the part is all of
the lower case. -/
theorem KeepsTerms.of_isWhole {run part : List Char} (hpart : part ∈ runs isWord (lowercase run))
    (h : IsWhole run (String.ofList (afterCuts [] part))) : KeepsTerms run := by
  obtain ⟨heq, hbounds⟩ := h
  have hrest : afterCuts [] part = lowercase run := String.ofList_injective heq
  have hsub := length_le_of_mem_runs hpart
  have hsuffix : lowercase run <:+ part := hrest ▸ afterCuts_suffix [] part
  have hall : lowercase run = part := hsuffix.eq_of_length_le hsub
  refine .inr ⟨?_, ?_, hbounds⟩
  · rw [hall, all_eq_true]
    exact forall_of_mem_runs hpart
  · rw [← hrest]
    exact utf8Length_afterCuts_le (by simp) part

theorem wholeTerms_terms_iff (hother : ∀ c, isWord c = false → toLowercase c = [c])
    (value : String) : WholeTerms (fun value ↦ normalizeTerms [value]) value ↔
      ∀ run ∈ runs isWord (chars value), KeepsTerms run := by
  constructor
  · rintro ⟨-, hwhole⟩ run hrun
    by_cases hlost : ∀ part ∈ runs isWord (lowercase run), utf8Length (afterCuts [] part) < 2
    · exact .inl hlost
    push Not at hlost
    obtain ⟨part, hpart, hlong⟩ := hlost
    refine .of_isWhole hpart (hwhole run hrun _ (mem_normalizeTerms_iff.mpr ⟨_, ?_, rfl⟩))
    rw [chars_ofList]
    exact mem_scanTerms_iff.mpr ⟨part, hpart, rfl, hlong⟩
  · intro hkeeps
    refine ⟨fun term hterm ↦ ?_, fun run hrun term hterm ↦ ?_⟩
    · obtain ⟨word, hword, rfl⟩ := mem_normalizeTerms_iff.mp hterm
      rw [scanTerms_lowercase hother] at hword
      obtain ⟨run, hrun, hword⟩ := mem_flatMap.mp hword
      refine ⟨run, hrun, mem_normalizeTerms_iff.mpr ⟨word, ?_, rfl⟩⟩
      rwa [chars_ofList]
    · obtain ⟨word, hword, rfl⟩ := mem_normalizeTerms_iff.mp hterm
      rw [chars_ofList] at hword
      obtain ⟨part, hpart, rfl, hlong⟩ := mem_scanTerms_iff.mp hword
      rcases hkeeps run hrun with hlost | ⟨hwords, hshort, hbounds⟩
      · have := hlost part hpart
        omega
      · obtain rfl := eq_of_mem_runs (all_eq_true.mp hwords) hpart
        rw [afterCuts_of_le hshort]
        exact ⟨rfl, hbounds⟩

/-- Every term is the lower case of a whole run within the bounds exactly if no run of the text, as
it is spelled or in lower case, leaves two bytes or more after it has been cut, and every other run
is within the bounds and one run in lower case as well. -/
theorem whole_iff (hother : ∀ c, isWord c = false → toLowercase c = [c]) (value : String) :
    (WholeTerms (fun value ↦ normalizeTerms [value]) value ∧ WholeTerms wholeTokenTerms value) ↔
      ∀ run ∈ runs isWord (chars value), KeepsTerms run ∧ KeepsTokens run := by
  rw [wholeTerms_terms_iff hother, wholeTerms_tokens_iff]
  exact ⟨fun h run hrun ↦ ⟨h.1 run hrun, h.2 run hrun⟩,
    fun h ↦ ⟨fun run hrun ↦ (h run hrun).1, fun run hrun ↦ (h run hrun).2⟩⟩

end Scanners

section Examples

attribute [local instance] Unicode.basic

theorem toLowercase_of_not_isWord (c : Char) (h : isWord c = false) : toLowercase c = [c] := by
  have hletter : c.isAlphanum = false ∧ c ≠ dottedCapitalI := by
    have hother : (c.isAlphanum || c == dottedCapitalI) = false := (Bool.or_eq_false_iff.mp h).1
    simpa using hother
  have hupper : ¬(c.val ≥ 'A'.val ∧ c.val ≤ 'Z'.val) := by
    intro hupper
    have htrue : c.isUpper = true := decide_eq_true hupper
    rw [Char.isAlphanum, Char.isAlpha, htrue] at hletter
    cases hletter.1
  change (if c = dottedCapitalI then ['i', combiningDot] else [c.toLower]) = [c]
  rw [if_neg hletter.2, Char.toLower, dif_neg hupper]

/-- Two words, and one that is too short. -/
theorem whole_iff_words :
    WholeTerms (fun value ↦ normalizeTerms [value]) "findUser by_id 7" ∧
      WholeTerms wholeTokenTerms "findUser by_id 7" :=
  (whole_iff toLowercase_of_not_isWord _).mpr (by decide)

/-- A word of 300 characters is found by its last 43, and one with a dotted capital I by what stands
before its dot. -/
theorem wholeTerms_suffix :
    runs isWord (List.replicate 300 'a') = [List.replicate 300 'a'] ∧
      normalizeTerms [String.ofList (List.replicate 300 'a')]
        = [String.ofList (List.replicate 43 'a')] ∧
      wholeTokenTerms (String.ofList (List.replicate 300 'a'))
        = [String.ofList (List.replicate 43 'a')] ∧
      normalizeTerms [String.ofList ['a', 'b', dottedCapitalI, 'x']] = ["abi"] := by
  decide +kernel

end Examples

end Codeclew.Callables
