import Codeclew.FlatControl
import Codeclew.Text

/-!
# Activity diagrams

The steps of a method are a flat list, with a delimiter where a conditional begins, has its
alternative and ends. They are checked once and then printed as the lines of a PlantUML activity
diagram. The printer finds the branches of a conditional by counting delimiters, and prints a
conditional that is all there is of an alternative as a further branch of the outer one.

Steps and lines are both flat programs, so what they execute can be compared.
-/

namespace Codeclew.ProcessFlow

open FlatControl List

inductive ProjectionStep where
  | action (diagram tree : String) (category : Option String)
  | ifThen (condition : String)
  | orElse
  | endIf
  | methodReturn (value : String)
  | gap (reason : String)
  deriving DecidableEq, Repr

structure Projection where
  steps : List ProjectionStep
  evidenceGaps : List String
  sourceEligible : Bool
  flowFallbackGap : Option String
  noncausal : Option String

structure ValidatedProjection where
  projection : Projection
  evidenceGaps : List String

/-! ## Checking -/

/-- Read the delimiters, with a flag for every open conditional that tells whether it has its
alternative. What is wrong with them, if anything. -/
def malformed : List ProjectionStep → (stack : List Bool) → Option String
  | [], stack => if stack = [] then none else some "IF_WITHOUT_END"
  | .ifThen condition :: steps, stack =>
    if (chars condition).all isWhitespace then some "IF_CONDITION_MISSING"
    else malformed steps (false :: stack)
  | .orElse :: steps, false :: stack => malformed steps (true :: stack)
  | .orElse :: _, _ => some "ELSE_WITHOUT_OPEN_IF_OR_DUPLICATE_ELSE"
  | .endIf :: steps, _ :: stack => malformed steps stack
  | .endIf :: _, [] => some "END_WITHOUT_OPEN_IF"
  | .action .. :: steps, stack => malformed steps stack
  | .methodReturn _ :: steps, stack => malformed steps stack
  | .gap _ :: steps, stack => malformed steps stack

def withBoundaries (reason : String) (evidenceGaps : List String) : String :=
  if evidenceGaps = [] then reason
  else reason ++ "; EVIDENCE_BOUNDARIES:" ++ ",".intercalate evidenceGaps

def validateProjection (projection : Projection) : ValidatedProjection :=
  let evidenceGaps := projection.evidenceGaps
  match projection.noncausal with
  | some reason =>
    ⟨{ projection with
        noncausal := none
        steps := [.gap (withBoundaries reason evidenceGaps)]
        sourceEligible := false }, evidenceGaps⟩
  | none =>
    match malformed projection.steps [] with
    | some reason =>
      ⟨{ projection with
          steps := [.gap ("MALFORMED_CONTROL:" ++ reason)]
          sourceEligible := false }, evidenceGaps⟩
    | none =>
      match projection.flowFallbackGap with
      | some reason =>
        ⟨{ projection with
            flowFallbackGap := none
            steps := [.gap (withBoundaries reason evidenceGaps)] }, evidenceGaps⟩
      | none =>
        ⟨{ projection with
            evidenceGaps := []
            steps := evidenceGaps.map .gap ++ projection.steps }, evidenceGaps⟩

/-! ## Labels -/

def isLineBreak (c : Char) : Bool :=
  c = '\r' || c = '\n' || c.toNat = 0x85 || c.toNat = 0x2028 || c.toNat = 0x2029

def plain (c : Char) : Char := if isLineBreak c || isControl c then ' ' else c

/-- `plantuml::escape` -/
def escape (s : String) : String :=
  String.join ((chars s).map fun c ↦
    match c with
    | '&' => "&amp;"
    | '<' => "&lt;"
    | '>' => "&gt;"
    | '"' => "＂"
    | '[' => "［"
    | ']' => "］"
    | '(' => "（"
    | ')' => "）"
    | ';' => "；"
    | c => String.singleton (plain c))

def truncateChars (text : String) (maxChars keepChars : ℕ) : String :=
  if maxChars < (chars text).length then String.ofList ((chars text).take keepChars) ++ "..."
  else text

def guardWrapBoundary (cs : List Char) (position : ℕ) : Bool :=
  match cs[position - 1]?, cs[position]? with
  | some previous, some next =>
    0 < position &&
      (isWhitespace previous ||
        if previous ∈ ['&', '|', '=', '!', '<', '>'] then
          (previous, next) ∉ [('&', '&'), ('|', '|'), ('=', '='), ('!', '='), ('<', '='),
            ('>', '='), ('=', '>'), ('-', '>'), (':', ':')]
        else previous ∈ [',', '?', ':', '+', '-', '*', '/', '%'])
  | _, _ => false

/-- Cut a text into lines of at most `width` characters, at the last good place of each. -/
def wrapLines (width : ℕ) : (fuel : ℕ) → List Char → List (List Char)
  | 0, cs => [cs]
  | fuel + 1, cs =>
    if cs.length ≤ width then [cs]
    else
      let stop := (((List.range width).map (· + 1)).reverse.find? (guardWrapBoundary cs)).getD width
      cs.take stop :: wrapLines width fuel (cs.drop stop)

def hexDigits (n : ℕ) : String :=
  let digits := (Nat.toDigits 16 n).map Char.toUpper
  String.ofList (List.replicate (4 - digits.length) '0' ++ digits)

def escapeGuardLine (cs : List Char) : String :=
  String.join (cs.map fun c ↦
    if c ∈ "&<>\"'\\~*/_-[]\x7b\x7d();:#%$|=!,?+^@\x60".toList then
      "<U+" ++ hexDigits c.toNat ++ ">"
    else String.singleton (if isControl c then ' ' else c))

def guardLiteral (condition : String) : String :=
  let cs := (chars condition).map plain
  "\\n".intercalate ((wrapLines 60 cs.length cs).map escapeGuardLine)

def returnLine (value : String) : String :=
  escape (truncateChars (if value = "" then "return" else "return " ++ value) 120 117)

/-! ## Printing -/

inductive Line where
  | action (label : String)
  | ifThen (condition : String) (guard : ℕ)
  | elseIf (condition : String) (guard : ℕ)
  | orElse
  | endIf
  | stop
  | note (reason : String)
  deriving DecidableEq, Repr

def guardLabel (guard : ℕ) : String :=
  "C" ++ (if guard < 10 then "0" else "") ++ toString guard

def Line.text : Line → String
  | .action label => ":" ++ label ++ ";\n"
  | .ifThen condition guard => "if (" ++ condition ++ ") then (" ++ guardLabel guard ++ ")\n"
  | .elseIf condition guard => "else if (" ++ condition ++ ") then (" ++ guardLabel guard ++ ")\n"
  | .orElse => "else (no)\n"
  | .endIf => "endif\n"
  | .stop => "stop\n"
  | .note reason => "note right\n  " ++ reason ++ " (not established)\nend note\n"

/-- Where the branches of a conditional are: the first steps of the positive branch and after it,
those of the alternative if there is one, and the first step after the conditional. -/
structure IfRegions where
  thenStart : ℕ
  thenEnd : ℕ
  elseRange : Option (ℕ × ℕ)
  after : ℕ

/-- Count delimiters from a position on, `depth` conditionals deep. -/
def ifRegionsFrom (thenStart : ℕ) : List ProjectionStep → (index depth : ℕ) →
    (elseIndex : Option ℕ) → Option IfRegions
  | [], _, _, _ => none
  | .ifThen _ :: steps, index, depth, elseIndex =>
    ifRegionsFrom thenStart steps (index + 1) (depth + 1) elseIndex
  | .orElse :: steps, index, depth, elseIndex =>
    if depth = 1 then
      if elseIndex.isSome then none
      else ifRegionsFrom thenStart steps (index + 1) depth (some index)
    else ifRegionsFrom thenStart steps (index + 1) depth elseIndex
  | .endIf :: steps, index, depth, elseIndex =>
    if depth - 1 = 0 then
      some ⟨thenStart, elseIndex.getD index, elseIndex.map fun i ↦ (i + 1, index), index + 1⟩
    else ifRegionsFrom thenStart steps (index + 1) (depth - 1) elseIndex
  | .action .. :: steps, index, depth, elseIndex =>
    ifRegionsFrom thenStart steps (index + 1) depth elseIndex
  | .methodReturn _ :: steps, index, depth, elseIndex =>
    ifRegionsFrom thenStart steps (index + 1) depth elseIndex
  | .gap _ :: steps, index, depth, elseIndex =>
    ifRegionsFrom thenStart steps (index + 1) depth elseIndex

def ifRegions (steps : List ProjectionStep) (start : ℕ) : Option IfRegions :=
  ifRegionsFrom (start + 1) (steps.drop (start + 1)) (start + 1) 1 none

mutual

/-- The lines of the steps from `index` up to `stop`, and the number of the last condition. -/
def renderPumlRange (steps : List ProjectionStep) : (fuel index stop guard : ℕ) → List Line × ℕ
  | 0, _, _, guard => ([], guard)
  | fuel + 1, index, stop, guard =>
    if index < stop then
      match steps[index]? with
      | some (.action diagram _ _) =>
        let rest := renderPumlRange steps fuel (index + 1) stop guard
        (.action (escape diagram) :: rest.1, rest.2)
      | some (.ifThen condition) =>
        match ifRegions steps index with
        | none => renderPumlRange steps fuel (index + 1) stop guard
        | some regions =>
          let yes := renderPumlRange steps fuel regions.thenStart regions.thenEnd (guard + 1)
          let no := renderPumlElse steps fuel regions.elseRange yes.2
          let rest := renderPumlRange steps fuel regions.after stop no.2
          (.ifThen (guardLiteral condition) (guard + 1) :: (yes.1 ++ (no.1 ++ [.endIf])) ++ rest.1,
            rest.2)
      | some .orElse =>
        let rest := renderPumlRange steps fuel (index + 1) stop guard
        (.orElse :: rest.1, rest.2)
      | some .endIf =>
        let rest := renderPumlRange steps fuel (index + 1) stop guard
        (.endIf :: rest.1, rest.2)
      | some (.methodReturn value) =>
        let rest := renderPumlRange steps fuel (index + 1) stop guard
        (.action (returnLine value) :: .stop :: rest.1, rest.2)
      | some (.gap reason) =>
        let rest := renderPumlRange steps fuel (index + 1) stop guard
        (.note (escape reason) :: rest.1, rest.2)
      | none => ([], guard)
    else ([], guard)

/-- The further branches of a conditional, of which the alternative is given. -/
def renderPumlElse (steps : List ProjectionStep) :
    (fuel : ℕ) → (elseRange : Option (ℕ × ℕ)) → (guard : ℕ) → List Line × ℕ
  | 0, _, guard => ([], guard)
  | _ + 1, none, guard => ([], guard)
  | fuel + 1, some (elseStart, elseEnd), guard =>
    let otherwise :=
      let no := renderPumlRange steps fuel elseStart elseEnd guard
      (.orElse :: no.1, no.2)
    match steps[elseStart]?, ifRegions steps elseStart with
    | some (.ifThen condition), some regions =>
      if regions.after = elseEnd then
        let yes := renderPumlRange steps fuel regions.thenStart regions.thenEnd (guard + 1)
        let no := renderPumlElse steps fuel regions.elseRange yes.2
        (.elseIf (guardLiteral condition) (guard + 1) :: (yes.1 ++ no.1), no.2)
      else otherwise
    | _, _ => otherwise

end

/-- The lines of all steps. Every call covers fewer steps than the one before, or is for an
alternative of them, so that fuel of twice their number suffices. -/
def renderPumlSteps (steps : List ProjectionStep) : List Line :=
  (renderPumlRange steps (2 * steps.length + 1) 0 steps.length 0).1

/-- `&steps[start..stop]` -/
def slice (steps : List ProjectionStep) (start stop : ℕ) : List ProjectionStep :=
  (steps.drop start).take (stop - start)

/-- Whether all paths through the last construct end, read from `index` on. -/
def sequenceTerminatesFrom : (fuel : ℕ) → List ProjectionStep → (index : ℕ) →
    (lastTerminates : Bool) → Bool
  | 0, _, _, lastTerminates => lastTerminates
  | fuel + 1, steps, index, lastTerminates =>
    match steps[index]? with
    | none => lastTerminates
    | some (.methodReturn _) => sequenceTerminatesFrom fuel steps (index + 1) true
    | some (.ifThen _) =>
      match ifRegions steps index with
      | none => false
      | some regions =>
        match regions.elseRange with
        | none => sequenceTerminatesFrom fuel steps regions.after false
        | some (elseStart, elseEnd) =>
          sequenceTerminatesFrom fuel steps regions.after
            (sequenceTerminatesFrom fuel (slice steps regions.thenStart regions.thenEnd) 0 false &&
              sequenceTerminatesFrom fuel (slice steps elseStart elseEnd) 0 false)
    | some (.action ..) => sequenceTerminatesFrom fuel steps (index + 1) false
    | some (.gap _) => sequenceTerminatesFrom fuel steps (index + 1) false
    | some .orElse => false
    | some .endIf => false

def sequenceTerminates (steps : List ProjectionStep) : Bool :=
  sequenceTerminatesFrom (steps.length + 1) steps 0 false

/-- Whether steps claim that something is executed. -/
def causal (steps : List ProjectionStep) : Bool :=
  steps.any fun step ↦ match step with
    | .gap _ => false
    | _ => true

/-- A diagram shows an execution, from its `start` on, or has only a note on why none is known. -/
inductive Diagram where
  | activity (lines : List Line)
  | evidence (note : String)
  deriving DecidableEq, Repr

/-- The diagram of `render_validated`. Its title and its entry are left out, and so is the tree. -/
def renderValidated (validated : ValidatedProjection) : Option Diagram :=
  let steps := validated.projection.steps
  if steps = [] then none
  else if causal steps then
    some (.activity (renderPumlSteps steps ++ if sequenceTerminates steps then [] else [.stop]))
  else
    let gaps := steps.filterMap fun step ↦ match step with
      | .gap reason => some reason
      | _ => none
    some (.evidence (escape ("\n".intercalate gaps)))

/-! ## Blocks -/

/-- Steps whose conditionals are closed. -/
inductive Block where
  | done
  | action (diagram tree : String) (category : Option String) (rest : Block)
  | methodReturn (value : String) (rest : Block)
  | gap (reason : String) (rest : Block)
  | whenOnly (condition : String) (yes rest : Block)
  | whenElse (condition : String) (yes no rest : Block)

namespace Block

def steps : Block → List ProjectionStep
  | .done => []
  | .action diagram tree category rest => .action diagram tree category :: rest.steps
  | .methodReturn value rest => .methodReturn value :: rest.steps
  | .gap reason rest => .gap reason :: rest.steps
  | .whenOnly condition yes rest => .ifThen condition :: (yes.steps ++ .endIf :: rest.steps)
  | .whenElse condition yes no rest =>
    .ifThen condition :: (yes.steps ++ .orElse :: (no.steps ++ .endIf :: rest.steps))

end Block

/-- What is left after accepted steps: with no conditional open they are those of a block, otherwise
a block comes first and then the alternative or the end of the innermost one. -/
def Splits : List Bool → List ProjectionStep → Prop
  | [], steps => ∃ b : Block, steps = b.steps
  | hasElse :: stack, steps => ∃ (b : Block) (rest : List ProjectionStep),
    steps = b.steps ++ .endIf :: rest ∧ malformed rest stack = none ∨
    hasElse = false ∧ steps = b.steps ++ .orElse :: rest ∧ malformed rest (true :: stack) = none

theorem Splits.cons {stack : List Bool} {steps : List ProjectionStep} (f : Block → Block)
    (first : List ProjectionStep) (hf : ∀ b, (f b).steps = first ++ b.steps)
    (h : Splits stack steps) : Splits stack (first ++ steps) := by
  cases stack with
  | nil =>
    obtain ⟨b, rfl⟩ := h
    exact ⟨f b, (hf b).symm⟩
  | cons hasElse stack =>
    obtain ⟨b, rest, ⟨rfl, hrest⟩ | ⟨helse, rfl, hrest⟩⟩ := h
    · exact ⟨f b, rest, .inl ⟨by rw [hf, append_assoc], hrest⟩⟩
    · exact ⟨f b, rest, .inr ⟨helse, by rw [hf, append_assoc], hrest⟩⟩

/-- Accepted steps are made of blocks. -/
theorem splits_of_malformed_eq_none {steps : List ProjectionStep} {stack : List Bool}
    (h : malformed steps stack = none) : Splits stack steps := by
  induction hn : steps.length using Nat.strong_induction_on generalizing steps stack with
  | _ n ih =>
    cases steps with
    | nil =>
      cases stack with
      | nil => exact ⟨.done, rfl⟩
      | cons => simp [malformed] at h
    | cons step steps =>
      rw [length_cons] at hn
      cases step with
      | action diagram tree category =>
        have hrest : malformed steps stack = none := h
        exact (ih _ (by omega) hrest rfl).cons (.action diagram tree category) [_] fun _ ↦ rfl
      | methodReturn value =>
        have hrest : malformed steps stack = none := h
        exact (ih _ (by omega) hrest rfl).cons (.methodReturn value) [_] fun _ ↦ rfl
      | gap reason =>
        have hrest : malformed steps stack = none := h
        exact (ih _ (by omega) hrest rfl).cons (.gap reason) [_] fun _ ↦ rfl
      | endIf =>
        cases stack with
        | nil => simp [malformed] at h
        | cons hasElse stack => exact ⟨.done, steps, .inl ⟨rfl, h⟩⟩
      | orElse =>
        rcases stack with _ | ⟨_ | _, stack⟩
        · simp [malformed] at h
        · exact ⟨.done, steps, .inr ⟨rfl, rfl, h⟩⟩
        · simp [malformed] at h
      | ifThen condition =>
        rw [malformed] at h
        split_ifs at h
        obtain ⟨yes, rest, ⟨rfl, hrest⟩ | ⟨-, rfl, hrest⟩⟩ := ih _ (by omega) h rfl
        · rw [length_append, length_cons] at hn
          have hshape : .ifThen condition :: (yes.steps ++ .endIf :: rest) =
              (.ifThen condition :: (yes.steps ++ [.endIf])) ++ rest := by simp
          rw [hshape]
          exact (ih _ (by omega) hrest rfl).cons (.whenOnly condition yes) _ fun _ ↦ by
            simp [Block.steps]
        · rw [length_append, length_cons] at hn
          obtain ⟨no, after, ⟨rfl, hafter⟩ | ⟨hfalse, -⟩⟩ := ih _ (by omega) hrest rfl
          · rw [length_append, length_cons] at hn
            have hshape : .ifThen condition ::
                (yes.steps ++ .orElse :: (no.steps ++ .endIf :: after)) =
                  .ifThen condition ::
                    (yes.steps ++ .orElse :: (no.steps ++ [.endIf])) ++ after := by
              simp
            rw [hshape]
            exact (ih _ (by omega) hafter rfl).cons (.whenElse condition yes no) _ fun _ ↦ by
              simp [Block.steps]
          · cases hfalse

/-- What was checked is a block. -/
theorem exists_block_validateProjection (projection : Projection) :
    ∃ b : Block, (validateProjection projection).projection.steps = b.steps := by
  have hgaps : ∀ (gaps : List String) (b : Block),
      ∃ b' : Block, gaps.map ProjectionStep.gap ++ b.steps = b'.steps := by
    intro gaps b
    induction gaps with
    | nil => exact ⟨b, rfl⟩
    | cons reason gaps ih =>
      obtain ⟨b', hb'⟩ := ih
      exact ⟨.gap reason b', congrArg _ hb'⟩
  rw [validateProjection]
  split
  · exact ⟨.gap _ .done, rfl⟩
  · split
    · exact ⟨.gap _ .done, rfl⟩
    · next hwell =>
      split
      · exact ⟨.gap _ .done, rfl⟩
      · obtain ⟨b, hb⟩ := splits_of_malformed_eq_none hwell
        rw [hb]
        exact hgaps _ b

end Codeclew.ProcessFlow
