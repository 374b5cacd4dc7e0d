import Codeclew.Documentation.ProcessFlow

/-!
# What an activity diagram executes

The lines that are printed for checked steps evaluate the same conditions, perform the same actions
and stop at the same returns as the steps, whatever the outcomes of the conditions are.
-/

namespace Codeclew.ProcessFlow

open FlatControl Meaning
open List hiding choose

/-! ## Programs -/

inductive Event where
  | condition (text : String)
  | action (diagram : String)
  | returned (value : String)
  deriving DecidableEq, Repr

/-- What a line shows of an event. -/
inductive Label where
  | condition (text : String)
  | action (text : String)
  deriving DecidableEq, Repr

def Event.label : Event → Label
  | .condition text => .condition (guardLiteral text)
  | .action diagram => .action (escape diagram)
  | .returned value => .action (returnLine value)

def ProjectionStep.code : ProjectionStep → List (Instr Event)
  | .action diagram _ _ => [.act (.action diagram)]
  | .ifThen condition => [.test (.condition condition)]
  | .orElse => [.alternative]
  | .endIf => [.close]
  | .methodReturn value => [.act (.returned value), .halt]
  | .gap _ => []

def Line.code : Line → List (Instr Label)
  | .action label => [.act (.action label)]
  | .ifThen condition _ => [.test (.condition condition)]
  | .elseIf condition _ => [.retest (.condition condition)]
  | .orElse => [.alternative]
  | .endIf => [.close]
  | .stop => [.halt]
  | .note _ => []

/-- Execute steps, with the outcomes of the conditions. -/
def runSteps (steps : List ProjectionStep) (outcomes : ℕ → Bool) : Trace Event :=
  exec .running (steps.flatMap ProjectionStep.code) outcomes

def runLines (lines : List Line) (outcomes : ℕ → Bool) : Trace Label :=
  exec .running (lines.flatMap Line.code) outcomes

/-! ## Blocks -/

namespace Block

variable {ε : Type}

def meaning (f : Event → ε) : Block → Meaning ε
  | .done => skip
  | .action diagram _ _ rest => seq (act (f (.action diagram))) (rest.meaning f)
  | .methodReturn value rest =>
    seq (seq (act (f (.returned value))) halt) (rest.meaning f)
  | .gap _ rest => rest.meaning f
  | .whenOnly condition yes rest =>
    seq (choose (f (.condition condition)) (yes.meaning f) skip) (rest.meaning f)
  | .whenElse condition yes no rest =>
    seq (choose (f (.condition condition)) (yes.meaning f) (no.meaning f)) (rest.meaning f)

/-! The shape and the length of the steps of a block, with what comes after it. -/

theorem add_length_cons {b rest : Block} {step : ProjectionStep} (h : b.steps = step :: rest.steps)
    (index : ℕ) : index + b.steps.length = index + 1 + rest.steps.length := by
  rw [h, length_cons]
  omega

variable (c : String) (yes no rest : Block) (post : List ProjectionStep) (index : ℕ)

theorem whenOnly_append : (whenOnly c yes rest).steps ++ post =
    .ifThen c :: (yes.steps ++ .endIf :: (rest.steps ++ post)) := by
  simp [steps]

theorem whenElse_append : (whenElse c yes no rest).steps ++ post =
    .ifThen c :: (yes.steps ++ .orElse :: (no.steps ++ .endIf :: (rest.steps ++ post))) := by
  simp [steps]

theorem add_length_whenOnly : index + (whenOnly c yes rest).steps.length =
    index + 1 + yes.steps.length + 1 + rest.steps.length := by
  simp only [steps, length_cons, length_append]
  omega

theorem add_length_whenElse : index + (whenElse c yes no rest).steps.length =
    index + 1 + yes.steps.length + 1 + no.steps.length + 1 + rest.steps.length := by
  simp only [steps, length_cons, length_append]
  omega

theorem eq_done {b : Block} (h : b.steps.length = 0) : b = .done := by
  cases b <;> simp [steps] at h ⊢

theorem means_steps (b : Block) : Means (b.steps.flatMap ProjectionStep.code) (b.meaning id) := by
  induction b with
  | done => exact .nil
  | action diagram tree category rest ih => exact (Means.act _).append ih
  | methodReturn value rest ih => exact ((Means.act _).append .halt).append ih
  | gap reason rest ih => exact ih
  | whenOnly condition yes rest ihyes ih =>
    have h := (Means.conditional (Event.condition condition) ihyes .nil).append ih
    simpa [steps, ProjectionStep.code, meaning] using h
  | whenElse condition yes no rest ihyes ihno ih =>
    have h := (Means.conditional (Event.condition condition) ihyes (.alternative ihno)).append ih
    simpa [steps, ProjectionStep.code, meaning] using h

/-- Only the events depend on how they are shown. -/
theorem meaning_eq_map (f : Event → ε) (b : Block) (o : ℕ → Bool) :
    b.meaning f o = ((b.meaning id o).1.map f, (b.meaning id o).2) := by
  induction b generalizing o with
  | done => rfl
  | gap reason rest ih => exact ih o
  | action diagram tree category rest ih => simp [meaning, seq, act, ih o]
  | methodReturn value rest ih => simp [meaning, seq, act, halt]
  | whenOnly condition yes rest ihyes ih =>
    cases ho : o 0 <;> simp only [meaning, seq, choose, ho, ihyes, skip, ih, Bool.false_eq_true,
      if_true, if_false] <;> [skip; split] <;> simp_all
  | whenElse condition yes no rest ihyes ihno ih =>
    cases ho : o 0 <;> simp only [meaning, seq, choose, ho, ihyes, ihno, ih, Bool.false_eq_true,
      if_true, if_false] <;> split <;> simp_all

end Block

/-! ## Positions -/

section Positions

variable {steps post : List ProjectionStep} {index : ℕ}

theorem getElem?_of_drop {step : ProjectionStep} (h : steps.drop index = step :: post) :
    steps[index]? = some step := by
  rw [← List.head?_drop, h]
  rfl

theorem drop_add_of_drop {xs : List ProjectionStep} {k : ℕ} (h : steps.drop index = xs ++ post)
    (hk : k = index + xs.length) : steps.drop k = post := by
  rw [hk, ← drop_drop, h, drop_left]

theorem drop_succ_of_drop {step : ProjectionStep} (h : steps.drop index = step :: post) :
    steps.drop (index + 1) = post := by
  rw [← drop_drop, h]
  rfl

theorem ifRegionsFrom_endIf (thenStart : ℕ) (rest : List ProjectionStep) (i depth : ℕ)
    (e : Option ℕ) :
    ifRegionsFrom thenStart (.endIf :: rest) i (depth + 1 + 1) e =
      ifRegionsFrom thenStart rest (i + 1) (depth + 1) e := rfl

/-- A block is passed over. -/
theorem ifRegionsFrom_block (thenStart : ℕ) (b : Block) (rest : List ProjectionStep) (i depth : ℕ)
    (e : Option ℕ) :
    ifRegionsFrom thenStart (b.steps ++ rest) i (depth + 1) e =
      ifRegionsFrom thenStart rest (i + b.steps.length) (depth + 1) e := by
  induction b generalizing rest i depth e with
  | done => rfl
  | action _ _ _ tail ih | methodReturn _ tail ih | gap _ tail ih =>
    rw [Block.steps, cons_append, ifRegionsFrom, ih, length_cons, Nat.add_right_comm,
      Nat.add_assoc]
  | whenOnly c yes tail ihyes ih =>
    rw [Block.whenOnly_append, ifRegionsFrom, ihyes, ifRegionsFrom_endIf, ih,
      Block.add_length_whenOnly]
  | whenElse c yes no tail ihyes ihno ih =>
    rw [Block.whenElse_append, ifRegionsFrom, ihyes, ifRegionsFrom, if_neg (by omega), ihno,
      ifRegionsFrom_endIf, ih, Block.add_length_whenElse]

theorem ifRegions_whenOnly {c : String} {yes : Block}
    (h : steps.drop index = .ifThen c :: (yes.steps ++ .endIf :: post)) :
    ifRegions steps index = some
      ⟨index + 1, index + 1 + yes.steps.length, none, index + 1 + yes.steps.length + 1⟩ := by
  have hrest : steps.drop (index + 1) = yes.steps ++ .endIf :: post :=
    drop_succ_of_drop h
  rw [ifRegions, hrest, ifRegionsFrom_block]
  rfl

theorem ifRegions_whenElse {c : String} {yes no : Block}
    (h : steps.drop index =
      .ifThen c :: (yes.steps ++ .orElse :: (no.steps ++ .endIf :: post))) :
    ifRegions steps index = some
      ⟨index + 1, index + 1 + yes.steps.length,
        some (index + 1 + yes.steps.length + 1,
          index + 1 + yes.steps.length + 1 + no.steps.length),
        index + 1 + yes.steps.length + 1 + no.steps.length + 1⟩ := by
  have hrest : steps.drop (index + 1) = yes.steps ++ .orElse :: (no.steps ++ .endIf :: post) :=
    drop_succ_of_drop h
  rw [ifRegions, hrest, ifRegionsFrom_block, ifRegionsFrom, if_pos rfl, if_neg (by simp),
    ifRegionsFrom_block]
  rfl

end Positions

/-! ## Lines -/

section Lines

variable {steps post : List ProjectionStep} {index guard n : ℕ}

theorem renderPumlElse_none (steps : List ProjectionStep) (n guard : ℕ) :
    renderPumlElse steps n none guard = ([], guard) := by
  cases n <;> rw [renderPumlElse]

theorem code_conditional (c : String) (g : ℕ) (yes no rest : List Line) :
    (Line.ifThen c g :: (yes ++ (no ++ [.endIf])) ++ rest).flatMap Line.code =
      .test (.condition c) :: (yes.flatMap Line.code ++ (no.flatMap Line.code ++ [.close])) ++
        rest.flatMap Line.code := by
  simp [Line.code]

theorem code_further (c : String) (g : ℕ) (yes no : List Line) :
    (Line.elseIf c g :: (yes ++ no)).flatMap Line.code =
      .retest (.condition c) :: (yes.flatMap Line.code ++ no.flatMap Line.code) := by
  simp [Line.code]

/-- The lines of the steps of a block mean what the block does. -/
def RangeMeans (steps : List ProjectionStep) (n : ℕ) : Prop :=
  ∀ (b : Block) (post : List ProjectionStep) (index guard : ℕ), steps.drop index = b.steps ++ post →
    2 * b.steps.length < n →
    Means ((renderPumlRange steps n index (index + b.steps.length) guard).1.flatMap Line.code)
      (b.meaning Event.label)

/-- So do the lines of an alternative, where the tests before have failed. -/
def ElseMeans (steps : List ProjectionStep) (n : ℕ) : Prop :=
  ∀ (b : Block) (post : List ProjectionStep) (index guard : ℕ),
    steps.drop index = b.steps ++ .endIf :: post → 2 * b.steps.length + 1 < n →
    Otherwise
      ((renderPumlElse steps n (some (index, index + b.steps.length)) guard).1.flatMap Line.code)
      (b.meaning Event.label)

theorem rangeMeans_succ (hrange : RangeMeans steps n) (helse : ElseMeans steps n) :
    RangeMeans steps (n + 1) := by
  intro b post index guard h hn
  rw [renderPumlRange]
  cases b with
  | done =>
    rw [if_neg (by simp [Block.steps])]
    exact .nil
  | action diagram tree category rest =>
    have hstop := Block.add_length_cons (b := .action diagram tree category rest) rfl index
    rw [hstop, if_pos (by omega), getElem?_of_drop h]
    exact (Means.act _).append (hrange rest post _ guard (drop_succ_of_drop h) (by omega))
  | methodReturn value rest =>
    have hstop := Block.add_length_cons (b := .methodReturn value rest) rfl index
    rw [hstop, if_pos (by omega), getElem?_of_drop h]
    exact ((Means.act _).append .halt).append
      (hrange rest post _ guard (drop_succ_of_drop h) (by omega))
  | gap reason rest =>
    have hstop := Block.add_length_cons (b := .gap reason rest) rfl index
    rw [hstop, if_pos (by omega), getElem?_of_drop h]
    exact hrange rest post _ guard (drop_succ_of_drop h) (by omega)
  | whenOnly c yes rest =>
    have hshape := h.trans (Block.whenOnly_append ..)
    have hyes := drop_succ_of_drop hshape
    have hrest := drop_succ_of_drop (drop_add_of_drop hyes rfl)
    have hstop := Block.add_length_whenOnly c yes rest index
    rw [hstop, if_pos (by omega), getElem?_of_drop hshape]
    simp only [ifRegions_whenOnly hshape, renderPumlElse_none, code_conditional]
    exact (Means.conditional _ (hrange yes _ _ _ hyes (by omega)) .nil).append
      (hrange rest post _ _ hrest (by omega))
  | whenElse c yes no rest =>
    have hshape := h.trans (Block.whenElse_append ..)
    have hyes := drop_succ_of_drop hshape
    have hno := drop_succ_of_drop (drop_add_of_drop hyes rfl)
    have hrest := drop_succ_of_drop (drop_add_of_drop hno rfl)
    have hstop := Block.add_length_whenElse c yes no rest index
    rw [hstop, if_pos (by omega), getElem?_of_drop hshape]
    simp only [ifRegions_whenElse hshape, code_conditional]
    exact (Means.conditional _ (hrange yes _ _ _ hyes (by omega))
      (helse no _ _ _ hno (by omega))).append (hrange rest post _ _ hrest (by omega))

/-- An alternative that is one conditional is printed as a further branch. -/
theorem elseMeans_succ (hrange : RangeMeans steps n) (helse : ElseMeans steps n) :
    ElseMeans steps (n + 1) := by
  intro b post index guard h hn
  have hother := Otherwise.alternative (hrange b _ index guard h (by omega))
  rw [renderPumlElse]
  cases b with
  | done =>
    rw [getElem?_of_drop h]
    exact hother
  | action diagram tree category rest | methodReturn value rest | gap reason rest =>
    rw [getElem?_of_drop h]
    exact hother
  | whenOnly c yes rest =>
    have hshape := h.trans (Block.whenOnly_append ..)
    have hyes := drop_succ_of_drop hshape
    have hlength := Block.add_length_whenOnly c yes rest index
    simp only [getElem?_of_drop hshape, ifRegions_whenOnly hshape, renderPumlElse_none]
    split_ifs with hafter
    · obtain rfl : rest = .done := Block.eq_done (by omega)
      rw [code_further, Block.meaning, Block.meaning, seq_skip]
      exact .retest _ (hrange yes _ _ _ hyes (by omega)) .nil
    · exact hother
  | whenElse c yes no rest =>
    have hshape := h.trans (Block.whenElse_append ..)
    have hyes := drop_succ_of_drop hshape
    have hno := drop_succ_of_drop (drop_add_of_drop hyes rfl)
    have hlength := Block.add_length_whenElse c yes no rest index
    simp only [getElem?_of_drop hshape, ifRegions_whenElse hshape]
    split_ifs with hafter
    · obtain rfl : rest = .done := Block.eq_done (by omega)
      rw [code_further, Block.meaning, Block.meaning, seq_skip]
      exact .retest _ (hrange yes _ _ _ hyes (by omega)) (helse no _ _ _ hno (by omega))
    · exact hother

theorem rangeMeans_and_elseMeans (steps : List ProjectionStep) (n : ℕ) :
    RangeMeans steps n ∧ ElseMeans steps n := by
  induction n with
  | zero => exact ⟨fun _ _ _ _ _ hn ↦ by omega, fun _ _ _ _ _ hn ↦ by omega⟩
  | succ n ih => exact ⟨rangeMeans_succ ih.1 ih.2, elseMeans_succ ih.1 ih.2⟩

theorem means_renderPumlSteps (b : Block) :
    Means ((renderPumlSteps b.steps).flatMap Line.code) (b.meaning Event.label) := by
  have hmeans := (rangeMeans_and_elseMeans b.steps (2 * b.steps.length + 1)).1 b [] 0 0 (by simp)
    (by omega)
  rwa [Nat.zero_add] at hmeans

end Lines

/-! ## Termination -/

section Termination

variable {steps : List ProjectionStep} {index : ℕ}

theorem slice_eq {xs post : List ProjectionStep} {stop : ℕ} (h : steps.drop index = xs ++ post)
    (hstop : stop = index + xs.length) : slice steps index stop = xs := by
  rw [slice, h, hstop, Nat.add_sub_cancel_left, take_left]

/-- If the last construct of a block is found to end, nothing goes on after the block. `D` is what
comes before it. -/
theorem halts_of_sequenceTerminatesFrom {n : ℕ} {b : Block} {lastTerminates : Bool}
    {D : Meaning Event} (hD : lastTerminates = true → Halts D) (hsteps : steps.drop index = b.steps)
    (hn : b.steps.length < n)
    (h : sequenceTerminatesFrom n steps index lastTerminates = true) :
    Halts (seq D (b.meaning id)) := by
  have hopen : ∀ D : Meaning Event, false = true → Halts D := fun _ hfalse ↦ nomatch hfalse
  induction n generalizing steps index b lastTerminates D with
  | zero => omega
  | succ n ih =>
    rw [sequenceTerminatesFrom] at h
    cases b with
    | done =>
      have hnone : steps[index]? = none := by rw [← List.head?_drop, hsteps]; rfl
      rw [hnone] at h
      exact (hD h).seq_left _
    | action diagram tree category rest =>
      rw [getElem?_of_drop hsteps] at h
      have hrest : sequenceTerminatesFrom n steps (index + 1) false = true := h
      rw [Block.meaning, ← Meaning.seq_assoc]
      exact ih (hopen _) (drop_succ_of_drop hsteps) (Nat.lt_of_succ_lt_succ hn) hrest
    | methodReturn value rest =>
      rw [getElem?_of_drop hsteps] at h
      have hrest : sequenceTerminatesFrom n steps (index + 1) true = true := h
      have hhalt : Halts (halt : Meaning Event) := fun _ ↦ rfl
      rw [Block.meaning, ← Meaning.seq_assoc]
      exact ih (fun _ ↦ .seq_right _ (.seq_right _ hhalt)) (drop_succ_of_drop hsteps)
        (Nat.lt_of_succ_lt_succ hn) hrest
    | gap reason rest =>
      rw [getElem?_of_drop hsteps] at h
      have hrest : sequenceTerminatesFrom n steps (index + 1) false = true := h
      rw [Block.meaning]
      exact ih (hopen D) (drop_succ_of_drop hsteps) (Nat.lt_of_succ_lt_succ hn) hrest
    | whenOnly c yes rest =>
      have hafter := drop_succ_of_drop (drop_add_of_drop (drop_succ_of_drop hsteps) rfl)
      simp only [getElem?_of_drop hsteps, ifRegions_whenOnly hsteps] at h
      rw [Block.meaning, ← Meaning.seq_assoc]
      refine ih (hopen _) hafter ?_ h
      simp only [Block.steps, length_cons, length_append] at hn
      omega
    | whenElse c yes no rest =>
      have hyes := drop_succ_of_drop hsteps
      have hno := drop_succ_of_drop (drop_add_of_drop hyes rfl)
      have hafter := drop_succ_of_drop (drop_add_of_drop hno rfl)
      simp only [Block.steps, length_cons, length_append] at hn
      simp only [getElem?_of_drop hsteps, ifRegions_whenElse hsteps, slice_eq hyes rfl,
        slice_eq hno rfl] at h
      rw [Block.meaning, ← Meaning.seq_assoc]
      refine ih (fun hboth ↦ .seq_right _ ?_) hafter (by omega) h
      obtain ⟨hfirst, hsecond⟩ := Bool.and_eq_true_iff.mp hboth
      exact .choose _ (ih (hopen skip) rfl (by omega) hfirst)
        (ih (hopen skip) rfl (by omega) hsecond)

end Termination

/-! ## The diagram -/

theorem gap_of_not_causal {steps : List ProjectionStep} (h : causal steps = false) :
    ∀ step ∈ steps, ∃ reason, step = .gap reason := by
  intro step hstep
  have hgap := any_eq_false.mp h step hstep
  cases step with
  | gap reason => exact ⟨reason, rfl⟩
  | _ => simp at hgap

/-- Steps without a claim execute nothing. -/
theorem runSteps_of_not_causal {steps : List ProjectionStep} (h : causal steps = false)
    (outcomes : ℕ → Bool) : runSteps steps outcomes = ⟨[], false⟩ := by
  have hcode : steps.flatMap ProjectionStep.code = [] := by
    refine flatMap_eq_nil_iff.mpr fun step hstep ↦ ?_
    obtain ⟨reason, rfl⟩ := gap_of_not_causal h step hstep
    rfl
  rw [runSteps, hcode]
  rfl

/-- A diagram without lines is one of steps without a claim. -/
theorem not_causal_of_renderValidated {validated : ValidatedProjection}
    (h : ∀ lines, renderValidated validated ≠ some (.activity lines)) :
    causal validated.projection.steps = false := by
  by_contra hcausal
  rw [Bool.not_eq_false] at hcausal
  have hne : validated.projection.steps ≠ [] := by
    intro hnil
    rw [hnil] at hcausal
    cases hcausal
  apply h
  rw [renderValidated, if_neg hne, if_pos hcausal]

namespace Block

variable (b : Block) (outcomes : ℕ → Bool)

theorem runLines_steps : runLines (renderPumlSteps b.steps) outcomes =
    (runSteps b.steps outcomes).map Event.label := by
  rw [runLines, runSteps, (means_renderPumlSteps b).exec_eq, b.means_steps.exec_eq,
    b.meaning_eq_map Event.label]
  rfl

theorem runLines_steps_stop : runLines (renderPumlSteps b.steps ++ [.stop]) outcomes =
    ⟨((runSteps b.steps outcomes).map Event.label).events, true⟩ := by
  have hstop : Means ((renderPumlSteps b.steps ++ [Line.stop]).flatMap Line.code)
      (seq (b.meaning Event.label) halt) := by
    rw [flatMap_append]
    exact (means_renderPumlSteps b).append .halt
  rw [runLines, hstop.exec_eq, seq_halt, b.meaning_eq_map Event.label, runSteps,
    b.means_steps.exec_eq]
  rfl

variable {b}

theorem halted_of_sequenceTerminates (h : sequenceTerminates b.steps = true) :
    (runLines (renderPumlSteps b.steps) outcomes).halted = true := by
  have hopen : false = true → Halts (skip : Meaning Event) := nofun
  have hblock : Halts (seq skip (b.meaning id)) :=
    halts_of_sequenceTerminatesFrom hopen rfl (Nat.lt_succ_self _) h
  rw [b.runLines_steps, runSteps, b.means_steps.exec_eq, Trace.map, ← skip_seq (b.meaning id),
    hblock outcomes]
  rfl

end Block

/-- The lines of checked steps record what the steps do, for all outcomes of the conditions. The
stop at the end of a diagram is only left out where every path has stopped before, so that with it
every path ends in a stop. There are no lines for steps that make no claim, and these execute
nothing. -/
theorem activity_preserved (projection : Projection) :
    let validated := validateProjection projection
    let steps := validated.projection.steps
    (∀ outcomes, runLines (renderPumlSteps steps) outcomes =
      (runSteps steps outcomes).map Event.label) ∧
    (sequenceTerminates steps = true → ∀ outcomes,
      (runLines (renderPumlSteps steps) outcomes).halted = true) ∧
    (∀ lines, renderValidated validated = some (.activity lines) → ∀ outcomes,
      runLines lines outcomes = ⟨((runSteps steps outcomes).map Event.label).events, true⟩) ∧
    ((∀ lines, renderValidated validated ≠ some (.activity lines)) →
      (∀ step ∈ steps, ∃ reason, step = .gap reason) ∧
        ∀ outcomes, runSteps steps outcomes = ⟨[], false⟩) := by
  intro validated steps
  obtain ⟨b, hb⟩ : ∃ b : Block, steps = b.steps := exists_block_validateProjection projection
  have hsame : ∀ outcomes, runLines (renderPumlSteps steps) outcomes =
      (runSteps steps outcomes).map Event.label := hb ▸ b.runLines_steps
  have hhalts : sequenceTerminates steps = true → ∀ outcomes,
      (runLines (renderPumlSteps steps) outcomes).halted = true := by
    intro hterminates outcomes
    rw [hb] at hterminates ⊢
    exact Block.halted_of_sequenceTerminates outcomes hterminates
  refine ⟨hsame, hhalts, fun lines hrender outcomes ↦ ?_, fun hrender ↦ ?_⟩
  · rw [renderValidated] at hrender
    split_ifs at hrender with hnone hcausal hterminates
    · -- every path has stopped already
      obtain rfl := Diagram.activity.inj (Option.some.inj hrender)
      rw [append_nil, ← hsame outcomes]
      exact Trace.ext rfl (hhalts hterminates outcomes)
    · -- some path may go on, and the last line stops it
      obtain rfl := Diagram.activity.inj (Option.some.inj hrender)
      rw [hb]
      exact hb ▸ b.runLines_steps_stop outcomes
    · cases hrender
  · have hgaps := not_causal_of_renderValidated hrender
    exact ⟨gap_of_not_causal hgaps, runSteps_of_not_causal hgaps⟩

/-- Where there is only a boundary of the evidence, nothing stops and no stop is shown. -/
theorem activity_without_stop : ∃ projection note,
    renderValidated (validateProjection projection) = some (.evidence note) ∧
      ∀ outcomes, (runSteps (validateProjection projection).projection.steps outcomes).halted =
        false :=
  ⟨⟨[], ["X"], true, none, none⟩, "X", by decide, fun _ ↦ rfl⟩

end Codeclew.ProcessFlow
