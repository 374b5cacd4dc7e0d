import Mathlib

/-!
# Conditionals in flat programs

A flat program has the parts of a conditional one after the other: the test that opens it, the
instructions for the case that it holds, further tests or an alternative, and the instruction that
closes it. It is executed from left to right. Where a test fails, the machine looks for the next
test or the alternative of the same conditional, and where a branch is done, for its end; how deep
it is in conditionals it passes over is counted.

What a program means is best said without its tests and ends: for the outcomes of the tests to come,
what it records, and the outcomes that are left where it does not halt. `Means` is closed under
composition, and `Otherwise` is the same for what stands between the first branch of a conditional
and its end.
-/

namespace Codeclew.FlatControl

open List

variable {ε δ : Type}

inductive Instr (ε : Type) where
  | act (event : ε)
  | test (event : ε)
  | retest (event : ε)
  | alternative
  | close
  | halt
  deriving DecidableEq, Repr

/-- What was recorded, and whether the machine has halted. -/
@[ext] structure Trace (ε : Type) where
  events : List ε
  halted : Bool
  deriving DecidableEq, Repr

def Trace.prepend (events : List ε) (t : Trace ε) : Trace ε := ⟨events ++ t.events, t.halted⟩

def Trace.map (f : ε → δ) (t : Trace ε) : Trace δ := ⟨t.events.map f, t.halted⟩

/-- What the machine is doing: executing, or passing over instructions until the next branch or the
end of a conditional, `depth` further conditionals inside it. -/
inductive Mode where
  | running
  | seeking (depth : ℕ)
  | leaving (depth : ℕ)

/-- The mode after a test. -/
def Mode.after (outcome : Bool) : Mode := if outcome then .running else .seeking 0

/-- Execute a program, with the outcomes of the tests to come. -/
def exec : Mode → List (Instr ε) → (ℕ → Bool) → Trace ε
  | _, [], _ => ⟨[], false⟩
  | .running, i :: p, o =>
    match i with
    | .act event => (exec .running p o).prepend [event]
    | .test event => (exec (.after (o 0)) p fun n ↦ o (n + 1)).prepend [event]
    | .retest _ => exec (.leaving 0) p o
    | .alternative => exec (.leaving 0) p o
    | .close => exec .running p o
    | .halt => ⟨[], true⟩
  | .seeking depth, i :: p, o =>
    match i, depth with
    | .test _, depth => exec (.seeking (depth + 1)) p o
    | .retest event, 0 => (exec (.after (o 0)) p fun n ↦ o (n + 1)).prepend [event]
    | .alternative, 0 => exec .running p o
    | .close, 0 => exec .running p o
    | .close, depth + 1 => exec (.seeking depth) p o
    | _, depth => exec (.seeking depth) p o
  | .leaving depth, i :: p, o =>
    match i, depth with
    | .test _, depth => exec (.leaving (depth + 1)) p o
    | .close, 0 => exec .running p o
    | .close, depth + 1 => exec (.leaving depth) p o
    | _, depth => exec (.leaving depth) p o

/-! ## Meanings -/

/-- For the outcomes to come, what is recorded and the outcomes left where the machine goes on. -/
abbrev Meaning (ε : Type) := (ℕ → Bool) → List ε × Option (ℕ → Bool)

namespace Meaning

def skip : Meaning ε := fun o ↦ ([], some o)

def act (event : ε) : Meaning ε := fun o ↦ ([event], some o)

def halt : Meaning ε := fun _ ↦ ([], none)

def seq (D E : Meaning ε) : Meaning ε := fun o ↦
  match (D o).2 with
  | none => D o
  | some rest => ((D o).1 ++ (E rest).1, (E rest).2)

def choose (event : ε) (D E : Meaning ε) : Meaning ε := fun o ↦
  let rest := fun n ↦ o (n + 1)
  let branch := if o 0 then D rest else E rest
  (event :: branch.1, branch.2)

section

variable (D : Meaning ε)

theorem seq_skip : seq D skip = D := by
  funext o
  rcases hD : D o with ⟨events, _ | rest⟩ <;> simp [seq, skip, hD]

theorem seq_halt (o : ℕ → Bool) : seq D halt o = ((D o).1, none) := by
  rcases hD : D o with ⟨events, _ | rest⟩ <;> simp [seq, halt, hD]

theorem skip_seq : seq skip D = D := rfl

theorem seq_assoc (E F : Meaning ε) : seq (seq D E) F = seq D (seq E F) := by
  funext o
  rcases hD : D o with ⟨events, _ | rest⟩
  · simp [seq, hD]
  · rcases hE : E rest with ⟨more, _ | rest'⟩ <;> simp [seq, hD, hE]

/-- The trace of a meaning, followed by a program. -/
def andThen (result : List ε × Option (ℕ → Bool)) (q : List (Instr ε)) : Trace ε :=
  match result.2 with
  | none => ⟨result.1, true⟩
  | some rest => (exec .running q rest).prepend result.1

/-- Nothing goes on after it. -/
def Halts (D : Meaning ε) : Prop := ∀ o, (D o).2 = none

theorem Halts.seq_right {E : Meaning ε} (h : Halts E) : Halts (seq D E) := by
  intro o
  rw [seq]
  split
  · assumption
  · exact h _

end

theorem Halts.seq_left {D : Meaning ε} (h : Halts D) (E : Meaning ε) : Halts (seq D E) := by
  intro o
  rw [seq, h o]
  exact h o

theorem Halts.choose {D E : Meaning ε} (event : ε) (hD : Halts D) (hE : Halts E) :
    Halts (choose event D E) := by
  intro o
  rw [Meaning.choose]
  cases o 0
  · exact hE _
  · exact hD _

theorem andThen_seq (D E : Meaning ε) (o : ℕ → Bool) (q : List (Instr ε)) :
    andThen (seq D E o) q = match (D o).2 with
      | none => ⟨(D o).1, true⟩
      | some rest => (andThen (E rest) q).prepend (D o).1 := by
  rcases hD : D o with ⟨events, _ | rest⟩
  · simp [seq, andThen, hD]
  · rcases hE : E rest with ⟨more, _ | rest'⟩ <;> simp [seq, andThen, hD, hE, Trace.prepend]

theorem andThen_choose (event : ε) (D E : Meaning ε) (o : ℕ → Bool) (q : List (Instr ε)) :
    andThen (choose event D E o) q =
      (andThen (if o 0 then D fun n ↦ o (n + 1) else E fun n ↦ o (n + 1)) q).prepend [event] := by
  rcases hbranch : (if o 0 then D fun n ↦ o (n + 1) else E fun n ↦ o (n + 1)) with
    ⟨events, _ | rest⟩ <;> simp [choose, andThen, hbranch, Trace.prepend]

end Meaning

open Meaning

/-- A program has a meaning: executed it does what the meaning says, and it is passed over as a
whole. -/
structure Means (p : List (Instr ε)) (D : Meaning ε) : Prop where
  running : ∀ q o, exec .running (p ++ q) o = andThen (D o) q
  seeking : ∀ d q o, exec (.seeking d) (p ++ q) o = exec (.seeking d) q o
  leaving : ∀ d q o, exec (.leaving d) (p ++ q) o = exec (.leaving d) q o

/-- The further branches of a conditional have a meaning where the tests before have failed. -/
structure Otherwise (p : List (Instr ε)) (D : Meaning ε) : Prop where
  failed : ∀ q o, exec (.seeking 0) (p ++ .close :: q) o = andThen (D o) q
  done : ∀ q o, exec .running (p ++ .close :: q) o = exec .running q o
  seeking : ∀ d q o, exec (.seeking (d + 1)) (p ++ q) o = exec (.seeking (d + 1)) q o
  leaving : ∀ d q o, exec (.leaving d) (p ++ q) o = exec (.leaving d) q o

namespace Means

variable {p q : List (Instr ε)} {D E : Meaning ε}

theorem nil : Means ([] : List (Instr ε)) skip :=
  ⟨fun _ _ ↦ rfl, fun _ _ _ ↦ rfl, fun _ _ _ ↦ rfl⟩

theorem act (event : ε) : Means [.act event] (act event) :=
  ⟨fun _ _ ↦ rfl, fun d _ _ ↦ by cases d <;> rfl, fun d _ _ ↦ by cases d <;> rfl⟩

theorem halt : Means ([.halt] : List (Instr ε)) halt :=
  ⟨fun _ _ ↦ rfl, fun d _ _ ↦ by cases d <;> rfl, fun d _ _ ↦ by cases d <;> rfl⟩

theorem append (hp : Means p D) (hq : Means q E) : Means (p ++ q) (seq D E) where
  running r o := by
    rw [append_assoc, hp.running, andThen_seq, andThen]
    split <;> simp only [hq.running]
  seeking d r o := by rw [append_assoc, hp.seeking, hq.seeking]
  leaving d r o := by rw [append_assoc, hp.leaving, hq.leaving]

theorem conditional_append (event : ε) (p q r : List (Instr ε)) :
    .test event :: (p ++ (q ++ [.close])) ++ r = .test event :: (p ++ (q ++ .close :: r)) := by
  simp

/-- A conditional. -/
theorem conditional (event : ε) (hp : Means p D) (hq : Otherwise q E) :
    Means (.test event :: (p ++ (q ++ [.close]))) (choose event D E) where
  running r o := by
    rw [conditional_append, andThen_choose]
    change Trace.prepend [event] (exec (.after (o 0)) _ _) = _
    cases o 0
    · exact congrArg _ ((hp.seeking 0 _ _).trans (hq.failed r _))
    · refine congrArg _ ((hp.running _ _).trans ?_)
      rw [andThen]
      simp only [hq.done]
      rfl
  seeking d r o := by
    rw [conditional_append]
    change exec (.seeking (d + 1)) _ o = _
    rw [hp.seeking, hq.seeking]
    rfl
  leaving d r o := by
    rw [conditional_append]
    change exec (.leaving (d + 1)) _ o = _
    rw [hp.leaving, hq.leaving]
    rfl

/-- A program by itself. -/
theorem exec_eq (h : Means p D) (o : ℕ → Bool) :
    exec .running p o = ⟨(D o).1, (D o).2.isNone⟩ := by
  have hrun := h.running [] o
  rw [append_nil] at hrun
  rw [hrun, andThen]
  rcases D o with ⟨events, _ | rest⟩
  · rfl
  · simp [exec, Trace.prepend]

end Means

namespace Otherwise

variable {p q : List (Instr ε)} {D E : Meaning ε}

theorem nil : Otherwise ([] : List (Instr ε)) skip where
  failed _ _ := rfl
  done _ _ := rfl
  seeking _ _ _ := rfl
  leaving _ _ _ := rfl

theorem alternative (h : Means p D) : Otherwise (.alternative :: p) D where
  failed q o := by
    refine (h.running (.close :: q) o).trans ?_
    rw [andThen, andThen]
    rfl
  done q o := h.leaving 0 (.close :: q) o
  seeking d q o := h.seeking (d + 1) q o
  leaving d q o := by
    cases d <;> exact h.leaving _ q o

theorem retest (event : ε) (hp : Means p D) (hq : Otherwise q E) :
    Otherwise (.retest event :: (p ++ q)) (choose event D E) where
  failed r o := by
    rw [cons_append, append_assoc, andThen_choose]
    change Trace.prepend [event] (exec (.after (o 0)) _ _) = _
    cases o 0
    · exact congrArg _ ((hp.seeking 0 _ _).trans (hq.failed r _))
    · refine congrArg _ ((hp.running _ _).trans ?_)
      rw [andThen]
      simp only [hq.done]
      rfl
  done r o := by
    rw [cons_append, append_assoc]
    exact (hp.leaving 0 _ o).trans (hq.leaving 0 _ o)
  seeking d r o := by
    rw [cons_append, append_assoc]
    exact (hp.seeking (d + 1) _ o).trans (hq.seeking d _ o)
  leaving d r o := by
    rw [cons_append, append_assoc]
    cases d <;> exact (hp.leaving _ _ o).trans (hq.leaving _ _ o)

end Otherwise

end Codeclew.FlatControl
