import Codeclew.Program

/-!
# Writes that may be the last

A machine has a disk and does some number of writes before it stops. A write is atomic: it is done,
or the machine has stopped before it. A program that meets the end of its machine fails there, so
what it leaves is a disk that a crash between two writes would leave, and the runs of a program on
machines with any number of writes are its runs with a crash at any place.
-/

namespace Codeclew

/-- A disk, and how many writes are still done. -/
structure Machine (σ : Type) where
  disk : σ
  writes : ℕ

namespace Machine

open Program

variable {σ ε α : Type}

/-- Change the disk in one step. -/
def write (f : σ → σ) (stopped : ε) : Program (Machine σ) ε Unit := fun machine ↦
  match machine.writes with
  | 0 => (.error stopped, machine)
  | writes + 1 => (.ok (), ⟨f machine.disk, writes⟩)

/-- Look at the disk. -/
def read (f : σ → Except ε α) : Program (Machine σ) ε α := inspect fun machine ↦ f machine.disk

theorem read_bind {β : Type} (f : σ → Except ε α) (g : α → Program (Machine σ) ε β)
    (machine : Machine σ) :
    (read f >>= g) machine = (lift (f machine.disk) >>= g) machine := rfl

/-- Wherever a program ends, on a machine with the disk `d`, its disk is in `R`. -/
def Leaves (d : σ) (m : Program (Machine σ) ε α) (R : σ → Prop) : Prop :=
  ∀ machine, machine.disk = d → R (m machine).2.disk

variable {β : Type} {d : σ} {R : σ → Prop}

namespace Leaves

theorem pure (hd : R d) (a : α) : Leaves d (pure a : Program (Machine σ) ε α) R := by
  rintro machine rfl
  exact hd

theorem fail (hd : R d) (e : ε) : Leaves d (fail e : Program (Machine σ) ε α) R := by
  rintro machine rfl
  exact hd

variable {g : Unit → Program (Machine σ) ε β}

theorem require_bind {p : Prop} [Decidable p] {e : ε} (hd : R d) (h : p → Leaves d (g ()) R) :
    Leaves d (require p e >>= g) R := by
  rintro machine rfl
  rw [require]
  split_ifs with hp
  · exact h hp machine rfl
  · exact hd

theorem lift_bind {x : Except ε α} {g : α → Program (Machine σ) ε β} (hd : R d)
    (h : ∀ a, x = .ok a → Leaves d (g a) R) : Leaves d (lift x >>= g) R := by
  rintro machine rfl
  rcases x with e | a
  · exact hd
  · exact h a rfl machine rfl

theorem read_bind {f : σ → Except ε α} {g : α → Program (Machine σ) ε β} (hd : R d)
    (h : ∀ a, f d = .ok a → Leaves d (g a) R) : Leaves d (read f >>= g) R := by
  rintro machine rfl
  rw [Machine.read_bind]
  exact lift_bind hd h machine rfl

theorem write_bind {f : σ → σ} {stopped : ε} (hd : R d) (h : Leaves (f d) (g ()) R) :
    Leaves d (write f stopped >>= g) R := by
  rintro ⟨disk, _ | writes⟩ rfl
  · exact hd
  · exact h ⟨f disk, writes⟩ rfl

theorem write {f : σ → σ} {stopped : ε} (hd : R d) (h : R (f d)) :
    Leaves d (Machine.write f stopped) R := by
  rintro ⟨disk, _ | writes⟩ rfl
  · exact hd
  · exact h

variable {m : Program (Machine σ) ε α}

theorem bind_pure (h : Leaves d m R) (f : α → β) :
    Leaves d (m >>= fun a ↦ Pure.pure (f a)) R := by
  intro machine hmachine
  have hm := h machine hmachine
  rw [bind_apply]
  rcases hend : m machine with ⟨_ | _, machine'⟩ <;> rw [hend] at hm <;> exact hm

theorem discard (h : Leaves d m R) : Leaves d (discard m) R := by
  have hdiscard : (Functor.discard m : Program (Machine σ) ε PUnit) = m >>= fun _ ↦
    Pure.pure ⟨⟩ := rfl
  rw [hdiscard]
  exact h.bind_pure fun _ ↦ PUnit.unit

end Leaves

/-! ## Runs that succeed, and runs that do nothing -/

/-- On a machine with the disk `d` a program leaves a disk in `R`, wherever it ends; where `n`
writes are still done, it returns something in `Q`. -/
def Finishes (d : σ) (n : ℕ) (m : Program (Machine σ) ε α) (R : σ → Prop) (Q : α → Prop) : Prop :=
  ∀ machine, machine.disk = d →
    R (m machine).2.disk ∧ (n ≤ machine.writes → ∃ a, (m machine).1 = .ok a ∧ Q a)

namespace Finishes

variable {n : ℕ} {Q : β → Prop}

theorem pure {b : β} (hd : R d) (hb : Q b) :
    Finishes d n (Pure.pure b : Program (Machine σ) ε β) R Q := by
  rintro machine rfl
  exact ⟨hd, fun _ ↦ ⟨b, rfl, hb⟩⟩

theorem read_bind {f : σ → Except ε α} {a : α} {g : α → Program (Machine σ) ε β} (hf : f d = .ok a)
    (h : Finishes d n (g a) R Q) : Finishes d n (read f >>= g) R Q := by
  rintro machine rfl
  rw [Machine.read_bind, hf]
  exact h machine rfl

variable {g : Unit → Program (Machine σ) ε β}

theorem require_bind {p : Prop} [Decidable p] {e : ε} (hp : p) (h : Finishes d n (g ()) R Q) :
    Finishes d n (require p e >>= g) R Q := by
  rw [require, if_pos hp]
  exact h

theorem write_bind {f : σ → σ} {stopped : ε} (hd : R d) (h : Finishes (f d) n (g ()) R Q) :
    Finishes d (n + 1) (Machine.write f stopped >>= g) R Q := by
  rintro ⟨disk, _ | writes⟩ rfl
  · exact ⟨hd, nofun⟩
  · obtain ⟨hdisk, hreturns⟩ := h ⟨f disk, writes⟩ rfl
    exact ⟨hdisk, fun hn ↦ hreturns (Nat.le_of_succ_le_succ hn)⟩

end Finishes

/-- A program fails and has written nothing. -/
def Refuses (machine : Machine σ) (m : Program (Machine σ) ε α) : Prop :=
  ∃ e, m machine = (.error e, machine)

namespace Refuses

variable {machine : Machine σ}

theorem read_bind {f : σ → Except ε α} {g : α → Program (Machine σ) ε β}
    (h : ∀ a, f machine.disk = .ok a → Refuses machine (g a)) : Refuses machine (read f >>= g) := by
  rw [Refuses, Machine.read_bind]
  rcases hf : f machine.disk with e | a
  · exact ⟨e, rfl⟩
  · exact h a hf

theorem require_bind {p : Prop} [Decidable p] {e : ε} {g : Unit → Program (Machine σ) ε β}
    (h : p → Refuses machine (g ())) : Refuses machine (require p e >>= g) := by
  rw [require]
  split_ifs with hp
  · exact h hp
  · exact ⟨e, rfl⟩

end Refuses

/-- Writes one after the other: all of them, or those that the machine still does. -/
theorem each_write (f : β → σ → σ) (stopped : ε) (xs : List β) (disk : σ) (writes : ℕ) :
    each xs (fun x ↦ write (f x) stopped) ⟨disk, writes⟩ =
      if xs.length ≤ writes then
        (.ok (), ⟨xs.foldl (fun disk x ↦ f x disk) disk, writes - xs.length⟩)
      else (.error stopped, ⟨(xs.take writes).foldl (fun disk x ↦ f x disk) disk, 0⟩) := by
  induction xs generalizing disk writes with
  | nil => rfl
  | cons x xs ih =>
    rw [each_cons]
    cases writes with
    | zero => rfl
    | succ writes =>
      have hfirst : write (f x) stopped ⟨disk, writes + 1⟩ = (.ok (), ⟨f x disk, writes⟩) := rfl
      rw [bind_of_ok hfirst, ih]
      simp only [List.length_cons, Nat.add_le_add_iff_right, Nat.add_sub_add_right,
        List.take_succ_cons, List.foldl_cons]

end Machine

end Codeclew
