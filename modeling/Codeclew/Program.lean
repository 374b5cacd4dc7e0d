import Mathlib

/-!
# Fallible programs over a state

A `Program σ ε α` reads and writes a state of type `σ`, and returns an `α` or fails with an `ε`.
A failed program keeps what it has written: nothing is rolled back, so what a failure leaves behind
is part of a program's meaning.
-/

namespace Codeclew

open List

/-! ## Results -/

section Results

variable {ε α β : Type}

@[simp] theorem ok_bind (a : α) (f : α → Except ε β) : (Except.ok a >>= f) = f a := rfl

@[simp] theorem error_bind (e : ε) (f : α → Except ε β) :
    ((Except.error e : Except ε α) >>= f) = .error e := rfl

variable {f : α → Except ε β}

/-- A computation returned exactly when both of its parts did. -/
theorem bind_eq_ok_iff {x : Except ε α} {b : β} :
    x >>= f = .ok b ↔ ∃ a, x = .ok a ∧ f a = .ok b := by
  cases x <;> simp

variable {xs : List α}

/-- A check of all elements checks each of them. -/
theorem eq_ok_of_forM_eq_ok {f : α → Except ε Unit} (h : xs.forM f = .ok ()) (x : α) (hx : x ∈ xs) :
    f x = .ok () := by
  induction xs with
  | nil => cases hx
  | cons y ys ih =>
    obtain ⟨_, hy, hys⟩ := bind_eq_ok_iff.mp h
    rcases mem_cons.mp hx with rfl | hmem
    · exact hy
    · exact ih hys hmem

theorem forM_eq_ok {f : α → Except ε Unit} (h : ∀ x ∈ xs, f x = .ok ()) :
    xs.forM f = .ok () := by
  induction xs with
  | nil => rfl
  | cons x xs ih =>
    exact bind_eq_ok_iff.mpr ⟨(), h x mem_cons_self,
      ih fun y hy ↦ h y (mem_cons_of_mem _ hy)⟩

/-- Mapping a fallible function over a list returned exactly when it did so for each element. -/
theorem mapM_eq_ok_iff {ys : List β} :
    xs.mapM f = .ok ys ↔ List.Forall₂ (fun x y ↦ f x = .ok y) xs ys := by
  induction xs generalizing ys with
  | nil =>
    rw [mapM_nil, forall₂_nil_left_iff]
    exact ⟨fun h ↦ (Except.ok.inj h).symm, fun h ↦ h ▸ rfl⟩
  | cons x xs ih =>
    simp only [mapM_cons, bind_eq_ok_iff, forall₂_cons_left_iff, ih]
    constructor
    · rintro ⟨y, hy, zs, hzs, h⟩
      exact ⟨y, zs, hy, hzs, (Except.ok.inj h).symm⟩
    · rintro ⟨y, zs, hy, hzs, rfl⟩
      exact ⟨y, hy, zs, hzs, rfl⟩

theorem exists_of_mem_mapM {ys : List β} (h : xs.mapM f = .ok ys) {y : β} (hy : y ∈ ys) :
    ∃ x ∈ xs, f x = .ok y := by
  induction mapM_eq_ok_iff.mp h with
  | nil => cases hy
  | cons hx hxs ih =>
    rcases mem_cons.mp hy with rfl | hy
    · exact ⟨_, mem_cons_self, hx⟩
    · obtain ⟨x, hmem, hx⟩ := ih (mapM_eq_ok_iff.mpr hxs) hy
      exact ⟨x, mem_cons_of_mem _ hmem, hx⟩

/-- An invariant of the steps of a loop holds at its end. -/
theorem of_foldlM_eq_ok {f : β → α → Except ε β} {P : β → Prop} {b b' : β}
    (hstep : ∀ b a b', P b → f b a = .ok b' → P b') (hb : P b) (h : xs.foldlM f b = .ok b') :
    P b' := by
  induction xs generalizing b with
  | nil => exact Except.ok.inj h ▸ hb
  | cons x xs ih =>
    rw [foldlM_cons] at h
    obtain ⟨c, hc, h⟩ := bind_eq_ok_iff.mp h
    exact ih (hstep b x c hb hc) h

theorem exists_bind {x : Except ε α} {f : α → Except ε β} (hx : ∃ a, x = .ok a)
    (hf : ∀ a, ∃ b, f a = .ok b) : ∃ b, x >>= f = .ok b := by
  obtain ⟨a, rfl⟩ := hx
  exact hf a

theorem check_bind_eq_ok_iff {x : Except ε Unit} {f : Unit → Except ε β} {b : β} :
    x >>= f = .ok b ↔ x = .ok () ∧ f () = .ok b := by
  rw [bind_eq_ok_iff]
  exact ⟨fun ⟨⟨⟩, hx, hf⟩ ↦ ⟨hx, hf⟩, fun ⟨hx, hf⟩ ↦ ⟨(), hx, hf⟩⟩

/-- Fail unless `p`. -/
def ensure (p : Prop) [Decidable p] (e : ε) : Except ε Unit := if p then .ok () else .error e

theorem ensure_eq_ok_iff {p : Prop} [Decidable p] {e : ε} : ensure p e = .ok () ↔ p := by
  by_cases hp : p <;> simp [ensure, hp]

theorem ensure_bind_eq_ok_iff {p : Prop} [Decidable p] {e : ε} {f : Unit → Except ε β} {b : β} :
    ensure p e >>= f = .ok b ↔ p ∧ f () = .ok b := by
  by_cases hp : p <;> simp [ensure, hp]

/-- What a value that was returned satisfies can be tested. -/
instance decidableExistsOk (x : Except ε α) (P : α → Prop) [DecidablePred P] :
    Decidable (∃ a, x = .ok a ∧ P a) :=
  match x with
  | .ok a => decidable_of_iff (P a) (by simp)
  | .error _ => isFalse (by simp)

instance decidableExistsOkState {σ : Type} (p : Except ε α × σ) (a : α) [DecidableEq α]
    (P : σ → Prop) [DecidablePred P] :
    Decidable (∃ s, p = (.ok a, s) ∧ P s) :=
  match p with
  | (.ok b, s) => decidable_of_iff (b = a ∧ P s) (by simp)
  | (.error _, _) => isFalse (by simp)

end Results

/-! ## Programs -/

/-- A program: from a state to a result or a failure, and the state it leaves in either case. -/
def Program (σ ε α : Type) := σ → Except ε α × σ

namespace Program

variable {σ τ ε α β : Type}

instance : Monad (Program σ ε) where
  pure a := fun s ↦ (.ok a, s)
  bind m f := fun s ↦
    match m s with
    | (.ok a, s') => f a s'
    | (.error e, s') => (.error e, s')

def fail (e : ε) : Program σ ε α := fun s ↦ (.error e, s)

def get : Program σ ε σ := fun s ↦ (.ok s, s)

def modify (f : σ → σ) : Program σ ε Unit := fun s ↦ (.ok (), f s)

/-- A result computed without the state. -/
def lift (x : Except ε α) : Program σ ε α := fun s ↦ (x, s)

/-- A result computed from the state. -/
def inspect (f : σ → Except ε α) : Program σ ε α := fun s ↦ (f s, s)

/-- Go on where `p` holds, and fail otherwise. -/
def require (p : Prop) [Decidable p] (e : ε) : Program σ ε Unit := if p then pure () else fail e

/-- Run a program where `p` holds. -/
def whenever (p : Prop) [Decidable p] (m : Program σ ε Unit) : Program σ ε Unit :=
  if p then m else pure ()

/-- Run a program and go on whatever its outcome. -/
def ignore (m : Program σ ε α) : Program σ ε Unit := fun s ↦ (.ok (), (m s).2)

/-- Give failures another error. -/
def mapError (f : ε → ε) (m : Program σ ε α) : Program σ ε α := fun s ↦
  ((m s).1.mapError f, (m s).2)

/-- A program over a part of the state. -/
def zoom (part : σ → τ) (put : τ → σ → σ) (m : Program τ ε α) : Program σ ε α := fun s ↦
  match m (part s) with
  | (x, t) => (x, put t s)

/-- Run a program for each element of a list, from the first to the last. -/
def each (xs : List β) (f : β → Program σ ε Unit) : Program σ ε Unit :=
  match xs with
  | [] => pure ()
  | x :: xs => f x >>= fun _ ↦ each xs f

/-- Run a program for each element of a list and keep what it returns. -/
def collect (xs : List β) (f : β → Program σ ε α) : Program σ ε (List α) :=
  match xs with
  | [] => pure []
  | x :: xs => f x >>= fun a ↦ collect xs f >>= fun as ↦ pure (a :: as)

/-! ## Running -/

@[simp] theorem pure_apply (a : α) (s : σ) : (pure a : Program σ ε α) s = (.ok a, s) := rfl

theorem bind_apply (m : Program σ ε α) (f : α → Program σ ε β) (s : σ) :
    (m >>= f) s = match m s with
      | (.ok a, s') => f a s'
      | (.error e, s') => (.error e, s') := rfl

variable {m : Program σ ε α}

theorem bind_of_ok {s s' : σ} {a : α} (h : m s = (.ok a, s')) (f : α → Program σ ε β) :
    (m >>= f) s = f a s' := by
  rw [bind_apply, h]

variable {e : ε}

theorem bind_of_error {s s' : σ} (h : m s = (.error e, s')) (f : α → Program σ ε β) :
    (m >>= f) s = (.error e, s') := by
  rw [bind_apply, h]

instance : LawfulMonad (Program σ ε) := LawfulMonad.mk' _
  (fun m ↦ funext fun s ↦ by
    change (m >>= fun a ↦ pure a) s = m s
    rw [bind_apply]
    rcases m s with ⟨_ | _, _⟩ <;> rfl)
  (fun _ _ ↦ rfl)
  (fun m f g ↦ funext fun s ↦ by
    rw [bind_apply, bind_apply, bind_apply]
    rcases m s with ⟨_ | _, _⟩ <;> rfl)

/-- A failure is the outcome of the whole. -/
theorem bind_fst_of_error {s : σ} (h : (m s).1 = .error e) (f : α → Program σ ε β) :
    ((m >>= f) s).1 = .error e := by
  rw [bind_of_error (Prod.ext h rfl)]

@[simp] theorem zoom_fst (part : σ → τ) (put : τ → σ → σ) (m : Program τ ε α) (s : σ) :
    (m.zoom part put s).1 = (m (part s)).1 := rfl

@[simp] theorem fail_apply (e : ε) (s : σ) : (fail e : Program σ ε α) s = (.error e, s) := rfl

@[simp] theorem fail_bind (e : ε) (f : α → Program σ ε β) : (fail e >>= f) = fail e := rfl

@[simp] theorem get_bind (f : σ → Program σ ε β) (s : σ) : (get >>= f) s = f s s := rfl

@[simp] theorem modify_apply (f : σ → σ) (s : σ) :
    (modify f : Program σ ε Unit) s = (.ok (), f s) := rfl

@[simp] theorem modify_bind (g : σ → σ) (f : Unit → Program σ ε β) (s : σ) :
    (modify g >>= f) s = f () (g s) := rfl

@[simp] theorem lift_apply (x : Except ε α) (s : σ) : (lift x : Program σ ε α) s = (x, s) := rfl

@[simp] theorem lift_ok_bind (a : α) (f : α → Program σ ε β) : (lift (.ok a) >>= f) = f a := rfl

@[simp] theorem lift_error_bind (e : ε) (f : α → Program σ ε β) :
    (lift (.error e) >>= f) = fail e := rfl

@[simp] theorem each_nil (f : β → Program σ ε Unit) : each [] f = pure () := rfl

theorem each_cons (x : β) (xs : List β) (f : β → Program σ ε Unit) :
    each (x :: xs) f = f x >>= fun _ ↦ each xs f := rfl

variable {b : β} {f : α → Program σ ε β} {s t : σ}

/-- A program that returned went through both of its parts. -/
theorem bind_eq_ok :
    (m >>= f) s = (.ok b, t) ↔ ∃ a s', m s = (.ok a, s') ∧ f a s' = (.ok b, t) := by
  rw [bind_apply]
  rcases h : m s with ⟨_ | a, s'⟩
  · simp
  · simp

/-- A program that failed did so in one of its parts. -/
theorem bind_eq_error :
    (m >>= f) s = (.error e, t) ↔
      m s = (.error e, t) ∨ ∃ a s', m s = (.ok a, s') ∧ f a s' = (.error e, t) := by
  rw [bind_apply]
  rcases h : m s with ⟨_ | a, s'⟩
  · simp
  · simp

theorem lift_bind_eq_ok {x : Except ε α} :
    (lift x >>= f) s = (.ok b, t) ↔ ∃ a, x = .ok a ∧ f a s = (.ok b, t) := by
  rcases x with _ | _ <;> simp

theorem inspect_bind_eq_ok {g : σ → Except ε α} :
    (inspect g >>= f) s = (.ok b, t) ↔ ∃ a, g s = .ok a ∧ f a s = (.ok b, t) :=
  lift_bind_eq_ok

theorem inspect_bind_of_ok {g : σ → Except ε α} {a : α} (h : g s = .ok a) :
    (inspect g >>= f) s = f a s :=
  bind_of_ok (congrArg (·, s) h) f

theorem require_bind (p : Prop) [Decidable p] (e : ε) (f : Unit → Program σ ε β) :
    (require p e >>= f) = if p then f () else fail e := by
  rw [require]
  split <;> rfl

theorem require_bind_eq_ok {p : Prop} [Decidable p] {f : Unit → Program σ ε β} :
    (require p e >>= f) s = (.ok b, t) ↔ p ∧ f () s = (.ok b, t) := by
  by_cases hp : p <;> simp [require_bind, hp]

theorem require_bind_eq_error {p : Prop} [Decidable p] {e e' : ε} {f : Unit → Program σ ε β} :
    (require p e >>= f) s = (.error e', t) ↔
      (¬p ∧ e' = e ∧ t = s) ∨ (p ∧ f () s = (.error e', t)) := by
  by_cases hp : p <;> simp [require_bind, hp, eq_comm]

variable {f : β → Program σ ε Unit} {xs : List β}

/-- What each step preserves a run over a list preserves. -/
theorem each_preserves {P : σ → Prop} (hstep : ∀ x s t, P s → f x s = (.ok (), t) → P t) (hs : P s)
    (h : each xs f s = (.ok (), t)) : P t := by
  induction xs generalizing s with
  | nil => exact (Prod.mk.inj h).2 ▸ hs
  | cons x xs ih =>
    obtain ⟨⟨⟩, u, hx, h⟩ := bind_eq_ok.mp h
    exact ih (hstep x s u hs hx) h

/-- Steps that do nothing do nothing together. -/
theorem each_of_idle (h : ∀ x ∈ xs, f x s = (.ok (), s)) : each xs f s = (.ok (), s) := by
  induction xs with
  | nil => rfl
  | cons x xs ih =>
    obtain ⟨hx, hxs⟩ := forall_mem_cons.mp h
    exact (bind_of_ok hx _).trans (ih hxs)

/-- A run over a list that failed did so at one of its elements. -/
theorem each_eq_error (h : each xs f s = (.error e, t)) :
    ∃ before x rest u, xs = before ++ x :: rest ∧ each before f s = (.ok (), u) ∧
      f x u = (.error e, t) := by
  induction xs generalizing s with
  | nil => cases h
  | cons x xs ih =>
    rcases bind_eq_error.mp h with h | ⟨⟨⟩, u, hx, h⟩
    · exact ⟨[], x, xs, s, rfl, rfl, h⟩
    · obtain ⟨before, y, rest, v, rfl, hbefore, hy⟩ := ih h
      exact ⟨x :: before, y, rest, v, rfl, (bind_of_ok hx _).trans hbefore, hy⟩

theorem each_append_of_ok (h : each xs f s = (.ok (), t)) (ys : List β) :
    each (xs ++ ys) f s = each ys f t := by
  induction xs generalizing s with
  | nil => rw [nil_append, (Prod.mk.inj h).2]
  | cons x xs ih =>
    obtain ⟨⟨⟩, u, hx, h⟩ := bind_eq_ok.mp h
    exact (bind_of_ok hx _).trans (ih h)

variable {as : List α} {f : β → Program σ ε α}

theorem collect_cons_of_ok {x : β} {s t u : σ} {a : α} (hx : f x s = (.ok a, t))
    (hxs : collect xs f t = (.ok as, u)) :
    collect (x :: xs) f s = (.ok (a :: as), u) := by
  rw [collect, bind_of_ok hx, bind_of_ok hxs]
  rfl

/-- A list that was collected was collected in its parts. -/
theorem collect_append_eq_ok {ys : List β} :
    collect (xs ++ ys) f s = (.ok as, t) ↔ ∃ bs u cs, collect xs f s = (.ok bs, u) ∧
      collect ys f u = (.ok cs, t) ∧ as = bs ++ cs := by
  induction xs generalizing s t as with
  | nil =>
    simp [collect]
  | cons x xs ih =>
    rw [cons_append, collect, collect]
    simp only [bind_eq_ok, ih, pure_apply, Prod.mk.injEq, Except.ok.injEq]
    constructor
    · rintro ⟨a, u, hx, as', v, ⟨bs, w, cs, hxs, hys, rfl⟩, rfl, rfl⟩
      exact ⟨a :: bs, w, cs, ⟨a, u, hx, bs, w, hxs, rfl, rfl⟩, hys, rfl⟩
    · rintro ⟨-, w, cs, ⟨a, u, hx, bs, w', hxs, rfl, rfl⟩, hys, rfl⟩
      exact ⟨a, u, hx, bs ++ cs, t, ⟨bs, w', cs, hxs, hys, rfl⟩, rfl, rfl⟩

theorem length_of_collect_eq_ok (h : collect xs f s = (.ok as, t)) : as.length = xs.length := by
  induction xs generalizing s t as with
  | nil =>
    obtain ⟨h, -⟩ := Prod.mk.inj h
    rw [← Except.ok.inj h]
    rfl
  | cons x xs ih =>
    obtain ⟨a, u, -, h⟩ := bind_eq_ok.mp h
    obtain ⟨bs, v, hxs, h⟩ := bind_eq_ok.mp h
    obtain ⟨h, -⟩ := Prod.mk.inj h
    rw [← Except.ok.inj h, length_cons, length_cons, ih hxs]

end Program

end Codeclew
