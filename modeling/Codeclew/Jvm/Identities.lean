import Codeclew.Query.Terms

/-!
# Identities of callables

Kotlin names a callable by its class and its name, `a/b/Outer.Inner.name`; Java names it by the
binary name of the class, its name and its descriptor, `method:class:a.b.Outer$Inner#name(I)V`. The
family of a callable is what its overloads share, the identity without the descriptor. It is derived
from a Java identity by cutting off the descriptor, and from a Kotlin name directly; the two agree
for every callable but the constructors.
-/

namespace Codeclew.Jvm

open List Option

open Query (rsplitOnce)

variable {front back callableId descriptor identity : List Char} {c : Char}

def javaCallableFamily (identity : List Char) : Option (List Char) := do
  let (before, descriptor) ← rsplitOnce '(' identity
  if before ≠ [] ∧ descriptor ≠ [] then some before else none

/-- `str::replace`, for single characters. -/
def replaceAll (old new : Char) (cs : List Char) : List Char :=
  cs.map fun c ↦ if c = old then new else c

def kotlinClassIdentity (classId : List Char) : Option (List Char) := do
  let (package, relative) ← rsplitOnce '/' classId
  if package = [] ∨ relative = [] ∨ '/' ∈ relative then none
  else some (chars "class:" ++ (replaceAll '/' '.' package ++ '.' :: replaceAll '.' '$' relative))

def kotlinCallableIdentity (callableId descriptor : List Char) : Option (List Char) := do
  let (owner, name) ← rsplitOnce '.' callableId
  let descriptor := descriptor.dropWhile (· ≠ '(')
  if descriptor = [] ∨ name = [] then none
  else do
    let owner ← kotlinClassIdentity owner
    return chars "method:" ++ owner ++ '#' :: name ++ descriptor

/-- What follows the last of some characters. -/
def lastSegment (separators cs : List Char) : List Char :=
  (cs.reverse.takeWhile (· ∉ separators)).reverse

def initName : List Char := chars "<init>"

def kotlinCallableFamily (callableId : List Char) : Option (List Char) := do
  let (owner, name) ← rsplitOnce '.' callableId
  if name = [] then none
  else do
    let owner ← kotlinClassIdentity owner
    let binaryName ← owner.dropPrefix? (chars "class:")
    let jvmName := if name = lastSegment ['.', '$'] binaryName then initName else name
    return chars "method:" ++ owner ++ '#' :: jvmName

/-- What follows the first parenthesis. -/
def parameters (descriptor : List Char) : List Char := (descriptor.dropWhile (· ≠ '(')).tail

/-- A callable that has the simple name of its class, as a constructor has. -/
def IsConstructor (callableId : List Char) : Prop :=
  ∃ owner name classIdentity, rsplitOnce '.' callableId = some (owner, name) ∧
    kotlinClassIdentity owner = some classIdentity ∧
    name = lastSegment ['.', '$'] classIdentity ∧ name ≠ initName

theorem rsplitOnce_append (hback : c ∉ back) :
    rsplitOnce c (front ++ c :: back) = some (front, back) := by
  have hall : ∀ d ∈ back.reverse, decide (d ≠ c) = true := fun d hd ↦
    decide_eq_true fun h ↦ hback (h ▸ mem_reverse.mp hd)
  rw [rsplitOnce, if_pos (by simp), reverse_append, reverse_cons, append_assoc,
    takeWhile_append_of_pos hall, dropWhile_append_of_pos hall]
  simp

theorem eq_append_of_rsplitOnce {cs : List Char} (h : rsplitOnce c cs = some (front, back)) :
    cs = front ++ c :: back ∧ c ∉ back := by
  by_cases hmem : c ∈ cs
  · obtain ⟨b, f, hcs, hb⟩ := eq_append_cons_of_mem (mem_reverse.mpr hmem)
    obtain rfl : cs = f.reverse ++ c :: b.reverse := by
      rw [← reverse_reverse cs, hcs]
      simp
    rw [rsplitOnce_append (by simpa using hb)] at h
    cases h
    exact ⟨rfl, by simpa using hb⟩
  · rw [rsplitOnce, if_neg hmem] at h
    cases h

theorem lastSegment_append {separators : List Char} (hc : c ∈ separators) :
    lastSegment separators (front ++ c :: back) = lastSegment separators back := by
  rw [lastSegment, lastSegment, reverse_append, reverse_cons, append_assoc,
    takeWhile_append]
  split_ifs with hall
  · rw [(takeWhile_sublist _).eq_of_length hall]
    simp [hc]
  · rfl

theorem kotlinClassIdentity_eq_some {classId : List Char}
    (h : kotlinClassIdentity classId = some identity) :
    ∃ binaryName, identity = chars "class:" ++ binaryName ∧
      lastSegment ['.', '$'] binaryName = lastSegment ['.', '$'] identity := by
  obtain ⟨⟨package, relative⟩, -, hclass⟩ := bind_eq_some_iff.mp h
  dsimp only at hclass
  split_ifs at hclass
  cases hclass
  refine ⟨_, rfl, ?_⟩
  rw [← append_assoc, lastSegment_append (by simp), lastSegment_append (by simp)]

/-- What the identity and the family of a callable share, and the names they end with. -/
theorem exists_of_kotlinCallableIdentity
    (h : kotlinCallableIdentity callableId descriptor = some identity) :
    ∃ owner name classIdentity shared, rsplitOnce '.' callableId = some (owner, name) ∧
      kotlinClassIdentity owner = some classIdentity ∧ shared ≠ [] ∧
      identity = shared ++ name ++ '(' :: parameters descriptor ∧
      kotlinCallableFamily callableId = some (shared ++
        if name = lastSegment ['.', '$'] classIdentity then initName else name) := by
  obtain ⟨⟨owner, name⟩, hsplit, h⟩ := bind_eq_some_iff.mp h
  dsimp only at h
  split_ifs at h with hempty
  rw [not_or] at hempty
  obtain ⟨_, howner, h⟩ := bind_eq_some_iff.mp h
  cases h
  obtain ⟨binaryName, rfl, hlast⟩ := kotlinClassIdentity_eq_some howner
  refine ⟨owner, name, _, chars "method:" ++ (chars "class:" ++ binaryName) ++ ['#'],
    hsplit, howner, by simp, ?_, ?_⟩
  · obtain ⟨d, rest, hrest⟩ := exists_cons_of_ne_nil hempty.1
    have hd := List.head?_dropWhile_not (fun c ↦ decide (c ≠ '(')) descriptor
    rw [hrest] at hd
    obtain rfl : d = '(' := by simpa using hd
    rw [parameters, hrest]
    simp
  · rw [kotlinCallableFamily, hsplit]
    simp only [bind_eq_bind, bind_some, hempty.2, if_false, howner,
      List.dropPrefix?_append_of_beq _ (beq_self_eq_true _), hlast]
    simp

theorem javaCallableFamily_eq_some_iff {family : List Char} :
    javaCallableFamily identity = some family ↔ family ≠ [] ∧ ∃ rest, rest ≠ [] ∧ '(' ∉ rest ∧
      identity = family ++ '(' :: rest := by
  constructor
  · intro h
    obtain ⟨⟨before, rest⟩, hsplit, hcut⟩ := bind_eq_some_iff.mp h
    obtain ⟨heq, hno⟩ := eq_append_of_rsplitOnce hsplit
    dsimp only at hcut
    split_ifs at hcut with hne
    cases hcut
    exact ⟨hne.1, rest, hne.2, hno, heq⟩
  · rintro ⟨hfamily, rest, hrest, hno, rfl⟩
    rw [javaCallableFamily, rsplitOnce_append hno]
    exact if_pos ⟨hfamily, hrest⟩

/-- The families agree exactly if the descriptor has one parameter list and the callable is no
constructor. -/
theorem javaCallableFamily_eq_iff
    (h : kotlinCallableIdentity callableId descriptor = some identity) :
    javaCallableFamily identity = kotlinCallableFamily callableId ↔
      parameters descriptor ≠ [] ∧ '(' ∉ parameters descriptor ∧
        ¬IsConstructor callableId := by
  obtain ⟨owner, name, classIdentity, shared, hsplit, howner, hshared, rfl, hfamily⟩ :=
    exists_of_kotlinCallableIdentity h
  have hconstructor : IsConstructor callableId ↔
      name = lastSegment ['.', '$'] classIdentity ∧ name ≠ initName := by
    refine ⟨?_, fun h ↦ ⟨owner, name, classIdentity, hsplit, howner, h⟩⟩
    rintro ⟨_, _, _, heq, howner', h⟩
    cases hsplit.symm.trans heq
    cases howner.symm.trans howner'
    exact h
  rw [hfamily, javaCallableFamily_eq_some_iff, hconstructor, not_and_not_right]
  simp only [append_assoc, append_cancel_left_eq]
  constructor
  · rintro ⟨-, rest, hrest, hno, heq⟩
    split_ifs at heq with hc
    · obtain ⟨hinit, -, rfl⟩ := (append_cons_inj_of_notMem (by decide) hno).mp heq.symm
      exact ⟨hrest, hno, fun _ ↦ hinit.symm⟩
    · obtain rfl := tail_eq_of_cons_eq (append_cancel_left heq)
      exact ⟨hrest, hno, fun h ↦ absurd h hc⟩
  · rintro ⟨hrest, hno, hinit⟩
    refine ⟨by simp [hshared], _, hrest, hno, ?_⟩
    split_ifs with hc
    · rw [hinit hc]
    · rfl

/-- A constructor has another family as a Java callable than as a Kotlin one. -/
theorem javaCallableFamily_constructor :
    ∃ identity, kotlinCallableIdentity (chars "a/C.C") (chars "(I)V") = some identity ∧
      javaCallableFamily identity = some (chars "method:class:a.C#C") ∧
      kotlinCallableFamily (chars "a/C.C") = some (chars "method:class:a.C#<init>") :=
  ⟨chars "method:class:a.C#C(I)V", by decide +kernel, by decide +kernel, by decide +kernel⟩

theorem javaCallableFamily_eq_iff_nested :
    javaCallableFamily (chars "method:class:a.C$D#f(I)V") = kotlinCallableFamily (chars "a/C.D.f") ↔
      parameters (chars "(I)V") ≠ [] ∧ '(' ∉ parameters (chars "(I)V") ∧
        ¬IsConstructor (chars "a/C.D.f") :=
  javaCallableFamily_eq_iff (by decide +kernel)

end Codeclew.Jvm
