import Mathlib

/-!
# JSON values

The value type shared by every wire format of the development. A number is a 64-bit integer or a
floating point number; of the latter nothing is ever computed, so it is kept as the text it was
read from.

An object is a list of members in strictly increasing key order, the order of an ordered map;
`Json.ofMembers` builds such an object from members in any order, the last of several members with
one key winning. `Json.Valid` states the order together with the range of the numbers, and asks
that no number be a floating point one: those are the values whose printed text determines them.
-/

namespace Codeclew

open List

/-- A JSON value. -/
inductive Json where
  | null
  | bool (b : Bool)
  | num (n : Int)
  /-- A number that is not a 64-bit integer, kept as its text. -/
  | float (literal : String)
  | str (s : String)
  | arr (xs : List Json)
  | obj (ms : List (String × Json))
  deriving Repr, Inhabited

namespace Json

/-! ## Decidable equality

The deriving handler does not reach through the nested lists, so the three comparisons are written
out together. -/

mutual

protected def beq : Json → Json → Bool
  | .null, .null => true
  | .bool a, .bool b => a == b
  | .num a, .num b => a == b
  | .float a, .float b => a == b
  | .str a, .str b => a == b
  | .arr a, .arr b => Json.beqElems a b
  | .obj a, .obj b => Json.beqMembers a b
  | _, _ => false

protected def beqElems : List Json → List Json → Bool
  | [], [] => true
  | x :: xs, y :: ys => Json.beq x y && Json.beqElems xs ys
  | _, _ => false

protected def beqMembers : List (String × Json) → List (String × Json) → Bool
  | [], [] => true
  | (k, x) :: xs, (l, y) :: ys => k == l && (Json.beq x y && Json.beqMembers xs ys)
  | _, _ => false

end

mutual

protected theorem beq_iff_eq : ∀ a b : Json, Json.beq a b = true ↔ a = b
  | .arr xs, b => by cases b <;> simp [Json.beq, Json.beqElems_iff_eq xs]
  | .obj ms, b => by cases b <;> simp [Json.beq, Json.beqMembers_iff_eq ms]
  | .null, b | .bool _, b | .num _, b | .float _, b | .str _, b => by cases b <;> simp [Json.beq]

protected theorem beqElems_iff_eq : ∀ a b : List Json, Json.beqElems a b = true ↔ a = b
  | [], b => by cases b <;> simp [Json.beqElems]
  | x :: xs, b => by
    cases b <;> simp [Json.beqElems, Json.beq_iff_eq x, Json.beqElems_iff_eq xs]

protected theorem beqMembers_iff_eq : ∀ a b : List (String × Json),
    Json.beqMembers a b = true ↔ a = b
  | [], b => by cases b <;> simp [Json.beqMembers]
  | (k, x) :: ms, b => by
    cases b <;>
      simp [Json.beqMembers, Json.beq_iff_eq x, Json.beqMembers_iff_eq ms, Prod.ext_iff, and_assoc]

end

instance : DecidableEq Json := fun a b ↦ decidable_of_iff _ (Json.beq_iff_eq a b)

/-! ## Access -/

/-- The member of an object under a key; nothing for a value that is not an object. -/
def get? (j : Json) (key : String) : Option Json :=
  match j with
  | .obj ms => (ms.find? fun m ↦ m.1 == key).map Prod.snd
  | _ => none

/-- Indexing with a key, which reads `null` where there is no such member. -/
def getD (j : Json) (key : String) : Json := (j.get? key).getD .null

def asStr? : Json → Option String
  | .str s => some s
  | _ => none

def asArr? : Json → Option (List Json)
  | .arr xs => some xs
  | _ => none

def asObj? : Json → Option (List (String × Json))
  | .obj ms => some ms
  | _ => none

/-- An unsigned 64-bit integer. -/
def asU64? : Json → Option UInt64
  | .num (.ofNat n) => if n < 2 ^ 64 then some (UInt64.ofNat n) else none
  | _ => none

/-- The value is an object whose keys all occur in `keys`. -/
def onlyFields (keys : List String) : Json → Bool
  | .obj ms => ms.all fun m ↦ keys.contains m.1
  | _ => false

/-- The integer of an unsigned 64-bit value. -/
def ofU64 (n : UInt64) : Json := .num n.toNat

@[simp] theorem asU64?_ofU64 (n : UInt64) : (ofU64 n).asU64? = some n := by
  simp only [ofU64, asU64?]
  rw [if_pos n.toNat_lt, UInt64.ofNat_toNat]

theorem asU64?_eq_some_iff {j : Json} {n : UInt64} : j.asU64? = some n ↔ j = ofU64 n := by
  refine ⟨fun h ↦ ?_, fun h ↦ h ▸ asU64?_ofU64 n⟩
  match j with
  | .num (.ofNat k) =>
    rw [asU64?, Option.ite_none_right_eq_some, Option.some.injEq] at h
    obtain ⟨hlt, rfl⟩ := h
    rw [ofU64, UInt64.toNat_ofNat_of_lt' hlt]
    rfl
  | .num (.negSucc _) | .null | .bool _ | .float _ | .str _ | .arr _ | .obj _ => cases h

/-! ### Members by key -/

theorem get?_cons (k key : String) (v : Json) (ms : List (String × Json)) :
    (obj ((k, v) :: ms)).get? key = if k = key then some v else (obj ms).get? key := by
  by_cases h : k = key <;> simp [get?, h]

theorem onlyFields_nil (keys : List String) : onlyFields keys (.obj []) = true := rfl

theorem onlyFields_cons (keys : List String) (k : String) (v : Json) (ms : List (String × Json)) :
    onlyFields keys (.obj ((k, v) :: ms)) = (decide (k ∈ keys) && onlyFields keys (.obj ms)) := by
  simp [onlyFields]

/-! ## Nesting depth -/

mutual

/-- The number of nested containers on the deepest path. -/
def depth : Json → ℕ
  | .null | .bool _ | .num _ | .float _ | .str _ => 0
  | .arr xs => depthElems xs + 1
  | .obj ms => depthMembers ms + 1

def depthElems : List Json → ℕ
  | [] => 0
  | x :: xs => max (depth x) (depthElems xs)

def depthMembers : List (String × Json) → ℕ
  | [] => 0
  | (_, x) :: ms => max (depth x) (depthMembers ms)

end

/-! ## Valid values -/

/-- The integers of a signed or an unsigned 64-bit number. -/
def InRange (n : Int) : Prop := -2 ^ 63 ≤ n ∧ n < 2 ^ 64

instance (n : Int) : Decidable (InRange n) := inferInstanceAs (Decidable (_ ∧ _))

mutual

/-- Every number is a 64-bit integer, and every object lists its members in strictly increasing
key order. -/
def Valid : Json → Prop
  | .null | .bool _ | .str _ => True
  | .num n => InRange n
  | .float _ => False
  | .arr xs => ValidElems xs
  | .obj ms => (ms.map Prod.fst).Pairwise (· < ·) ∧ ValidMembers ms

def ValidElems : List Json → Prop
  | [] => True
  | x :: xs => Valid x ∧ ValidElems xs

def ValidMembers : List (String × Json) → Prop
  | [] => True
  | (_, x) :: ms => Valid x ∧ ValidMembers ms

end

mutual

/-- Every number is a 64-bit integer; the members of an object may be in any order. -/
def Printable : Json → Prop
  | .null | .bool _ | .str _ => True
  | .num n => InRange n
  | .float _ => False
  | .arr xs => PrintableElems xs
  | .obj ms => PrintableMembers ms

def PrintableElems : List Json → Prop
  | [] => True
  | x :: xs => Printable x ∧ PrintableElems xs

def PrintableMembers : List (String × Json) → Prop
  | [] => True
  | (_, x) :: ms => Printable x ∧ PrintableMembers ms

end

mutual

theorem Valid.printable : ∀ {j : Json}, j.Valid → j.Printable
  | .null, _ => trivial
  | .bool _, _ => trivial
  | .str _, _ => trivial
  | .num _, h => h
  | .arr _, h => ValidElems.printable h
  | .obj _, h => ValidMembers.printable h.2

theorem ValidElems.printable : ∀ {xs : List Json}, ValidElems xs → PrintableElems xs
  | [], _ => trivial
  | _ :: _, h => ⟨h.1.printable, ValidElems.printable h.2⟩

theorem ValidMembers.printable : ∀ {ms : List (String × Json)}, ValidMembers ms →
    PrintableMembers ms
  | [], _ => trivial
  | (_, _) :: _, h => ⟨h.1.printable, ValidMembers.printable h.2⟩

end

/-- Insert a member into an ordered member list, replacing a member with the same key. -/
def insertMember (key : String) (v : Json) : List (String × Json) → List (String × Json)
  | [] => [(key, v)]
  | (k, w) :: ms =>
    if key < k then (key, v) :: (k, w) :: ms
    else if key = k then (key, v) :: ms
    else (k, w) :: insertMember key v ms

/-- The object with the given members, in key order; a later member replaces an earlier one. -/
def ofMembers (ms : List (String × Json)) : List (String × Json) :=
  ms.foldl (fun acc m ↦ insertMember m.1 m.2 acc) []

mutual

/-- A value with the members of its objects in key order. -/
def sortValue : Json → Json
  | .arr xs => .arr (sortElems xs)
  | .obj ms => .obj (ofMembers (sortMembers ms))
  | j => j

def sortElems : List Json → List Json
  | [] => []
  | x :: xs => sortValue x :: sortElems xs

def sortMembers : List (String × Json) → List (String × Json)
  | [] => []
  | (k, x) :: ms => (k, sortValue x) :: sortMembers ms

end

theorem insertMember_of_lt {key : String} {v : Json} {ms : List (String × Json)}
    (h : ∀ m ∈ ms, m.1 < key) : insertMember key v ms = ms ++ [(key, v)] := by
  induction ms with
  | nil => rfl
  | cons m ms ih =>
    obtain ⟨k, w⟩ := m
    have hk : k < key := h (k, w) mem_cons_self
    rw [insertMember, if_neg hk.not_gt, if_neg hk.ne',
      ih fun m hm ↦ h m (mem_cons_of_mem _ hm)]
    rfl

/-- Members already in order are kept as they are. -/
theorem ofMembers_eq_self {ms : List (String × Json)}
    (h : (ms.map Prod.fst).Pairwise (· < ·)) : ofMembers ms = ms := by
  have key : ∀ (post pre : List (String × Json)),
      ((pre ++ post).map Prod.fst).Pairwise (· < ·) →
      post.foldl (fun acc m ↦ insertMember m.1 m.2 acc) pre = pre ++ post := by
    intro post
    induction post with
    | nil => intro pre _; simp
    | cons m post ih =>
      intro pre hp
      rw [map_append, map_cons, pairwise_append] at hp
      have hlt : ∀ m' ∈ pre, m'.1 < m.1 := fun m' hm' ↦
        hp.2.2 _ (mem_map_of_mem hm') _ mem_cons_self
      rw [foldl_cons, insertMember_of_lt hlt, ih, append_assoc, singleton_append]
      rw [append_assoc, singleton_append, map_append, map_cons,
        pairwise_append]
      exact hp
  simpa [ofMembers] using key ms [] (by simpa using h)

mutual

/-- Valid values are in order already. -/
theorem sortValue_of_valid : ∀ {j : Json}, j.Valid → j.sortValue = j
  | .null, _ => rfl
  | .bool _, _ => rfl
  | .str _, _ => rfl
  | .num _, _ => rfl
  | .arr _, h => congrArg Json.arr (sortElems_of_valid h)
  | .obj _, h => by rw [sortValue, sortMembers_of_valid h.2, ofMembers_eq_self h.1]

theorem sortElems_of_valid : ∀ {xs : List Json}, ValidElems xs → sortElems xs = xs
  | [], _ => rfl
  | _ :: _, h => by rw [sortElems, sortValue_of_valid h.1, sortElems_of_valid h.2]

theorem sortMembers_of_valid : ∀ {ms : List (String × Json)}, ValidMembers ms → sortMembers ms = ms
  | [], _ => rfl
  | (_, _) :: _, h => by rw [sortMembers, sortValue_of_valid h.1, sortMembers_of_valid h.2]

end

end Json

end Codeclew
