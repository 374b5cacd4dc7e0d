import Codeclew.Json.Codec
import Codeclew.State

/-!
# Documents with gaps

Two things the records of the ledgers have and a `Codec` has not: members that are left out, and
numbers of 128 bits.

`Json.ofFields` is an object in which some members are missing. A time in milliseconds is an
unsigned 128-bit number, and the serializer refuses one that does not fit into 64 bits; a `Format`
is a codec whose laws hold for the values that fit, and `canonical` fails for the others.
-/

namespace Codeclew.Json

open List

/-! ## Objects with missing members -/

/-- The object of the members that are there. -/
def ofFields (fs : List (String × Option Json)) : Json :=
  .obj (fs.filterMap fun f ↦ f.2.map fun v ↦ (f.1, v))

theorem get?_ofFields_nil (key : String) : (ofFields []).get? key = none := rfl

theorem get?_ofFields_cons (k key : String) (o : Option Json) (fs : List (String × Option Json)) :
    (ofFields ((k, o) :: fs)).get? key
      = if k = key then o.or ((ofFields fs).get? key) else (ofFields fs).get? key := by
  cases o with
  | none => simp [ofFields]
  | some v =>
    rw [show ofFields ((k, some v) :: fs) = obj ((k, v) :: fs.filterMap
      fun f ↦ f.2.map fun v ↦ (f.1, v)) from rfl, get?_cons]
    split <;> rfl

/-- What an optional member says: nothing if it is left out. -/
def ofMember? {α : Type} [Codec α] : Option Json → Option (Option α)
  | none => some none
  | some v => optionOfJson? v

variable {α : Type}

theorem optionalField_eq [Codec α] (j : Json) (key : String) :
    (optionalField j key : Option (Option α)) = ofMember? (j.get? key) :=
  rfl

@[simp] theorem ofMember?_map_toJson [Codec α] (o : Option α) :
    ofMember? (o.map toJson) = some o := by
  cases o with
  | none => rfl
  | some a => exact optionOfJson?_optionToJson (some a)

@[simp] theorem ofMember?_optionToJson [Codec α] (o : Option α) :
    ofMember? (some (optionToJson o)) = some o :=
  optionOfJson?_optionToJson o

variable {fs : List (String × Option Json)}

theorem onlyFields_ofFields {keys : List String} (h : ∀ f ∈ fs, f.1 ∈ keys) :
    (ofFields fs).onlyFields keys = true := by
  simp only [ofFields, onlyFields, all_eq_true, mem_filterMap, Option.map_eq_some_iff,
    contains_iff_mem]
  rintro - ⟨f, hf, v, -, rfl⟩
  exact h f hf

theorem valid_ofFields (hk : (fs.map Prod.fst).Pairwise (· < ·))
    (h : ∀ f ∈ fs, ∀ v ∈ f.2, v.Valid) :
    (ofFields fs).Valid := by
  refine valid_obj ?_ ?_
  · refine hk.sublist ?_
    rw [map_filterMap]
    induction fs with
    | nil => exact .slnil
    | cons f fs ih =>
      have ih' := ih (List.Pairwise.of_cons hk) fun g hg ↦ h g (mem_cons_of_mem _ hg)
      rcases f with ⟨k, _ | v⟩
      · exact ih'.cons k
      · exact ih'.cons_cons k
  · simp only [mem_filterMap, Option.map_eq_some_iff]
    rintro - ⟨f, hf, v, hv, rfl⟩
    exact h f hf v hv

variable {n : ℕ}

theorem depth_ofFields_le (h : ∀ f ∈ fs, ∀ v ∈ f.2, v.depth ≤ n) : (ofFields fs).depth ≤ n + 1 := by
  refine depth_obj_le ?_
  simp only [mem_filterMap, Option.map_eq_some_iff]
  rintro - ⟨f, hf, v, hv, rfl⟩
  exact h f hf v hv

theorem depth_toJson_le [Codec α] (h : Codec.levels α ≤ n) (a : α) :
    (toJson a).depth ≤ n :=
  (Codec.depth_toJson a).trans h

theorem depth_optionToJson_le [Codec α] (h : Codec.levels α ≤ n) (o : Option α) :
    (optionToJson o).depth ≤ n :=
  (depth_optionToJson o).trans h

/-- A list that is empty when it is left out (`#[serde(default)]`). -/
def defaultedField {α : Type} [Codec α] (j : Json) (key : String) : Option (List α) :=
  match j.get? key with
  | some v => ofJson? v
  | none => some []

/-! ## Numbers of 128 bits -/

/-- An unsigned 128-bit integer. One that has more than 64 bits reaches us as its digits. -/
def asU128? : Json → Option ℕ
  | .num (.ofNat n) => some n
  | .float literal =>
    if (chars literal).all Char.isDigit ∧ Nat.ofDigitChars 10 (chars literal) 0 < 2 ^ 128 then
      some (Nat.ofDigitChars 10 (chars literal) 0)
    else none
  | _ => none

@[simp] theorem asU128?_natCast (n : ℕ) : asU128? (.num n) = some n := rfl

theorem valid_num (h : n < 2 ^ 64) : (Json.num n).Valid :=
  ⟨le_trans (by norm_num) (Int.natCast_nonneg n), by exact_mod_cast h⟩

@[simp] theorem depth_num (n : ℤ) : (Json.num n).depth = 0 := rfl

/-! ## Formats -/

/-- A type with a JSON form for those of its values that fit. -/
class Format (α : Type) where
  toJson : α → Json
  ofJson? : Json → Option α
  fits : α → Bool
  /-- A bound on the nesting of what is written. -/
  levels : ℕ
  ofJson?_toJson : ∀ a, fits a = true → ofJson? (toJson a) = some a := by
    intro a _
    simp [field, optionalField_eq, get?_ofFields_cons, get?_ofFields_nil, onlyFields_ofFields]
  valid_toJson : ∀ a, fits a = true → (toJson a).Valid := by
    intro a ha
    apply valid_ofFields
    · simp only [List.map]
      decide
    · simp [valid_num (of_decide_eq_true ha)]
  depth_toJson : ∀ a, (toJson a).depth ≤ levels := by
    intro a
    apply depth_ofFields_le
    simp (disch := decide) [depth_toJson_le, depth_optionToJson_le]

section Documents

variable {α : Type} [Format α]

/-- `canonical::bytes`. -/
def canonical (a : α) : Except ClewError Bytes :=
  if Format.fits a then .ok (Format.toJson a).bytes
  else .error (internal "number out of range")

/-- `serde_json::from_slice`. -/
def fromSlice (b : Bytes) : Option α := (ofBytes b).bind Format.ofJson?

theorem canonical_eq_ok_iff {a : α} {b : Bytes} :
    canonical a = .ok b ↔ Format.fits a = true ∧ b = (Format.toJson a).bytes := by
  rw [canonical]
  split
  · simp [*, eq_comm]
  · simp [*]

theorem fromSlice_of_canonical (h : Format.levels α < recursionLimit) {a : α} {b : Bytes}
    (hb : canonical a = .ok b) : fromSlice b = some a := by
  obtain ⟨hfits, rfl⟩ := canonical_eq_ok_iff.mp hb
  rw [fromSlice, ofBytes_bytes (Format.valid_toJson a hfits)
    ((Format.depth_toJson a).trans_lt h), Option.bind_some, Format.ofJson?_toJson a hfits]

end Documents

end Codeclew.Json
