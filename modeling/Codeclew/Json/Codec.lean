import Codeclew.Json.Parse

/-!
# Typed documents

A `Json.Codec` writes the values of a type as JSON and reads them back. It carries its laws: what
it writes is a valid value of bounded depth, is never `null`, and is read back as it was; for an
object with one member for each field of a record they are proved where they are left out. From them
`decode_encode` follows for every type whose documents are not nested too deep, which is how the
wire formats of this development get their round trips.
-/

namespace Codeclew.Json

open List

/-- A type with a JSON form. -/
class Codec (α : Type) where
  toJson : α → Json
  ofJson? : Json → Option α
  /-- A bound on the nesting of what is written. -/
  levels : ℕ
  ofJson?_toJson : ∀ a, ofJson? (toJson a) = some a := by
    intro a
    simp [field, optionalField_eq, defaultedField, get?_cons, onlyFields_cons,
      onlyFields_nil, get?_ofFields_cons, get?_ofFields_nil, onlyFields_ofFields]
  valid_toJson : ∀ a, (toJson a).Valid := by
    intro a
    first | apply valid_ofFields | apply valid_obj
    · simp only [List.map]
      decide
    · simp
  depth_toJson : ∀ a, (toJson a).depth ≤ levels := by
    intro a
    first | apply depth_ofFields_le | apply depth_obj_le
    simp (disch := decide) [-nonpos_iff_eq_zero, -Nat.le_zero_eq, depth_toJson_le,
      depth_optionToJson_le]
  toJson_ne_null : ∀ a, toJson a ≠ .null := by nofun

export Codec (toJson ofJson?)

attribute [simp] Codec.ofJson?_toJson Codec.valid_toJson

/-! ## Numbers and texts -/

theorem inRange_toNat (n : UInt64) : InRange n.toNat := by
  constructor
  · exact le_trans (by norm_num) (Int.natCast_nonneg _)
  · exact_mod_cast n.toNat_lt

instance : Codec String where
  toJson := .str
  ofJson? := asStr?
  levels := 0
  ofJson?_toJson _ := rfl
  valid_toJson _ := trivial
  depth_toJson _ := le_rfl
  toJson_ne_null _ := nofun

instance : Codec UInt64 where
  toJson := ofU64
  ofJson? := asU64?
  levels := 0
  ofJson?_toJson := asU64?_ofU64
  valid_toJson n := inRange_toNat n
  depth_toJson _ := le_rfl
  toJson_ne_null _ := nofun

def asBool? : Json → Option Bool
  | .bool b => some b
  | _ => none

instance : Codec Bool where
  toJson := .bool
  ofJson? := asBool?
  levels := 0
  ofJson?_toJson _ := rfl
  valid_toJson _ := trivial
  depth_toJson _ := le_rfl
  toJson_ne_null _ := nofun

/-- An unsigned 32-bit integer. -/
def asU32? : Json → Option UInt32
  | .num (.ofNat n) => if n < 2 ^ 32 then some (UInt32.ofNat n) else none
  | _ => none

instance : Codec UInt32 where
  toJson n := .num n.toNat
  ofJson? := asU32?
  levels := 0
  ofJson?_toJson n := by
    simp only [asU32?]
    rw [if_pos n.toNat_lt, UInt32.ofNat_toNat]
  valid_toJson n := by
    refine ⟨le_trans (by norm_num) (Int.natCast_nonneg _), ?_⟩
    exact_mod_cast n.toNat_lt.trans (by norm_num)
  depth_toJson _ := le_rfl
  toJson_ne_null _ := nofun

/-- A signed 64-bit integer. -/
def asI64? : Json → Option Int64
  | .num (.ofNat n) => if n < 2 ^ 63 then some (Int64.ofInt n) else none
  | .num (.negSucc n) => if n < 2 ^ 63 then some (Int64.ofInt (.negSucc n)) else none
  | _ => none

instance : Codec Int64 where
  toJson n := .num n.toInt
  ofJson? := asI64?
  levels := 0
  ofJson?_toJson n := by
    have hlo := n.le_toInt
    have hhi := n.toInt_lt
    rcases h : n.toInt with m | m
    · rw [asI64?, if_pos (by simp [h] at hhi; omega), ← Int.ofNat_eq_natCast, ← h,
        Int64.ofInt_toInt]
    · rw [asI64?, if_pos (by rw [h] at hlo; omega), ← h, Int64.ofInt_toInt]
  valid_toJson n := ⟨n.le_toInt, n.toInt_lt.trans (by norm_num)⟩
  depth_toJson _ := le_rfl
  toJson_ne_null _ := nofun

/-! ## Lists and optional members -/

section Containers

variable {α : Type} [Codec α]

theorem validElems_map (xs : List α) : ValidElems (xs.map toJson) := by
  induction xs with
  | nil => trivial
  | cons x xs ih => exact ⟨Codec.valid_toJson x, ih⟩

theorem depthElems_map (xs : List α) : depthElems (xs.map toJson) ≤ Codec.levels α := by
  induction xs with
  | nil => exact Nat.zero_le _
  | cons x xs ih => exact max_le (Codec.depth_toJson x) ih

theorem mapM_ofJson?_map (xs : List α) : (xs.map toJson).mapM ofJson? = some xs := by
  induction xs with
  | nil => rfl
  | cons x xs ih => simp [ih]

instance : Codec (List α) where
  toJson xs := .arr (xs.map toJson)
  ofJson? j := j.asArr?.bind (List.mapM ofJson?)
  levels := Codec.levels α + 1
  ofJson?_toJson := mapM_ofJson?_map
  valid_toJson := validElems_map
  depth_toJson xs := Nat.succ_le_succ (depthElems_map xs)
  toJson_ne_null _ := nofun

/-- A member that must be there. -/
def field (j : Json) (key : String) : Option α := (j.get? key).bind ofJson?

/-- An optional value, `null` for nothing. -/
def optionToJson : Option α → Json
  | none => .null
  | some a => toJson a

def optionOfJson? : Json → Option (Option α)
  | .null => some none
  | j => (ofJson? j).map some

/-- A member that may be left out. -/
def optionalField (j : Json) (key : String) : Option (Option α) :=
  match j.get? key with
  | none => some none
  | some v => optionOfJson? v

@[simp] theorem optionOfJson?_optionToJson (o : Option α) :
    optionOfJson? (optionToJson o) = some o := by
  cases o with
  | none => rfl
  | some a =>
    rw [optionToJson, optionOfJson?, Codec.ofJson?_toJson, Option.map_some]
    exact Codec.toJson_ne_null a

@[simp] theorem valid_optionToJson (o : Option α) : (optionToJson o).Valid := by
  cases o with
  | none => trivial
  | some a => exact Codec.valid_toJson a

theorem depth_optionToJson (o : Option α) : (optionToJson o).depth ≤ Codec.levels α := by
  cases o with
  | none => exact Nat.zero_le _
  | some a => exact Codec.depth_toJson a

end Containers

/-! ## Objects -/

theorem depth_obj_le {ms : List (String × Json)} {n : ℕ} (h : ∀ m ∈ ms, m.2.depth ≤ n) :
    (obj ms).depth ≤ n + 1 := by
  refine Nat.succ_le_succ ?_
  induction ms with
  | nil => exact Nat.zero_le _
  | cons m ms ih =>
    exact max_le (h m mem_cons_self) (ih fun m' hm' ↦ h m' (mem_cons_of_mem _ hm'))

theorem valid_obj {ms : List (String × Json)} (hk : (ms.map Prod.fst).Pairwise (· < ·))
    (h : ∀ m ∈ ms, m.2.Valid) : (obj ms).Valid := by
  refine ⟨hk, ?_⟩
  clear hk
  induction ms with
  | nil => trivial
  | cons m ms ih =>
    exact ⟨h m mem_cons_self, ih fun m' hm' ↦ h m' (mem_cons_of_mem _ hm')⟩

/-! ## Documents -/

section Documents

variable {α : Type} [Codec α]

/-- The compact document of a value. -/
def encode (a : α) : Bytes := (toJson a).bytes

/-- Read a document. -/
def decode (b : Bytes) : Option α := (ofBytes b).bind ofJson?

theorem decode_encode (h : Codec.levels α < recursionLimit) (a : α) :
    decode (encode a) = some a := by
  rw [decode, encode, ofBytes_bytes (Codec.valid_toJson a)
    ((Codec.depth_toJson a).trans_lt h), Option.bind_some, Codec.ofJson?_toJson]

end Documents

end Codeclew.Json
