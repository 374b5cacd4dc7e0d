import Codeclew.Json.Format

/-!
# Documents in the order of their records

The canonical form of a document has the members of its objects in the order of their keys. Where a
record is printed as it is declared, they come in the order of its fields instead. `Record` is a
type with such a form: sorted, it is the canonical one, so it is read back as that would be.
-/

namespace Codeclew.Json

open List

/-- A type with a form that lists members as they are declared. -/
class Record (α : Type) extends Codec α where
  fields : α → Json
  sortValue_fields : ∀ a, (fields a).sortValue = toJson a := by
    intro a
    simp only [sortValue, sortMembers, sortValue_toJson, Record.sortValue_fields]
    simp +decide only [ofMembers, insertMember, List.foldl, if_true, if_false]
  printable_fields : ∀ a, (fields a).Printable := by
    intro a
    exact printable_obj (by simp)
  depth_fields : ∀ a, (fields a).depth ≤ levels := by
    intro a
    apply depth_obj_le
    simp (disch := decide) [-nonpos_iff_eq_zero, -Nat.le_zero_eq, depth_toJson_le, depth_fields_le]

export Record (fields)

attribute [simp] Record.sortValue_fields Record.printable_fields

/-- A type that is printed in one way only. -/
@[reducible] def Record.ofCodec (α : Type) [Codec α] : Record α where
  fields := toJson
  sortValue_fields a := sortValue_of_valid (Codec.valid_toJson a)
  printable_fields a := (Codec.valid_toJson a).printable
  depth_fields := Codec.depth_toJson

instance : Record String := .ofCodec String

instance : Record UInt64 := .ofCodec UInt64

@[simp] theorem depth_toJson_string (s : String) : (toJson s).depth = 0 := rfl

@[simp] theorem depth_toJson_uint64 (n : UInt64) : (toJson n).depth = 0 := rfl

@[simp] theorem printable_toJson {α : Type} [Codec α] (a : α) : (toJson a).Printable :=
  (Codec.valid_toJson a).printable

@[simp] theorem sortValue_toJson {α : Type} [Codec α] (a : α) : (toJson a).sortValue = toJson a :=
  sortValue_of_valid (Codec.valid_toJson a)

section Lists

variable {α : Type} [Record α]

theorem sortElems_map_fields (xs : List α) : sortElems (xs.map fields) = xs.map toJson := by
  induction xs with
  | nil => rfl
  | cons x xs ih => rw [map_cons, sortElems, Record.sortValue_fields, ih, map_cons]

theorem printableElems_map_fields (xs : List α) : PrintableElems (xs.map fields) := by
  induction xs with
  | nil => trivial
  | cons x xs ih => exact ⟨Record.printable_fields x, ih⟩

theorem depthElems_map_fields (xs : List α) : depthElems (xs.map fields) ≤ Codec.levels α := by
  induction xs with
  | nil => exact Nat.zero_le _
  | cons x xs ih => exact max_le (Record.depth_fields x) ih

instance : Record (List α) where
  fields xs := .arr (xs.map fields)
  sortValue_fields xs := congrArg Json.arr (sortElems_map_fields xs)
  printable_fields xs := printableElems_map_fields xs
  depth_fields xs := Nat.succ_le_succ (depthElems_map_fields xs)

end Lists

theorem depth_fields_le {α : Type} [Record α] {n : ℕ} (h : Codec.levels α ≤ n) (a : α) :
    (fields a).depth ≤ n := (Record.depth_fields a).trans h

theorem printable_obj {ms : List (String × Json)} (h : ∀ m ∈ ms, m.2.Printable) :
    (Json.obj ms).Printable := by
  rw [Printable]
  induction ms with
  | nil => trivial
  | cons m ms ih =>
    exact ⟨h m mem_cons_self, ih fun n hn ↦ h n (mem_cons_of_mem _ hn)⟩

variable {α : Type} [Record α]

/-- The document in the order of the record. -/
def encodeRecord (a : α) : Bytes := (fields a).bytes

theorem decode_encodeRecord (h : Codec.levels α < recursionLimit) (a : α) :
    decode (encodeRecord a) = some a := by
  rw [decode, encodeRecord, ofBytes_bytes_of_printable (Record.printable_fields a)
    ((Record.depth_fields a).trans_lt h), Option.bind_some, Record.sortValue_fields,
    Codec.ofJson?_toJson]

end Codeclew.Json
