import Codeclew.Json.Codec
import Codeclew.State

/-!
# Sizes of compact documents

How many bytes a compact document has, computed from its parts: a sequence or an object adds its
brackets and one comma between neighbours to the sizes of what it holds, and a string is as long as
its escaped text. Writers that fill files up to a limit compute with these sums and never encode.
-/

namespace Codeclew.Json

open List

/-- The number of bytes of the compact document. -/
def size (j : Json) : ℕ := utf8Length j.render

/-- The number of bytes of a string literal. -/
def stringSize (s : String) : ℕ := utf8Length (renderString s)

theorem length_encodeUtf8 (cs : List Char) : (encodeUtf8 cs).length = utf8Length cs := by
  simp [encodeUtf8, utf8Length, length_flatMap, String.length_utf8EncodeChar]

theorem length_bytes (j : Json) : j.bytes.length = j.size := length_encodeUtf8 _

@[simp] theorem utf8Length_nil : utf8Length [] = 0 := rfl

@[simp] theorem utf8Length_cons (c : Char) (cs : List Char) :
    utf8Length (c :: cs) = c.utf8Size + utf8Length cs := by
  simp [utf8Length]

@[simp] theorem utf8Length_append (cs ds : List Char) :
    utf8Length (cs ++ ds) = utf8Length cs + utf8Length ds := by
  simp [utf8Length]

/-- Text of one byte for each character. -/
theorem utf8Length_of_ascii {cs : List Char} (h : ∀ c ∈ cs, c.utf8Size = 1) :
    utf8Length cs = cs.length := by
  induction cs with
  | nil => rfl
  | cons c cs ih =>
    rw [utf8Length_cons, h c mem_cons_self, ih fun d hd ↦ h d (mem_cons_of_mem _ hd),
      length_cons, Nat.add_comm]

/-! ## Equations -/

theorem size_str (s : String) : (Json.str s).size = stringSize s := by
  rw [size, render, stringSize]

theorem utf8Size_of_le {c d : Char} (h : c ≤ d) (hd : d.utf8Size = 1) : c.utf8Size = 1 :=
  Char.utf8Size_eq_one_iff.mpr (UInt32.le_trans h (Char.utf8Size_eq_one_iff.mp hd))

theorem utf8Size_of_isDigit {c : Char} (h : c.isDigit = true) : c.utf8Size = 1 := by
  simp only [Char.isDigit, Bool.and_eq_true, decide_eq_true_eq] at h
  exact utf8Size_of_le (d := '9') h.2 (by decide)

theorem utf8Length_toDigits (n : ℕ) :
    utf8Length (Nat.toDigits 10 n) = (Nat.toDigits 10 n).length :=
  utf8Length_of_ascii fun c hc ↦
    utf8Size_of_isDigit (Nat.isDigit_of_mem_toDigits (by norm_num) le_rfl hc)

/-- A natural number has one byte for each digit. -/
theorem size_natCast (n : ℕ) : (Json.num n).size = (Nat.toDigits 10 n).length := by
  rw [size, render, renderInt, if_neg (by omega), Int.natAbs_natCast]
  exact utf8Length_toDigits n

theorem utf8Length_renderElems (xs : List Json) :
    utf8Length (renderElems xs) = (xs.map size).sum + xs.length + 1 := by
  induction xs with
  | nil => rfl
  | cons x xs ih =>
    rw [renderElems, utf8Length_cons, utf8Length_append, ih, map_cons, sum_cons,
      length_cons, size, show (',' : Char).utf8Size = 1 from rfl]
    omega

theorem utf8Length_renderMembers (ms : List (String × Json)) :
    utf8Length (renderMembers ms) =
      (ms.map fun m ↦ stringSize m.1 + 1 + m.2.size).sum + ms.length + 1 := by
  induction ms with
  | nil => rfl
  | cons m ms ih =>
    rw [renderMembers, utf8Length_cons, utf8Length_append, utf8Length_cons, utf8Length_append, ih,
      map_cons, sum_cons, length_cons, size, stringSize,
      show (',' : Char).utf8Size = 1 from rfl, show (':' : Char).utf8Size = 1 from rfl]
    omega

theorem size_arr (xs : List Json) :
    (Json.arr xs).size = (xs.map size).sum + (xs.length - 1) + 2 := by
  cases xs with
  | nil => rfl
  | cons x xs =>
    rw [size, render, utf8Length_cons, utf8Length_append, utf8Length_renderElems, map_cons,
      sum_cons, length_cons, size, show ('[' : Char).utf8Size = 1 from rfl]
    omega

theorem size_obj (ms : List (String × Json)) :
    (Json.obj ms).size =
      (ms.map fun m ↦ stringSize m.1 + 1 + m.2.size).sum + (ms.length - 1) + 2 := by
  cases ms with
  | nil => rfl
  | cons m ms =>
    rw [size, render, utf8Length_cons, utf8Length_append, utf8Length_cons, utf8Length_append,
      utf8Length_renderMembers, map_cons, sum_cons, length_cons, size, stringSize,
      show ('\x7b' : Char).utf8Size = 1 from rfl, show (':' : Char).utf8Size = 1 from rfl]
    omega

/-- The sizes of the elements of a typed sequence. -/
theorem size_toJson_list {α : Type} [Codec α] (xs : List α) :
    (toJson xs).size = (xs.map fun x ↦ (encode x).length).sum + (xs.length - 1) + 2 := by
  change (Json.arr (xs.map toJson)).size = _
  rw [size_arr, map_map, length_map]
  simp only [Function.comp_def, encode, length_bytes]

/-- A typed sequence as a member of an object. -/
theorem size_obj_list {α : Type} [Codec α] (ms ms' : List (String × Json)) (name : String)
    (xs : List α) :
    (Json.obj (ms ++ (name, toJson xs) :: ms')).size =
      (Json.obj (ms ++ (name, toJson ([] : List α)) :: ms')).size
        + (xs.map fun x ↦ (encode x).length).sum + (xs.length - 1) := by
  simp only [size_obj, map_append, map_cons, sum_append, sum_cons,
    length_append, length_cons, size_toJson_list, map_nil, sum_nil, length_nil]
  omega

/-! ## Bounds -/

theorem utf8Length_escapeChar_le (c : Char) : utf8Length (escapeChar c) ≤ 12 * c.utf8Size := by
  have hpos := c.utf8Size_pos
  have hshort : ∀ d : Char, d.utf8Size = 1 → utf8Length ['\\', d] ≤ 12 * c.utf8Size := by
    intro d hd
    rw [utf8Length_cons, utf8Length_cons, utf8Length_nil, hd, show ('\\' : Char).utf8Size =
      1 from rfl]
    omega
  rw [escapeChar]
  split_ifs
  · exact hshort _ rfl
  · exact hshort _ rfl
  · exact hshort _ rfl
  · exact hshort _ rfl
  · exact hshort _ rfl
  · exact hshort _ rfl
  · exact hshort _ rfl
  · have hhigh := (hexDigit (c.toNat / 16)).utf8Size_le_four
    have hlow := (hexDigit (c.toNat % 16)).utf8Size_le_four
    simp only [utf8Length_cons, utf8Length_nil, show ('\\' : Char).utf8Size = 1 from rfl,
      show ('u' : Char).utf8Size = 1 from rfl, show ('0' : Char).utf8Size = 1 from rfl]
    omega
  · rw [utf8Length_cons, utf8Length_nil]
    omega

theorem stringSize_le (s : String) : stringSize s ≤ 12 * utf8Length (chars s) + 2 := by
  have hchars : ∀ cs : List Char, utf8Length (cs.flatMap escapeChar) ≤ 12 * utf8Length cs := by
    intro cs
    induction cs with
    | nil => simp
    | cons c cs ih =>
      have hfirst := utf8Length_escapeChar_le c
      rw [flatMap_cons, utf8Length_append, utf8Length_cons]
      omega
  have h := hchars (chars s)
  rw [stringSize, renderString, utf8Length_cons, utf8Length_append, utf8Length_cons, utf8Length_nil,
    show ('\x22' : Char).utf8Size = 1 from rfl]
  omega

/-- Hexadecimal digits are one byte long. -/
theorem utf8Length_of_isLowerHex {s : String} {n : ℕ} (h : isLowerHex s n = true) :
    utf8Length (chars s) = n := by
  simp only [isLowerHex, Bool.and_eq_true, beq_iff_eq, all_eq_true] at h
  rw [utf8Length_of_ascii, h.1]
  intro c hc
  have hdigit := h.2 c hc
  simp only [Hex.isDigit, Bool.or_eq_true, Bool.and_eq_true, decide_eq_true_eq] at hdigit
  obtain ⟨-, hle⟩ | ⟨-, hle⟩ := hdigit
  · exact utf8Size_of_le hle (by decide)
  · exact utf8Size_of_le hle (by decide)

theorem size_num_le {i : ℤ} (h : i.natAbs < 10 ^ 20) : (Json.num i).size ≤ 21 := by
  have hdigits := Nat.toDigits_length 10 i.natAbs 20 (by norm_num) h
  rw [size, render, renderInt]
  split_ifs
  · rw [utf8Length_cons, utf8Length_toDigits, show ('-' : Char).utf8Size = 1 from rfl]
    omega
  · rw [utf8Length_toDigits]
    omega

theorem size_toNat_le (n : UInt64) : (Json.num n.toNat).size ≤ 21 := by
  refine size_num_le ?_
  rw [Int.natAbs_natCast]
  exact n.toNat_lt.trans (by norm_num)

end Codeclew.Json
