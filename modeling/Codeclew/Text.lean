import Mathlib

/-!
# Text

The characters of a string. A string is stored as its UTF-8 bytes, and reading them one by one is
slow to evaluate; `chars` takes the bytes of an ASCII string as they are. It is the library's
`String.toList` for every string.
-/

namespace Codeclew

open List

/-- The characters of a string. -/
def chars (s : String) : List Char :=
  let bytes := s.toByteArray.data.toList
  if bytes.all (· < 0x80) then bytes.map fun b ↦ Char.ofNat b.toNat else s.toList

/-- `str::len`: the number of UTF-8 bytes. -/
def utf8Length (cs : List Char) : ℕ := (cs.map Char.utf8Size).sum

/-- `u8::is_ascii_control` for some byte of the text. -/
def hasControl (cs : List Char) : Bool := cs.any fun c ↦ c.toNat < 32 || c.toNat == 127

/-- `char::is_control` -/
def isControl (c : Char) : Bool := c.toNat < 0x20 || (0x7f ≤ c.toNat && c.toNat < 0xa0)

/-- `char::is_whitespace` -/
def isWhitespace (c : Char) : Bool :=
  let n := c.toNat
  (9 ≤ n && n ≤ 13) || n = 32 || n = 0x85 || n = 0xA0 || n = 0x1680 ||
    (0x2000 ≤ n && n ≤ 0x200A) || n = 0x2028 || n = 0x2029 || n = 0x202F || n = 0x205F || n = 0x3000

/-- `UnicodeNormalization::nfc`, of which only this is used: whether a text is normalized. -/
class UnicodeNormalization where
  isNfc : String → Bool

/-- A byte with its high bit set is not an ASCII one. -/
theorem not_or_lt {x y : UInt8} (h : y.toBitVec[7] = true) : ¬x ||| y < 0x80 := by
  intro hlt
  have hbit : (x ||| y).toBitVec[7] = true := by simp [h]
  have hsmall : (x ||| y).toBitVec.toNat < 2 ^ 7 := by
    simpa [UInt8.lt_iff_toNat_lt] using hlt
  rw [BitVec.getElem_eq_testBit_toNat, Nat.testBit_lt_two_pow hsmall] at hbit
  cases hbit

/-- An encoding in ASCII bytes is the one byte of an ASCII character. -/
theorem map_utf8EncodeChar_of_lt {c : Char} (h : ∀ b ∈ String.utf8EncodeChar c, b < 0x80) :
    (String.utf8EncodeChar c).map (fun b ↦ Char.ofNat b.toNat) = [c] := by
  obtain h1 | h2 | h3 | h4 := c.utf8Size_eq
  · have hval : c.val ≤ 0x7f := Char.utf8Size_eq_one_iff.mp h1
    have hnat : c.val.toNat ≤ 127 := by simpa [UInt32.le_iff_toNat_le] using hval
    rw [String.utf8EncodeChar_eq_singleton h1, map_singleton, UInt32.toNat_toUInt8,
      Nat.mod_eq_of_lt (by omega)]
    exact congrArg (fun d ↦ [d]) (Char.ofNat_toNat c)
  · rw [String.utf8EncodeChar_eq_cons_cons h2] at h
    exact absurd (h _ mem_cons_self) (not_or_lt (by decide))
  · rw [String.utf8EncodeChar_eq_cons_cons_cons h3] at h
    exact absurd (h _ mem_cons_self) (not_or_lt (by decide))
  · rw [String.utf8EncodeChar_eq_cons_cons_cons_cons h4] at h
    exact absurd (h _ mem_cons_self) (not_or_lt (by decide))

theorem map_flatMap_utf8EncodeChar {l : List Char}
    (h : ∀ b ∈ l.flatMap String.utf8EncodeChar, b < 0x80) :
    (l.flatMap String.utf8EncodeChar).map (fun b ↦ Char.ofNat b.toNat) = l := by
  induction l with
  | nil => rfl
  | cons c l ih =>
    rw [flatMap_cons] at h ⊢
    rw [map_append, map_utf8EncodeChar_of_lt fun b hb ↦ h b (mem_append_left _ hb),
      ih fun b hb ↦ h b (mem_append_right _ hb), singleton_append]

@[simp] theorem chars_eq_toList (s : String) : chars s = s.toList := by
  obtain ⟨l, rfl⟩ : ∃ l, s = String.ofList l := ⟨s.toList, String.ofList_toList.symm⟩
  rw [chars]
  have hbytes : (String.ofList l).toByteArray.data.toList = l.flatMap String.utf8EncodeChar := by
    simp [List.utf8Encode]
  split
  · rename_i hall
    rw [hbytes] at hall ⊢
    rw [String.toList_ofList]
    refine map_flatMap_utf8EncodeChar fun b hb ↦ ?_
    simpa using all_eq_true.mp hall b hb
  · rfl

end Codeclew
