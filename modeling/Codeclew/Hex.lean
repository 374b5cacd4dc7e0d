import Codeclew.Json.Render

/-!
# Hexadecimal text

Two lower-case digits for each byte, the higher one first.
-/

namespace Codeclew.Hex

open List

/-- The byte's two digits. -/
def encodeByte (b : UInt8) : List Char :=
  [Nat.digitChar (b.toNat / 16), Nat.digitChar (b.toNat % 16)]

def encode (bytes : Bytes) : List Char := bytes.flatMap encodeByte

/-- A lower-case hexadecimal digit. -/
def isDigit (c : Char) : Bool := ('0' ≤ c && c ≤ '9') || ('a' ≤ c && c ≤ 'f')

theorem isDigit_digitChar : ∀ n, n < 16 → isDigit (Nat.digitChar n) = true := by decide

@[simp] theorem length_encode (bytes : Bytes) : (encode bytes).length = 2 * bytes.length := by
  induction bytes with
  | nil => rfl
  | cons b bytes ih =>
    rw [encode, flatMap_cons, length_append, ← encode, ih, length_cons]
    simp [encodeByte]
    omega

theorem isDigit_of_mem_encode {bytes : Bytes} {c : Char} (h : c ∈ encode bytes) :
    isDigit c = true := by
  obtain ⟨b, -, hc⟩ := mem_flatMap.mp h
  have hb := b.toNat_lt
  rcases mem_cons.mp hc with rfl | hc
  · exact isDigit_digitChar _ (by omega)
  · rw [mem_singleton.mp hc]
    exact isDigit_digitChar _ (by omega)

/-! ## Reading -/

/-- The value of a digit. -/
def digitValue (c : Char) : ℕ := if c ≤ '9' then c.toNat - 48 else c.toNat - 87

/-- The bytes of a text of lower-case digits. -/
def decode : List Char → Option Bytes
  | [] => some []
  | [_] => none
  | high :: low :: rest =>
    if isDigit high ∧ isDigit low then
      (decode rest).map (UInt8.ofNat (16 * digitValue high + digitValue low) :: ·)
    else none

theorem digitValue_digitChar : ∀ n, n < 16 → digitValue (Nat.digitChar n) = n := by decide

theorem digitChar_digitValue {c : Char} (h : isDigit c = true) :
    digitValue c < 16 ∧ Nat.digitChar (digitValue c) = c := by
  have hrange : ∀ n, n < 128 → isDigit (Char.ofNat n) = true →
      digitValue (Char.ofNat n) < 16 ∧
        Nat.digitChar (digitValue (Char.ofNat n)) = Char.ofNat n := by decide
  have hc : c.toNat < 128 := by
    simp only [isDigit, Bool.or_eq_true, Bool.and_eq_true, decide_eq_true_eq] at h
    rcases h with ⟨-, h⟩ | ⟨-, h⟩
    · exact lt_of_le_of_lt (UInt32.le_iff_toNat_le.mp h) (by decide)
    · exact lt_of_le_of_lt (UInt32.le_iff_toNat_le.mp h) (by decide)
  have := hrange c.toNat hc
  rw [Char.ofNat_toNat] at this
  exact this h

@[simp] theorem decode_encode (bytes : Bytes) : decode (encode bytes) = some bytes := by
  induction bytes with
  | nil => rfl
  | cons b bytes ih =>
    have hb := b.toNat_lt
    have hhigh : b.toNat / 16 < 16 := by omega
    have hlow : b.toNat % 16 < 16 := by omega
    have hvalue : 16 * (b.toNat / 16) + b.toNat % 16 = b.toNat := by omega
    rw [encode, flatMap_cons, ← encode, encodeByte, cons_append, singleton_append,
      decode, if_pos ⟨isDigit_digitChar _ hhigh, isDigit_digitChar _ hlow⟩, ih,
      digitValue_digitChar _ hhigh, digitValue_digitChar _ hlow, hvalue, Option.map_some,
      UInt8.ofNat_toNat]

/-- A text of digits in pairs is the text of some bytes. -/
theorem exists_encode_eq : ∀ {cs : List Char}, (∀ c ∈ cs, isDigit c = true) → Even cs.length →
    ∃ bytes, encode bytes = cs
  | [], _, _ => ⟨[], rfl⟩
  | [_], _, h => by simp at h
  | high :: low :: cs, hdigits, heven => by
    have hdigits' : ∀ c ∈ cs, isDigit c = true := fun c hc ↦ hdigits c (by simp [hc])
    obtain ⟨bytes, rfl⟩ := exists_encode_eq hdigits' (by simpa [Nat.even_add_one] using heven)
    obtain ⟨hhigh, hhigh'⟩ := digitChar_digitValue (hdigits high (by simp))
    obtain ⟨hlow, hlow'⟩ := digitChar_digitValue (hdigits low (by simp))
    refine ⟨UInt8.ofNat (16 * digitValue high + digitValue low) :: bytes, ?_⟩
    have hvalue : (UInt8.ofNat (16 * digitValue high + digitValue low)).toNat
        = 16 * digitValue high + digitValue low := by
      rw [UInt8.toNat_ofNat']
      omega
    rw [encode, flatMap_cons, ← encode, encodeByte, hvalue,
      show (16 * digitValue high + digitValue low) / 16 = digitValue high by omega,
      show (16 * digitValue high + digitValue low) % 16 = digitValue low by omega, hhigh', hlow']
    rfl

end Codeclew.Hex
