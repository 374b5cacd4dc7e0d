import Codeclew.Cas.Types
import Codeclew.Program

/-!
# References and names

The digest that names an object, the checks that references and manifests must pass, and the names
of the catalog's files. A well-spelled digest is the text of exactly one array of bytes, and the
texts are ordered as the arrays are.
-/

namespace Codeclew.Cas

/-! ## References -/

/-- The largest `usize`. -/
def usizeMax : ℕ := 2 ^ 64 - 1

def casDomain : Bytes := Json.encodeUtf8 (chars "codeclew-cas/v2\x00")

/-- The digest that names an object: of its schema and its bytes. -/
def objectDigest [Sha256] (objectSchema : String) (bytes : Bytes) : String :=
  hashBytes (casDomain ++ Json.encodeUtf8 (chars objectSchema) ++ [0] ++ bytes)

/-- The digits of a well-spelled digest. -/
def digestComponent (value : String) : Except ClewError String :=
  match stripPrefix "sha256:" value with
  | none => .error (corrupt "CAS digest prefix is invalid")
  | some component =>
    if isLowerHex component 64 then .ok component
    else .error (corrupt "CAS digest spelling is invalid")

section

variable (digest : Vector UInt8 32)

theorem isLowerHex_digestHex : isLowerHex (digestHex digest) 64 := by
  rw [isLowerHex, digestHex, chars_eq_toList, String.toList_ofList, Bool.and_eq_true]
  constructor
  · simp
  · exact List.all_eq_true.mpr fun c hc ↦ Hex.isDigit_of_mem_encode hc

theorem stripPrefix_digestText :
    stripPrefix "sha256:" (digestText digest) = some (digestHex digest) := by
  rw [stripPrefix, digestText, chars_eq_toList, chars_eq_toList, String.toList_append,
    if_pos (List.prefix_append _ _), List.drop_left, String.ofList_toList]

@[simp] theorem digestComponent_digestText :
    digestComponent (digestText digest) = .ok (digestHex digest) := by
  rw [digestComponent, stripPrefix_digestText]
  simp only [isLowerHex_digestHex, if_true]

end

theorem digestHex_injective : Function.Injective digestHex := by
  intro a b h
  have hd := congrArg (Hex.decode ∘ String.toList) h
  simp only [Function.comp_apply, digestHex, String.toList_ofList, Hex.decode_encode,
    Option.some.injEq] at hd
  exact Vector.toList_inj.mp hd

/-- A well-spelled digest is the text of some bytes. -/
theorem exists_digestText {value component : String} (h : digestComponent value = .ok component) :
    ∃ digest, digestText digest = value ∧ digestHex digest = component := by
  rw [digestComponent, stripPrefix, chars_eq_toList, chars_eq_toList] at h
  by_cases hpre : "sha256:".toList <+: value.toList
  · obtain ⟨rest, hrest⟩ := hpre
    rw [if_pos ⟨rest, hrest⟩, ← hrest, List.drop_left] at h
    simp only at h
    split at h
    · next hhex =>
      obtain rfl := Except.ok.inj h
      simp only [isLowerHex, chars_eq_toList, String.toList_ofList, Bool.and_eq_true,
        beq_iff_eq, List.all_eq_true] at hhex
      obtain ⟨bytes, rfl⟩ := Hex.exists_encode_eq hhex.2 (by rw [hhex.1]; decide)
      have hlen : bytes.length = 32 := by
        have := hhex.1
        rw [Hex.length_encode] at this
        omega
      refine ⟨⟨bytes.toArray, by simpa using hlen⟩, ?_, ?_⟩
      · refine String.toList_inj.mp ?_
        rw [digestText, String.toList_append, digestHex, String.toList_ofList, ← hrest]
        simp
      · rfl
    · cases h
  · rw [if_neg hpre] at h
    cases h

/-- The bytes of a digest. -/
def binaryDigest (digest : String) : Except ClewError (Vector UInt8 32) := do
  let component ← digestComponent digest
  match Hex.decode (chars component) with
  | some bytes =>
    if h : bytes.length = 32 then return ⟨bytes.toArray, h⟩
    else throw (corrupt "catalog lookup digest is invalid")
  | none => throw (corrupt "catalog lookup digest is invalid")

/-- The bytes as numbers; digests are ordered by them, the first one first. -/
def digestKey (digest : Vector UInt8 32) : List ℕ := digest.toList.map UInt8.toNat

def isSchemaChar (c : Char) : Bool :=
  ('0' ≤ c && c ≤ '9') || ('a' ≤ c && c ≤ 'z') || ('A' ≤ c && c ≤ 'Z') ||
    c == '-' || c == '_' || c == '.' || c == '/'

def validateObjectSchema (value : String) : Except ClewError Unit :=
  if chars value = [] ∨ (chars value).length > 128 ∨ ¬(chars value).all isSchemaChar then
    .error (invalid "CAS object schema is not a bounded canonical identifier")
  else .ok ()

def validateReference (object : CasObject) : Except ClewError Unit := do
  if object.schema ≠ casObjectSchema ∨ object.size.toNat > usizeMax then
    throw (corrupt "CAS object reference is invalid")
  validateObjectSchema object.objectSchema
  discard <| digestComponent object.digest

/-- The entries cover the data from `offset` on, without a gap: where they end. -/
def validateEntries : List PackEntry → (offset : UInt64) → Except ClewError UInt64
  | [], offset => .ok offset
  | entry :: entries, offset => do
    validateReference entry.object
    if entry.offset ≠ offset then
      throw (corrupt "CAS pack object offsets are not contiguous")
    if offset.toNat + entry.object.size.toNat ≥ 2 ^ 64 then
      throw (corrupt "CAS pack object range overflow")
    validateEntries entries (offset + entry.object.size)

def validatePackManifest [Sha256] (dataName : String) (manifest : PackManifest) :
    Except ClewError Unit := do
  if manifest.schema ≠ casPackSchema then
    throw (corrupt "CAS pack schema is invalid")
  let component ← digestComponent (hashBytes (Json.encode manifest))
  if dataName ≠ component ++ ".pack" then
    throw (corrupt "CAS pack data name differs from its manifest")
  discard <| digestComponent manifest.dataSha256
  let end_ ← validateEntries manifest.objects 0
  if end_ ≠ manifest.dataSize then
    throw (corrupt "CAS pack object ranges do not cover pack data")

/-- A number in twenty decimal digits. -/
def pad20 (n : ℕ) : String := String.ofList (List.leftpad 20 '0' (Nat.toDigits 10 n))

def catalogRecordName (sequence : UInt64) (digest : String) : Except ClewError String := do
  let component ← digestComponent digest
  return pad20 sequence.toNat ++ "-" ++ component ++ ".record"

/-- `str::parse::<u64>`: decimal digits, after a sign or not. -/
def parseU64 (text : List Char) : Option UInt64 :=
  let digits := if text.head? = some '+' then text.tail else text
  let n := Nat.ofDigitChars 10 digits 0
  if digits = [] ∨ ¬digits.all Char.isDigit ∨ 2 ^ 64 ≤ n then none else some (UInt64.ofNat n)

/-- The number in a record's name. -/
def catalogRecordSequence (name : String) : Option UInt64 :=
  match (chars name).dropWhile (· ≠ '-') with
  | [] => none
  | _ :: suffix =>
    let sequence := (chars name).takeWhile (· ≠ '-')
    if sequence.length ≠ 20 ∨ ¬chars ".record" <:+ suffix then none else parseU64 sequence

theorem toList_pad20 (n : UInt64) :
    (pad20 n.toNat).toList = List.replicate (20 - (Nat.toDigits 10 n.toNat).length) '0'
      ++ Nat.toDigits 10 n.toNat := by
  rw [pad20, String.toList_ofList, List.leftpad]

theorem length_toList_pad20 (n : UInt64) : (pad20 n.toNat).toList.length = 20 := by
  have h : (Nat.toDigits 10 n.toNat).length ≤ 20 :=
    (Nat.length_toDigits_le_iff (by norm_num) (by norm_num)).mpr
      (n.toNat_lt.trans_le (by norm_num))
  rw [pad20, String.toList_ofList, List.length_leftpad]
  omega

theorem isDigit_of_mem_pad20 {n : UInt64} {c : Char} (h : c ∈ (pad20 n.toNat).toList) :
    c.isDigit = true := by
  rw [toList_pad20, List.mem_append] at h
  rcases h with h | h
  · rw [List.eq_of_mem_replicate h]
    rfl
  · exact Nat.isDigit_of_mem_toDigits (by norm_num) le_rfl h

theorem ofDigitChars_pad20 (n : UInt64) :
    Nat.ofDigitChars 10 (pad20 n.toNat).toList 0 = n.toNat := by
  rw [toList_pad20, Nat.ofDigitChars_append, Nat.ofDigitChars_replicate_zero, Nat.mul_zero,
    Nat.ofDigitChars_ten_toDigits]

end Codeclew.Cas
