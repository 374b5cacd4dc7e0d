import Codeclew.Json.Render

/-!
# SHA-256

The hash function is a parameter of the development: `Sha256` is any function from messages to
thirty-two bytes, and no result assumes more of it unless its statement says so. `Sha256.standard`
is the function itself, so that what is stated can also be evaluated. Words are natural numbers
below `2 ^ 32`.
-/

namespace Codeclew

/-- A hash function with a digest of thirty-two bytes. -/
class Sha256 where
  digest : Bytes → Vector UInt8 32

namespace Sha256

/-! ## Words -/

def add32 (a b : ℕ) : ℕ := Nat.mod (Nat.add a b) 4294967296

def rotr (x n : ℕ) : ℕ :=
  Nat.mod (Nat.lor (Nat.shiftRight x n) (Nat.shiftLeft x (Nat.sub 32 n))) 4294967296

def xor3 (a b c : ℕ) : ℕ := Nat.xor (Nat.xor a b) c

/-- Thirty-two bits of the fractional part of the cube roots of the first sixty-four primes. -/
def roundConstants : List ℕ :=
  [0x428a2f98, 0x71374491, 0xb5c0fbcf, 0xe9b5dba5, 0x3956c25b, 0x59f111f1, 0x923f82a4, 0xab1c5ed5,
   0xd807aa98, 0x12835b01, 0x243185be, 0x550c7dc3, 0x72be5d74, 0x80deb1fe, 0x9bdc06a7, 0xc19bf174,
   0xe49b69c1, 0xefbe4786, 0x0fc19dc6, 0x240ca1cc, 0x2de92c6f, 0x4a7484aa, 0x5cb0a9dc, 0x76f988da,
   0x983e5152, 0xa831c66d, 0xb00327c8, 0xbf597fc7, 0xc6e00bf3, 0xd5a79147, 0x06ca6351, 0x14292967,
   0x27b70a85, 0x2e1b2138, 0x4d2c6dfc, 0x53380d13, 0x650a7354, 0x766a0abb, 0x81c2c92e, 0x92722c85,
   0xa2bfe8a1, 0xa81a664b, 0xc24b8b70, 0xc76c51a3, 0xd192e819, 0xd6990624, 0xf40e3585, 0x106aa070,
   0x19a4c116, 0x1e376c08, 0x2748774c, 0x34b0bcb5, 0x391c0cb3, 0x4ed8aa4a, 0x5b9cca4f, 0x682e6ff3,
   0x748f82ee, 0x78a5636f, 0x84c87814, 0x8cc70208, 0x90befffa, 0xa4506ceb, 0xbef9a3f7, 0xc67178f2]

/-- The eight working variables. -/
structure Working where
  (a b c d e f g h : ℕ)

def initial : Working :=
  ⟨0x6a09e667, 0xbb67ae85, 0x3c6ef372, 0xa54ff53a, 0x510e527f, 0x9b05688c, 0x1f83d9ab, 0x5be0cd19⟩

/-! ## Blocks -/

/-- The word of the schedule that follows, from the words sixteen, fifteen, seven and two places
before it. -/
def nextWord (w16 w15 w7 w2 : ℕ) : ℕ :=
  let s0 := xor3 (rotr w15 7) (rotr w15 18) (Nat.shiftRight w15 3)
  let s1 := xor3 (rotr w2 17) (rotr w2 19) (Nat.shiftRight w2 10)
  add32 (add32 w16 s0) (add32 w7 s1)

/-- The words of the schedule after the first sixteen, which are given. -/
def schedule : ℕ → (a b c d e f g h i j k l m n o p : ℕ) → List ℕ
  | 0, _, _, _, _, _, _, _, _, _, _, _, _, _, _, _, _ => []
  | left + 1, a, b, c, d, e, f, g, h, i, j, k, l, m, n, o, p =>
    let q := nextWord a b j o
    q :: schedule left b c d e f g h i j k l m n o p q

/-- The words of a block and those derived from them. -/
def expand : List ℕ → List ℕ
  | [a, b, c, d, e, f, g, h, i, j, k, l, m, n, o, p] =>
    a :: b :: c :: d :: e :: f :: g :: h :: i :: j :: k :: l :: m :: n :: o :: p ::
      schedule 48 a b c d e f g h i j k l m n o p
  | _ => []

def round (v : Working) (k w : ℕ) : Working :=
  let s1 := xor3 (rotr v.e 6) (rotr v.e 11) (rotr v.e 25)
  let ch := Nat.xor (Nat.land v.e v.f) (Nat.land (Nat.sub 4294967295 v.e) v.g)
  let t1 := add32 (add32 v.h s1) (add32 (add32 ch k) w)
  let s0 := xor3 (rotr v.a 2) (rotr v.a 13) (rotr v.a 22)
  let maj := xor3 (Nat.land v.a v.b) (Nat.land v.a v.c) (Nat.land v.b v.c)
  ⟨add32 t1 (add32 s0 maj), v.a, v.b, v.c, add32 v.d t1, v.e, v.f, v.g⟩

def rounds : Working → List ℕ → List ℕ → Working
  | v, k :: ks, w :: ws => rounds (round v k w) ks ws
  | v, _, _ => v

/-- Big-endian words. -/
def words : Bytes → List ℕ
  | a :: b :: c :: d :: rest =>
    (((a.toNat * 256 + b.toNat) * 256 + c.toNat) * 256 + d.toNat) :: words rest
  | _ => []

def compress (v : Working) (block : Bytes) : Working :=
  let u := rounds v roundConstants (expand (words block))
  ⟨add32 v.a u.a, add32 v.b u.b, add32 v.c u.c, add32 v.d u.d,
    add32 v.e u.e, add32 v.f u.f, add32 v.g u.g, add32 v.h u.h⟩

/-! ## Messages -/

/-- The big-endian bytes of a number, `n` of them. -/
def bigEndian : ℕ → ℕ → Bytes
  | 0, _ => []
  | n + 1, x => bigEndian n (x / 256) ++ [UInt8.ofNat (x % 256)]

/-- A one bit, zeros up to eight bytes before a block boundary, and the length in bits. -/
def pad (message : Bytes) : Bytes :=
  let zeros := (119 - message.length % 64) % 64
  message ++ 0x80 :: List.replicate zeros 0 ++ bigEndian 8 (8 * message.length)

def blocks : ℕ → Working → Bytes → Working
  | 0, v, _ => v
  | n + 1, v, bytes => blocks n (compress v (bytes.take 64)) (bytes.drop 64)

def hashWords (message : Bytes) : Working :=
  let padded := pad message
  blocks (padded.length / 64) initial padded

theorem length_bigEndian (n x : ℕ) : (bigEndian n x).length = n := by
  induction n generalizing x with
  | zero => rfl
  | succ n ih => rw [bigEndian, List.length_append, ih, List.length_singleton]

/-- The words of a hash, one after the other. -/
def Working.bytes (v : Working) : Bytes :=
  bigEndian 4 v.a ++ (bigEndian 4 v.b ++ (bigEndian 4 v.c ++ (bigEndian 4 v.d ++
    (bigEndian 4 v.e ++ (bigEndian 4 v.f ++ (bigEndian 4 v.g ++ bigEndian 4 v.h))))))

/-- SHA-256. -/
@[reducible] def standard : Sha256 where
  digest message := ⟨(hashWords message).bytes.toArray, by simp [Working.bytes, length_bigEndian]⟩

end Sha256

end Codeclew
