import Codeclew.Json.Value
import Codeclew.Text

/-!
# Compact JSON text

The compact printer: no white space, members in the order the object lists them, and a string
escapes the quote, the backslash and the control characters, the five of them that have a short
form in that form. Text is a list of characters; `Json.bytes` is its UTF-8 encoding, and no byte
of it is a line feed.
-/

namespace Codeclew

/-- A file or a message: a list of bytes. -/
abbrev Bytes := List UInt8

namespace Json

/-! ## Strings and numbers -/

def hexDigit (n : ℕ) : Char := Nat.digitChar n

/-- A character inside a string literal. -/
def escapeChar (c : Char) : List Char :=
  if c = '\x22' then ['\\', '\x22']
  else if c = '\\' then ['\\', '\\']
  else if c = '\x08' then ['\\', 'b']
  else if c = '\x0c' then ['\\', 'f']
  else if c = '\n' then ['\\', 'n']
  else if c = '\r' then ['\\', 'r']
  else if c = '\t' then ['\\', 't']
  else if c.toNat < 0x20 then
    ['\\', 'u', '0', '0', hexDigit (c.toNat / 16), hexDigit (c.toNat % 16)]
  else [c]

def renderString (s : String) : List Char :=
  '\x22' :: ((chars s).flatMap escapeChar ++ ['\x22'])

def renderInt (n : Int) : List Char :=
  if n < 0 then '-' :: Nat.toDigits 10 n.natAbs else Nat.toDigits 10 n.natAbs

/-! ## Values -/

mutual

/-- The compact text of a value. -/
def render : Json → List Char
  | .null => ['n', 'u', 'l', 'l']
  | .bool true => ['t', 'r', 'u', 'e']
  | .bool false => ['f', 'a', 'l', 's', 'e']
  | .num n => renderInt n
  | .float literal => chars literal
  | .str s => renderString s
  | .arr [] => ['[', ']']
  | .arr (x :: xs) => '[' :: (render x ++ renderElems xs)
  | .obj [] => ['\x7b', '\x7d']
  | .obj ((k, v) :: ms) => '\x7b' :: (renderString k ++ ':' :: (render v ++ renderMembers ms))

/-- What follows an element: the further elements and the closing bracket. -/
def renderElems : List Json → List Char
  | [] => [']']
  | x :: xs => ',' :: (render x ++ renderElems xs)

/-- What follows a member: the further members and the closing brace. -/
def renderMembers : List (String × Json) → List Char
  | [] => ['\x7d']
  | (k, v) :: ms => ',' :: (renderString k ++ ':' :: (render v ++ renderMembers ms))

end

/-- UTF-8. -/
def encodeUtf8 (cs : List Char) : Bytes := cs.flatMap String.utf8EncodeChar

/-- The compact document of a value. -/
def bytes (j : Json) : Bytes := encodeUtf8 j.render

theorem render_ne_nil : ∀ j : Json, j.Printable → j.render ≠ []
  | .null, _ | .bool true, _ | .bool false, _ | .str _, _ | .arr [], _ | .arr (_ :: _), _
  | .obj [], _ | .obj ((_, _) :: _), _ => by simp [render, renderString]
  | .num n, _ => by
    rw [render, renderInt]
    split
    · simp
    · exact Nat.toDigits_ne_nil

theorem bytes_ne_nil {j : Json} (hj : j.Valid) : j.bytes ≠ [] := by
  rw [bytes, encodeUtf8, ne_eq, List.flatMap_eq_nil_iff, not_forall]
  obtain ⟨c, hc⟩ := List.exists_mem_of_ne_nil _ (render_ne_nil j hj.printable)
  exact ⟨c, fun h ↦ String.utf8EncodeChar_ne_nil (h hc)⟩

end Json

end Codeclew
