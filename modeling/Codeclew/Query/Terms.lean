import Codeclew.Collections
import Codeclew.Generation

/-!
# Terms

The terms under which a fact can be found. Texts are cut into words, which are written in lower
case; identifiers are also cut where their spelling changes, and underscores join or separate. Names
of declarations give terms of their own, with a prefix that no word has.

Which characters are letters, digits, upper or lower case, and what the lower case of a character
is, are parameters.
-/

namespace Codeclew.Query

open Json Cas Generation

/-! ## Characters -/

/-- The properties of characters that the program asks the Unicode tables for. -/
class Unicode where
  toLowercase : Char → List Char
  isAlphanumeric : Char → Bool
  isUppercase : Char → Bool
  isLowercase : Char → Bool
  isNumeric : Char → Bool

export Unicode (toLowercase isAlphanumeric isUppercase isLowercase isNumeric)

/-- U+0130, an I with a dot. -/
def dottedCapitalI : Char := Char.ofNat 0x130

/-- U+0307, the dot as a mark on the character before it. -/
def combiningDot : Char := Char.ofNat 0x307

/-- The properties of the ASCII characters and of one more letter, the dotted capital I. Its lower
case is an i and a combining dot, and the dot is no letter. -/
@[reducible] def Unicode.basic : Unicode where
  toLowercase c := if c = dottedCapitalI then ['i', combiningDot] else [c.toLower]
  isAlphanumeric c := c.isAlphanum || c == dottedCapitalI
  isUppercase c := c.isUpper || c == dottedCapitalI
  isLowercase c := c.isLower
  isNumeric c := c.isDigit

/-- The texts of a list in order, each once. -/
def sortDedup (texts : List String) : List String := KeyedSet.ofList id texts

section Words

variable [Unicode]

def isWord (c : Char) : Bool := isAlphanumeric c || c == '_'

/-! ## Words -/

/-- The words of a text in lower case, from inside a word that has begun with `current`. A word that
gets too long is forgotten, and what follows starts anew. -/
def scanTerms (current : List Char) : List Char → List (List Char)
  | [] => if utf8Length current ≥ 2 then [current] else []
  | c :: cs =>
    if isWord c then
      if utf8Length (current ++ [c]) > 256 then scanTerms [] cs else scanTerms (current ++ [c]) cs
    else if utf8Length current ≥ 2 then current :: scanTerms [] cs
    else scanTerms [] cs

def normalizeTerms (values : List String) : List String :=
  sortDedup (values.flatMap fun value ↦
    (scanTerms [] ((chars value).flatMap toLowercase)).map String.ofList)

/-! ## Identifiers -/

/-- Whether a part of an identifier begins at `current`. -/
def boundary (previous : Option Char) (current : Char) (next : Option Char) : Bool :=
  isUppercase current && previous.any fun previous ↦
    isLowercase previous || isNumeric previous ||
      (isUppercase previous && next.any fun next ↦ isLowercase next)

/-- The parts of an identifier without underscores, from inside one. -/
def camelParts (part : List Char) : List Char → List (List Char)
  | [] => [part]
  | c :: cs =>
    if boundary part.getLast? c cs.head? then part :: camelParts [c] cs
    else camelParts (part ++ [c]) cs

def splitIdentifier (token : List Char) : List (List Char) :=
  (token.splitOn '_').flatMap fun
    | [] => []
    | c :: cs => camelParts [c] cs

/-- The alias that a part of an identifier gives. -/
def identifierAlias (part : List Char) : Option (List Char) :=
  let name := part.flatMap toLowercase
  if 2 ≤ utf8Length name ∧ utf8Length name ≤ 256 then some name else none

end Words

/-! ## Derived terms -/

/-- What is before and after the last `c`. -/
def rsplitOnce (c : Char) (cs : List Char) : Option (List Char × List Char) :=
  if c ∈ cs then
    some ((cs.reverse.dropWhile (· ≠ c)).tail.reverse, (cs.reverse.takeWhile (· ≠ c)).reverse)
  else none

/-- A key without the digest it ends with. -/
def semanticFactKey (value : String) : String :=
  match rsplitOnce ':' (chars value) with
  | none => value
  | some (before, after) =>
    if isLowerHex (String.ofList after) 64 then String.ofList before else value

def directNameTerm (term : String) : String := "codeclewdirectname_" ++ term

/-- The other spelling under which a term is looked up: without its underscores. -/
def queryAliases (term : String) : List String :=
  if '_' ∈ chars term then
    let collapsed := (chars term).filter (· ≠ '_')
    if utf8Length collapsed ≥ 2 ∧ collapsed ≠ chars term then [String.ofList collapsed] else []
  else []

/-- A member of a payload that is a text. -/
def textMember (payload : Json) (key : String) : Option String := (payload.get? key).bind asStr?

end Codeclew.Query
