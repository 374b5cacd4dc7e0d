import Codeclew.Mission.Ledger
import Codeclew.Query.Terms
import Codeclew.Ranking

/-!
# Candidates

A context retains the facts that its terms have matched, and windows of the sources. Navigation
lists the declarations among the facts by how well they fit the terms, and describes the first three
of them. If the caller declares an identifier to decide about, declarations of that name come first.

Of a result only the candidates are modelled. The anchors of terms, the facets and the authority of
a decision are computed beside them; they have no influence on the candidates.
-/

namespace Codeclew.Navigation

open Json Query

/-! ## Contexts -/

structure ContextObject where
  contextId : String
  sessionId : String
  parentContextId : Option String
  terms : List String
  evidence : Json

def retainedContext (context : ContextObject) : Except ClewError Json :=
  match context.evidence.get? "context" with
  | some retained => .ok retained
  | none => .error (invalid "context has no retained navigation evidence")

/-- `str::to_lowercase`. It is not the lower case of each character, since it looks at what is
around a capital sigma. -/
class TextCase where
  lowercase : List Char → List Char

export TextCase (lowercase)

/-! ## Payloads -/

def u64Member (value : Json) (key : String) : Option ℕ :=
  ((value.get? key).bind asU64?).map UInt64.toNat

def requiredString (value : Json) (key : String) : Except ClewError String :=
  match textMember value key with
  | some text => .ok text
  | none => .error (invalid ("navigation match has no " ++ key))

/-- `eq_ignore_ascii_case`. -/
def eqIgnoreAsciiCase (a b : String) : Bool :=
  (chars a).map Char.toLower == (chars b).map Char.toLower

def isDeclaration (payload : Json) : Bool :=
  (textMember payload "kind").any (eqIgnoreAsciiCase · "declaration") ||
    ((payload.get? "declarationKind").isSome && (payload.get? "symbolIdentity").isSome)

/-- The members that name a declaration. -/
def nameKeys : List String := ["name", "qualifiedName", "symbolIdentity", "ownerIdentity"]

def displayName (payload : Json) : Option String := nameKeys.findSome? (textMember payload)

def candidateMatchesDeclaredIdentifier (payload : Json) (decisionIdentifier : String) : Bool :=
  (["name", "qualifiedName", "symbolIdentity"].filterMap (textMember payload)).any
    (· == decisionIdentifier)

/-! ## Sources -/

structure ExactSource where
  row : Json
  window : Json

/-- The windows of a row; a row without windows is its own. -/
def windowsOf (row : Json) : List ExactSource :=
  match (row.get? "windows").bind asArr? with
  | some (window :: windows) => (window :: windows).map (⟨row, ·⟩)
  | _ => [⟨row, row⟩]

/-- Smaller windows are preferred, then those that start earlier. -/
def ExactSource.extent (source : ExactSource) : ℕ ×ₗ ℕ :=
  let start := (u64Member source.window "startLine").getD 0
  let stop := (u64Member source.window "endLine").getD (2 ^ 64 - 1)
  toLex (stop - start, start)

/-- The smallest window that has a declaration. -/
def exactSource (sources : List Json) (payload : Json) : Option ExactSource := do
  let file ← textMember payload "file"
  let declarationStart ← u64Member payload "startLine"
  let declarationEnd ← u64Member payload "endLine"
  let rows := sources.filter fun row ↦ textMember row "fileId" = some file
  ((rows.flatMap windowsOf).filter fun source ↦
    (u64Member source.window "startLine").any (· ≤ declarationStart) &&
      (u64Member source.window "endLine").any (declarationEnd ≤ ·)).argmin ExactSource.extent

def lines (text : String) : List (List Char) := (chars text).splitOn '\n'

/-- The lines of a declaration. -/
def exactDeclarationText (sources : List Json) (payload : Json) : Option (List Char) := do
  let source ← exactSource sources payload
  let windowStart ← u64Member source.window "startLine"
  let declarationStart ← u64Member payload "startLine"
  let declarationEnd ← u64Member payload "endLine"
  guard (windowStart ≤ declarationStart ∧ declarationStart ≤ declarationEnd)
  let start := declarationStart - windowStart
  let count := declarationEnd - declarationStart + 1
  let text ← textMember source.window "text"
  guard (start + count ≤ (lines text).length)
  return ['\n'].intercalate (((lines text).drop start).take count)

/-! ## Relevance -/

/-- `str::matches(..).count()`: occurrences that do not overlap. The next `skip` characters belong
to an occurrence that was counted. -/
def countMatches (pattern : List Char) (skip : ℕ) : List Char → ℕ
  | [] => if pattern = [] ∧ skip = 0 then 1 else 0
  | c :: cs =>
    match skip with
    | skip + 1 => countMatches pattern skip cs
    | 0 =>
      if pattern <+: c :: cs then 1 + countMatches pattern (pattern.length - 1) cs
      else countMatches pattern 0 cs

def occurrencesOf (term : String) (text : List Char) : ℕ := countMatches (chars term) 0 text

/-- How many terms occur, how many in the names, and how often they do. -/
def candidateRelevance [TextCase] (payload : Json) (sources : List Json) (terms : List String) :
    ℕ × ℕ × ℕ :=
  let nameText := lowercase
    (['\n'].intercalate ((nameKeys.filterMap (textMember payload)).map chars))
  let sourceText := lowercase ((exactDeclarationText sources payload).getD [])
  let inNames term := occurrencesOf term nameText
  let inSource term := occurrencesOf term sourceText
  (terms.countP fun term ↦ 0 < inNames term + inSource term, terms.countP fun term ↦
    0 < inNames term, (terms.map fun term ↦ inNames term + inSource term).sum)

/-- How many terms occur in the window of a declaration, and how often. -/
def sourceWindowRelevance [TextCase] (sources : List Json) (payload : Json) (terms : List String) :
    ℕ × ℕ :=
  match (exactSource sources payload).bind fun source ↦ textMember source.window "text" with
  | none => (0, 0)
  | some text =>
    let text := lowercase (chars text)
    (terms.countP fun term ↦ 0 < occurrencesOf term text,
      (terms.map fun term ↦ occurrencesOf term text).sum)

/-! ## Descriptions -/

structure CandidateKey where
  compilation : String
  factKey : String
  deriving DecidableEq

structure Candidate where
  candidateId : String
  candidateKey : CandidateKey
  displayName : String
  displayNameTruncated : Bool
  declarationKind : Option String
  declarationKindTruncated : Bool
  symbolIdentity : Option String
  symbolIdentityTruncated : Bool
  file : Option String
  fileTruncated : Bool
  startLine : Json
  endLine : Json
  start : Json
  stop : Json
  preview : Json
  deriving DecidableEq

/-- The longest beginning of a text within a number of bytes. -/
def takeBytes (limit : ℕ) : List Char → List Char
  | [] => []
  | c :: cs => if c.utf8Size ≤ limit then c :: takeBytes (limit - c.utf8Size) cs else []

def boundedLine (line : List Char) (limit : ℕ) : String × Bool :=
  if utf8Length line ≤ limit then (String.ofList line, false)
  else (String.ofList (takeBytes limit line), true)

def boundedOptionalString (value : Option String) (limit : ℕ) : Option String × Bool :=
  match value with
  | none => (none, false)
  | some value => ((boundedLine (chars value) limit).map some id)

def unavailable (reason : String) : Json :=
  .obj [("reason", .str reason), ("status", .str "UNAVAILABLE")]

def exactSourcePreview (sources : List Json) (payload : Json) : Json :=
  match exactSource sources payload with
  | none => unavailable "NO_EXACT_DECLARATION_WINDOW"
  | some source =>
    match u64Member payload "startLine" with
    | none => unavailable "NO_EXACT_LINE_RANGE"
    | some declarationStart =>
      match u64Member source.window "startLine" with
      | none => unavailable "SOURCE_WINDOW_HAS_NO_LINE_RANGE"
      | some windowStart =>
        match textMember source.window "text" with
        | none => unavailable "SOURCE_WINDOW_HAS_NO_TEXT"
        | some text =>
          match (lines text)[declarationStart - windowStart]? with
          | none => unavailable "DECLARATION_LINE_NOT_RETAINED"
          | some line =>
            let (text, lineTruncated) := boundedLine line 512
            let contentDigest := ((source.row.get? "contentRef").bind (textMember · "digest"))
            .obj [("authority", .str "EXACT_SNAPSHOT_TEXT"),
              ("contentDigest", (contentDigest.map Json.str).getD .null),
              ("endLine", .num declarationStart), ("startLine", .num declarationStart),
              ("status", .str "EXACT"), ("text", .str text),
              ("truncated",
                .bool (lineTruncated || u64Member payload "endLine" != some declarationStart))]

def candidateHandle [Sha256] (key : CandidateKey) : String :=
  let digest := hashBytes
    (obj [("compilation", .str key.compilation), ("factKey", .str key.factKey)]).bytes
  "c:" ++ String.ofList (((chars digest).drop 7).take 16)

/-! ## Declarations -/

/-- A declaration among the matches, with what it is listed by. -/
structure Declaration where
  candidateKey : CandidateKey
  payload : Json
  windowCoverage : ℕ
  termCoverage : ℕ
  nameCoverage : ℕ
  occurrences : ℕ
  windowOccurrences : ℕ
  ordinal : ℕ

/-- Declarations of the declared name come first, then those with the higher scores; at last the
order of the matches decides. -/
def Declaration.rank (decisionIdentifier : Option String) (d : Declaration) :
    ℕᵒᵈ ×ₗ ℕᵒᵈ ×ₗ ℕᵒᵈ ×ₗ ℕᵒᵈ ×ₗ ℕᵒᵈ ×ₗ ℕᵒᵈ ×ₗ ℕ :=
  let identifierMatch :=
    if decisionIdentifier.any (candidateMatchesDeclaredIdentifier d.payload) then 1 else 0
  toLex (.toDual identifierMatch, toLex (.toDual d.windowCoverage, toLex (.toDual d.termCoverage,
    toLex (.toDual d.nameCoverage, toLex (.toDual d.occurrences,
      toLex (.toDual d.windowOccurrences, d.ordinal))))))

/-- `MAX_NAV_CANDIDATES`. -/
def maxNavCandidates : ℕ := 3

def Declaration.candidate [Sha256] (sources : List Json) (d : Declaration) : Candidate :=
  let (displayName, displayNameTruncated) :=
    boundedLine (chars ((displayName d.payload).getD d.candidateKey.factKey)) 512
  let (declarationKind, declarationKindTruncated) :=
    boundedOptionalString (textMember d.payload "declarationKind") 512
  let (symbolIdentity, symbolIdentityTruncated) :=
    boundedOptionalString (textMember d.payload "symbolIdentity") 512
  let (file, fileTruncated) := boundedOptionalString (textMember d.payload "file") 512
  { candidateId := candidateHandle d.candidateKey
    candidateKey := d.candidateKey
    displayName, displayNameTruncated, declarationKind, declarationKindTruncated
    symbolIdentity, symbolIdentityTruncated, file, fileTruncated
    startLine := d.payload.getD "startLine"
    endLine := d.payload.getD "endLine"
    start := ((d.payload.get? "start").or (d.payload.get? "rangeStart")).getD .null
    stop := ((d.payload.get? "end").or (d.payload.get? "rangeEnd")).getD .null
    preview := exactSourcePreview sources d.payload }

section

variable [Sha256] [Unicode] [TextCase]

/-- One match: a declaration is added, unless its handle is taken. -/
def addDeclaration (sources : List Json) (terms : List String) (found : List Declaration)
    (entry : Json × ℕ) : Except ClewError (List Declaration) :=
  let (matched, ordinal) := entry
  match (matched.get? "payload").bind asObj? with
  | none => .ok found
  | some members => do
    let payload := obj members
    if isDeclaration payload then
      let factKey ← requiredString matched "factKey"
      let compilation ← requiredString matched "compilation"
      let key : CandidateKey := ⟨compilation, factKey⟩
      ensure (candidateHandle key ∉ found.map fun d ↦ candidateHandle d.candidateKey)
        (invalid "navigation candidate handle collision")
      let (termCoverage, nameCoverage, occurrences) := candidateRelevance payload sources terms
      let (windowCoverage, windowOccurrences) := sourceWindowRelevance sources payload terms
      return found ++ [{ candidateKey := key, payload, windowCoverage, termCoverage, nameCoverage,
                         occurrences, windowOccurrences, ordinal }]
    else return found

/-- The arrays of a retained context. -/
def arrayMember (retained : Json) (key what : String) : Except ClewError (List Json) :=
  match (retained.get? key).bind asArr? with
  | some values => .ok values
  | none => .error (invalid ("retained navigation context has no " ++ what ++ " array"))

/-- The identifier is a proper one and belongs to the terms. -/
def checkIdentifier (terms : List String) (identifier : String) : Except ClewError Unit := do
  let cs := chars identifier
  ensure (cs ≠ [] ∧ utf8Length cs ≤ 1024 ∧ (cs.head?.any isWhitespace = false) ∧
      (cs.getLast?.any isWhitespace = false) ∧
      (cs.any fun c ↦ c.toNat < 32 || (127 ≤ c.toNat && c.toNat < 160)) = false)
    (invalid "navigation decision identifier is invalid")
  ensure (normalizeTerms [identifier] ≠ [] ∧ ∀ term ∈ normalizeTerms [identifier], term ∈ terms)
    (invalid "navigation decision identifier is not bound to the query terms")

/-- What is listed: the sources and the declarations. -/
def declarations (context : ContextObject) (decisionIdentifier : Option String) :
    Except ClewError (List Json × List Declaration) := do
  let retained ← retainedContext context
  let matched ← arrayMember retained "matches" "match"
  let sources ← arrayMember retained "sources" "source"
  let terms := normalizeTerms context.terms
  decisionIdentifier.forM (checkIdentifier terms)
  let found ← matched.zipIdx.foldlM (addDeclaration sources terms) []
  return (sources, found)

/-- The candidates of a view, as `assemble_with_decision_identifier` has them. -/
def assembleWithDecisionIdentifier (context : ContextObject) (decisionIdentifier : Option String) :
    Except ClewError (List Candidate) := do
  let (sources, found) ← declarations context decisionIdentifier
  return (Ranking.best (Declaration.rank decisionIdentifier) maxNavCandidates found).map
    (Declaration.candidate sources)

end

end Codeclew.Navigation
