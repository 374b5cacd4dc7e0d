import Codeclew.Cas.Contents
import Codeclew.Names

/-!
# Generations

A generation is the outcome of an analysis: facts, each with a key, the URI of its domain and a
reference to its payload. Each attempt of the analysis ends with a receipt and the number of its
facts.
-/

namespace Codeclew.Generation

open Json Cas

def generationSchema : String := "codeclew-generation-manifest/2.0"

/-! ## Facts -/

/-- `validate_uri`. -/
def validUri (value : String) : Bool :=
  utf8Length (chars value) ≤ 256 && (chars value).contains ':' &&
    !hasControl (chars value) && !(chars value).contains ' '

structure CapabilityUri where
  text : String
  valid : validUri text = true
  deriving DecidableEq

structure FactRecord where
  factKey : String
  domainUri : CapabilityUri
  payload : CasObject
  deriving DecidableEq

def safeFactKey (value : String) : Bool :=
  chars value ≠ [] && utf8Length (chars value) ≤ 4096 && !hasControl (chars value)

/-- `adapter_v2::digest_component`. -/
def digestComponent (value : String) : Except ClewError String :=
  match stripPrefix "sha256:" value with
  | none => .error (invalid "authority digest has no sha256 prefix")
  | some component =>
    if isLowerHex component 64 then .ok component
    else .error (invalid "authority digest is not canonical sha256")

def validateCas (object : CasObject) : Except ClewError Unit := do
  ensure (object.schema = casObjectSchema ∧ object.objectSchema ≠ "")
    (invalid "CAS reference schema is invalid")
  discard <| digestComponent object.digest

/-! ## Attempts -/

structure AnalysisAttemptComplete where
  scopeDigest : String
  completenessReceipt : CasObject
  factCount : UInt64

/-- A capability of an adapter. -/
def analysisFacts : CapabilityUri := ⟨"analysis:facts", by decide⟩

/-! ## Wire forms -/

instance : Codec CapabilityUri where
  toJson uri := .str uri.text
  ofJson? j := j.asStr?.bind fun text ↦ if h : validUri text = true then some ⟨text, h⟩ else none
  levels := 0
  ofJson?_toJson uri := by simp [asStr?, uri.valid]
  valid_toJson _ := trivial
  depth_toJson _ := le_rfl
  toJson_ne_null _ := nofun

end Codeclew.Generation
