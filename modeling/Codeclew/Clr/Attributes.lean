import Codeclew.Jvm.Annotations

/-!
# Attributes of the CLR

What a compiler observes of one method: the attributes on it, on the methods it overrides and on its
type. An attribute comes with its base classes and interfaces, so that those derived from a known
one can be recognised.
-/

namespace Codeclew.Clr

open Std

def attributeSchema : String := "clr-attribute-facts/1.0"
def attributeAuthority : String := "ROSLYN_RESOLVED_ATTRIBUTES"
def attributeScope : String := "METHOD_TYPE_AND_INHERITED_ATTRIBUTES"
def maxAttributes : ℕ := 512
def maxValueDepth : ℕ := 9
def maxArrayValues : ℕ := 256

inductive ClrValue where
  | primitive (valueType value : Option String)
  | enumConstant (valueType value member : Option String)
  | typeName (identity : Option String)
  | array (values : List ClrValue) (truncated : Option Bool)
  | null
  | unresolved (reason : String)

namespace ClrValue

def asString : ClrValue → Option String
  | primitive (some "string") (some value) => some value
  | _ => none

/-- The texts of a value, or of an array that is complete. -/
def strings : ClrValue → Option (List String)
  | array values truncated =>
    if truncated = some true then none else values.mapM asString
  | value => value.asString.map fun text ↦ [text]

mutual

def depth : ClrValue → ℕ
  | array values _ => 1 + depths values
  | _ => 1

def depths : List ClrValue → ℕ
  | [] => 0
  | value :: values => max (depth value) (depths values)

end

mutual

def bounded : ClrValue → Bool
  | array values _ => decide (values.length ≤ maxArrayValues) && allBounded values
  | _ => true

def allBounded : List ClrValue → Bool
  | [] => true
  | value :: values => bounded value && allBounded values

end

end ClrValue

structure ClrAttributeUse where
  attributeType : String
  attributeBases : List String
  attributeInterfaces : List String
  constructorArguments : List ClrValue
  namedArguments : ExtTreeMap String ClrValue compare
  constructorParameters : List String

namespace ClrAttributeUse

variable (use : ClrAttributeUse)

/-- The attribute is of the given type, or derived from it. -/
def isA (identity : String) : Bool :=
  use.attributeType = identity || use.attributeBases.contains identity

def implements (identity : String) : Bool := use.attributeInterfaces.contains identity

/-- The argument for a parameter of the constructor. -/
def argument (parameter : String) : Option ClrValue :=
  (use.constructorParameters.findIdx? (· = parameter)).bind (use.constructorArguments[·]?)

/-- The attribute is within the bounds on its arguments. -/
def withinBounds : Bool :=
  (stripPrefix "class:" use.attributeType).isSome && use.constructorArguments.length ≤ 64 &&
    use.namedArguments.size ≤ 64 &&
    (use.constructorArguments ++ use.namedArguments.toList.map (·.2)).all fun value ↦
      value.depth ≤ maxValueDepth && value.bounded

end ClrAttributeUse

structure ClrMethod where
  name : String
  accessibility : String
  isStatic : Bool
  isAbstract : Bool
  isGeneric : Bool
  attributes : List ClrAttributeUse

structure ClrType where
  identity : String
  name : String
  accessibility : String
  isAbstract : Bool
  isGeneric : Bool
  isNested : Bool
  attributes : List ClrAttributeUse

structure ClrAttributeFacts where
  schema : String
  authority : String
  declaration : String
  method : ClrMethod
  containingType : ClrType
  overriddenAttributes : List ClrAttributeUse
  boundaries : List String
  coverage : Jvm.Coverage

namespace ClrAttributeFacts

variable (facts : ClrAttributeFacts)

def uses : List ClrAttributeUse :=
  facts.method.attributes ++ facts.containingType.attributes ++ facts.overriddenAttributes

def validate : Except String Unit := do
  ensure (facts.schema = attributeSchema ∧ facts.authority = attributeAuthority ∧
    (stripPrefix "method:class:" facts.declaration).isSome ∧
    (stripPrefix "class:" facts.containingType.identity).isSome ∧
    facts.coverage.scope = attributeScope ∧ facts.coverage.status ∈ ["COMPLETE", "PARTIAL"] ∧
    (facts.coverage.status = "COMPLETE" ↔ facts.boundaries = []) ∧ facts.boundaries.length ≤ 64)
    "CLR attribute facts authority is invalid"
  ensure (facts.uses.length ≤ maxAttributes ∧ facts.uses.all (·.withinBounds))
    "CLR attribute facts exceed their bounds"

variable {facts}

theorem complete_iff_of_validate (h : facts.validate = .ok ()) :
    facts.coverage.status = "COMPLETE" ↔ facts.boundaries = [] :=
  (ensure_bind_eq_ok_iff.mp h).1.2.2.2.2.2.2.1

theorem length_attributes_of_validate (h : facts.validate = .ok ()) :
    facts.containingType.attributes.length ≤ maxAttributes := by
  have huses := (ensure_eq_ok_iff.mp (ensure_bind_eq_ok_iff.mp h).2).1
  rw [uses, List.length_append, List.length_append] at huses
  omega

end ClrAttributeFacts

end Codeclew.Clr
