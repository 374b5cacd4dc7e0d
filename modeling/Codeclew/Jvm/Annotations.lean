import Codeclew.Files

/-!
# Annotations of the JVM

What a compiler observes of annotations: their uses with the arguments that are written out, and the
declarations of the annotation types with their members, the defaults of these and the annotations
on them. The arguments of a use are in the order of their names.
-/

namespace Codeclew.Jvm

open Std

def annotationSchema : String := "jvm-annotation-facts/1.0"
def annotationScope : String := "REACHABLE_ANNOTATIONS_AND_HIERARCHY"

structure Origin where
  kind : String
  identity : String
  start : Option ℕ
  finish : Option ℕ
  deriving DecidableEq, Repr

mutual

structure AnnotationUse where
  typeName : String
  arguments : List (String × AnnotationValue)
  origin : Origin

inductive AnnotationValue where
  | constant (value : Json)
  | enumConstant (type value : String)
  | className (value : String)
  | array (values : List AnnotationValue)
  | annotationUse (value : AnnotationUse)
  | unresolved (reason : String)

end

structure AnnotationMember where
  annotations : List AnnotationUse
  defaultValue : Option AnnotationValue

structure AnnotationDefinition where
  origin : Origin
  annotations : List AnnotationUse
  members : ExtTreeMap String AnnotationMember compare
  bounded : List String

structure AnnotatedType where
  identity : String
  annotations : List AnnotationUse
  directSupertypes : List String

inductive AnnotatedMethod where
  | mk (identity : String) (annotations : List AnnotationUse) (overrides : List AnnotatedMethod)

def AnnotatedMethod.identity : AnnotatedMethod → String
  | ⟨identity, _, _⟩ => identity

structure AnnotatedCallable where
  method : AnnotatedMethod
  classes : List AnnotatedType
  beanClass : Option String
  abstractMethod : Bool
  inherited : Bool
  implementationSource : Bool

structure Coverage where
  status : String
  scope : String
  deriving DecidableEq, Repr

structure AnnotationFacts where
  schema : String
  authority : String
  declaration : String
  definitions : ExtTreeMap String AnnotationDefinition compare
  types : List AnnotatedType
  callables : List AnnotatedCallable
  boundaries : List String
  coverage : Coverage

/-! ## Checks

Every record that is checked is paid for from one budget. -/

def spend (budget : ℕ) : Except String ℕ :=
  if budget = 0 then .error "JVM annotation record budget exceeded" else .ok (budget - 1)

def Origin.validate (value : Origin) : Except String Unit :=
  ensure (value.kind ∈ ["SOURCE", "BINARY", "UNKNOWN"] ∧ value.identity ≠ "" ∧
    byteLength value.identity ≤ 8192 ∧
    (∀ start ∈ value.start, ∀ finish ∈ value.finish, start ≤ finish) ∧
    value.start.isSome = value.finish.isSome) "JVM annotation origin is invalid"

def constantIsScalar : Json → Bool
  | .arr _ | .obj _ => false
  | _ => true

mutual

def AnnotationUse.validate (depth budget : ℕ) : AnnotationUse → Except String ℕ
  | ⟨typeName, arguments, origin⟩ => do
    let budget ← spend budget
    ensure (depth ≤ 32 ∧ typeName ≠ "" ∧ byteLength typeName ≤ 1024 ∧ arguments.length ≤ 512)
      "JVM annotation use exceeds its bound"
    origin.validate
    validateArguments (depth + 1) budget arguments

def validateArguments (depth budget : ℕ) : List (String × AnnotationValue) → Except String ℕ
  | [] => .ok budget
  | (_, value) :: arguments => do
    let budget ← value.validate depth budget
    validateArguments depth budget arguments

def validateValues (depth budget : ℕ) : List AnnotationValue → Except String ℕ
  | [] => .ok budget
  | value :: values => do
    let budget ← value.validate depth budget
    validateValues depth budget values

def AnnotationValue.validate (depth budget : ℕ) : AnnotationValue → Except String ℕ
  | .constant value => do
    let budget ← spend budget
    ensure (depth ≤ 32) "JVM annotation value nesting exceeds its bound"
    ensure (constantIsScalar value) "JVM annotation constant must be scalar"
    return budget
  | .array values => do
    let budget ← spend budget
    ensure (depth ≤ 32) "JVM annotation value nesting exceeds its bound"
    validateValues (depth + 1) budget values
  | .annotationUse value => do
    let budget ← spend budget
    ensure (depth ≤ 32) "JVM annotation value nesting exceeds its bound"
    value.validate (depth + 1) budget
  | .enumConstant _ _ | .className _ | .unresolved _ => do
    let budget ← spend budget
    ensure (depth ≤ 32) "JVM annotation value nesting exceeds its bound"
    return budget

end

def validateUses (budget : ℕ) (values : List AnnotationUse) : Except String ℕ :=
  values.foldlM (AnnotationUse.validate 0) budget

mutual

def AnnotatedMethod.validate (depth budget : ℕ) : AnnotatedMethod → Except String ℕ
  | ⟨identity, annotations, overrides⟩ => do
    let budget ← spend budget
    ensure (depth ≤ 128 ∧ identity ≠ "" ∧ overrides.length ≤ 128)
      "JVM override hierarchy is invalid or exceeds its bound"
    let budget ← validateUses budget annotations
    validateMethods (depth + 1) budget overrides

def validateMethods (depth budget : ℕ) : List AnnotatedMethod → Except String ℕ
  | [] => .ok budget
  | method :: methods => do
    let budget ← method.validate depth budget
    validateMethods depth budget methods

end

def AnnotatedType.validate (budget : ℕ) (type : AnnotatedType) : Except String ℕ := do
  ensure (type.identity ≠ "" ∧ type.directSupertypes.length ≤ 128)
    "JVM type identity or hierarchy is invalid"
  validateUses budget type.annotations

def AnnotationMember.validate (budget : ℕ) (member : AnnotationMember) : Except String ℕ := do
  let budget ← validateUses budget member.annotations
  match member.defaultValue with
  | none => return budget
  | some value => value.validate 0 budget

def AnnotationDefinition.validate (budget : ℕ) (entry : String × AnnotationDefinition) :
    Except String ℕ := do
  ensure (entry.1 ≠ "" ∧ byteLength entry.1 ≤ 1024 ∧ entry.2.members.size ≤ 512)
    "JVM annotation definition is invalid or exceeds its bound"
  entry.2.origin.validate
  let budget ← validateUses budget entry.2.annotations
  (entry.2.members.toList.map (·.2)).foldlM AnnotationMember.validate budget

def AnnotatedCallable.validate (budget : ℕ) (callable : AnnotatedCallable) : Except String ℕ := do
  ensure (callable.classes.length ≤ 128) "JVM class hierarchy exceeds its bound"
  let budget ← callable.method.validate 0 budget
  callable.classes.foldlM AnnotatedType.validate budget

def AnnotationFacts.validate (facts : AnnotationFacts) : Except String Unit := do
  ensure (facts.schema = annotationSchema ∧
    facts.authority ∈ ["K2_RESOLVED_ANNOTATIONS", "JAVAC_RESOLVED_ANNOTATIONS"] ∧
    facts.declaration ≠ "" ∧ byteLength facts.declaration ≤ 8192 ∧
    facts.definitions.size ≤ 2048 ∧ facts.callables.length ≤ 4096 ∧ facts.types.length ≤ 128 ∧
    facts.boundaries.length ≤ 256 ∧ facts.coverage.status ∈ ["COMPLETE", "PARTIAL"] ∧
    facts.coverage.scope = annotationScope)
    "JVM annotation fact schema, authority, coverage or size is invalid"
  ensure (facts.coverage.status = "COMPLETE" → facts.boundaries = [])
    "complete JVM annotation coverage cannot hide extraction boundaries"
  let budget ← facts.types.foldlM AnnotatedType.validate 32768
  let budget ← facts.definitions.toList.foldlM AnnotationDefinition.validate budget
  let _ ← facts.callables.foldlM AnnotatedCallable.validate budget
  return ()

/-- Checked facts come from a compiler. -/
theorem AnnotationFacts.authority_of_validate {facts : AnnotationFacts}
    (h : facts.validate = .ok ()) :
    facts.authority ∈ ["K2_RESOLVED_ANNOTATIONS", "JAVAC_RESOLVED_ANNOTATIONS"] :=
  (ensure_bind_eq_ok_iff.mp h).1.2.1

end Codeclew.Jvm
