import Codeclew.Jvm.Annotations
import Codeclew.Writes

/-!
# The Spring interpreter

A use of an annotation is interpreted as bindings of the annotations Spring knows. The framework's
own annotations have rules of their own; any other annotation is a composed one, and what its
declaration carries is interpreted first. The arguments of the use, and the defaults of the members
that have none, are then merged into these bindings: member by member in the order of their names,
each where its aliases lead, and after that by name.

What an interpretation does to the attributes of a binding is a run of writes. Of the interpreter's
state only the number of visits has an influence on its results; the boundaries are collected on the
way.
-/

namespace Codeclew.Spring

open Jvm Std

def web : String := "org.springframework.web.bind.annotation."
def request : String := "org.springframework.web.bind.annotation.RequestMapping"
def listener : String := "org.springframework.kafka.annotation.KafkaListener"
def handler : String := "org.springframework.kafka.annotation.KafkaHandler"
def scheduled : String := "org.springframework.scheduling.annotation.Scheduled"
def controller : String := "org.springframework.stereotype.Controller"
def feign : String := "org.springframework.cloud.openfeign.FeignClient"
def aliasFor : String := "org.springframework.core.annotation.AliasFor"

abbrev Attributes := ExtTreeMap String Json compare

structure Binding where
  annotationType : String
  chain : List String
  attributes : Attributes

/-! ## Values -/

def isRuntimeExpression : Json → Bool
  | .str value =>
    decide (['$', '\x7b'] <:+: chars value) || decide (['#', '\x7b'] <:+: chars value)
  | _ => false

mutual

/-- The value as it is reported. -/
def value : AnnotationValue → Json
  | .constant value => value
  | .enumConstant _ value | .className value => .str value
  | .array values => .arr (reportedValues values)
  | .annotationUse ⟨typeName, arguments, _⟩ =>
    .obj [("annotation", .str typeName), ("attributes", .obj (reportedArguments arguments))]
  | .unresolved _ => .null

def reportedValues : List AnnotationValue → List Json
  | [] => []
  | v :: values => value v :: reportedValues values

def reportedArguments : List (String × AnnotationValue) → List (String × Json)
  | [] => []
  | (name, v) :: arguments => (name, value v) :: reportedArguments arguments

end

mutual

/-- The boundaries that a value is reported with. -/
def valueBoundaries : AnnotationValue → List String
  | .constant value => if isRuntimeExpression value then ["RUNTIME_EXPRESSION"] else []
  | .enumConstant _ _ | .className _ => []
  | .array values => valuesBoundaries values
  | .annotationUse ⟨_, arguments, _⟩ => argumentBoundaries arguments
  | .unresolved _ => ["UNRESOLVED_ANNOTATION_VALUE"]

def valuesBoundaries : List AnnotationValue → List String
  | [] => []
  | v :: values => valueBoundaries v ++ valuesBoundaries values

def argumentBoundaries : List (String × AnnotationValue) → List String
  | [] => []
  | (_, v) :: arguments => valueBoundaries v ++ argumentBoundaries arguments

end

def arguments (args : List (String × AnnotationValue)) : Attributes :=
  ExtTreeMap.ofList (reportedArguments args) compare

/-- The annotations in a value. -/
def nestedAnnotations : AnnotationValue → List AnnotationUse
  | .annotationUse value => [value]
  | .array values => nested values
  | _ => []
where
  nested : List AnnotationValue → List AnnotationUse
    | [] => []
    | v :: values => nestedAnnotations v ++ nested values

/-! ## Request mappings -/

def verbs : List (String × String) :=
  [("GetMapping", "GET"), ("PostMapping", "POST"), ("PutMapping", "PUT"),
    ("DeleteMapping", "DELETE"), ("PatchMapping", "PATCH")]

/-- The method of an annotation for one method. -/
def verb? (name : String) : Option String :=
  (stripPrefix web name).bind fun name ↦ verbs.lookup name

/-- A value that is not an empty array. -/
def nonEmpty (value : Option Json) : Option Json := value.filter fun v ↦ v ≠ .arr []

/-- The attribute `value` of a request mapping is another name for its `path`. -/
def aliases (attributes : Attributes) : Attributes :=
  let selected := match nonEmpty attributes["path"]? with
    | some path => some path
    | none => nonEmpty attributes["value"]?
  (match selected with
    | some selected => attributes.insert "path" selected
    | none => attributes).erase "value"

def aliasesBoundaries (attributes : Attributes) : List String :=
  if (nonEmpty attributes["value"]?).isSome ∧ (nonEmpty attributes["path"]?).isSome ∧
      nonEmpty attributes["value"]? ≠ nonEmpty attributes["path"]? then ["CONFLICTING_PATH_ALIASES"]
  else []

/-! ## Aliases -/

def text? : Option Json → Option String
  | some (.str s) => some s
  | _ => none

def nonEmptyText? (value : Option Json) : Option String := (text? value).filter (· ≠ "")

/-- The attribute that an alias names, if it names one. -/
def aliasAttribute (args : Attributes) (default : String) : String :=
  ((nonEmptyText? args["attribute"]?).or (nonEmptyText? args["value"]?)).getD default

/-- The annotations that stand for the one that declares an alias. -/
def anyAnnotation : List String := ["kotlin.Annotation", "java.lang.annotation.Annotation"]

/-- The attribute of `root` that `attr` of `annotationType` is, and the boundaries that are met on
the way there. At most `remaining` aliases are followed, none of them twice. -/
def aliasDestination (facts : AnnotationFacts) (root : String) :
    (remaining : ℕ) → (annotationType attr : String) → (seen : List String) →
      Option String × List String
  | remaining, annotationType, attr, seen =>
    if annotationType = root ∨ (root = request ∧ (verb? annotationType).isSome) then
      (some (if root = request ∧ attr = "value" then "path" else attr), [])
    else
      match remaining with
      | 0 => (none, [])
      | remaining + 1 =>
        if annotationType ++ "#" ++ attr ∈ seen then (none, [])
        else
          match (facts.definitions[annotationType]?).bind fun definition ↦
              definition.members[attr]? with
          | none => (none, [])
          | some member =>
            match member.annotations.find? (·.typeName = aliasFor) with
            | some use =>
              let args := arguments use.arguments
              let target :=
                ((text? args["annotation"]?).filter (· ∉ anyAnnotation)).getD annotationType
              let found := aliasDestination facts root remaining target
                (aliasAttribute args attr) ((annotationType ++ "#" ++ attr) :: seen)
              (found.1, argumentBoundaries use.arguments ++ found.2)
            | none =>
              if (facts.definitions[root]?).any fun definition ↦
                  definition.members.contains attr then (some attr, [])
              else (none, [])

/-- The aliases a declaration has, in the order of its members. -/
def aliasesOf (definition : AnnotationDefinition) : List (String × AnnotationUse) :=
  definition.members.toList.flatMap fun (name, member) ↦
    (member.annotations.filter (·.typeName = aliasFor)).map fun use ↦ (name, use)

/-! ## Composed annotations -/

/-- A use of a composed annotation: what it supplies, and that together with the defaults. -/
structure Composition where
  facts : AnnotationFacts
  name : String
  attributes : Attributes
  effective : Attributes

def defaults (definition : AnnotationDefinition) : List (String × AnnotationValue) :=
  definition.members.toList.filterMap fun (name, member) ↦
    member.defaultValue.map fun value ↦ (name, value)

def compose (facts : AnnotationFacts) (use : AnnotationUse) (definition : AnnotationDefinition) :
    Composition where
  facts := facts
  name := use.typeName
  attributes := arguments use.arguments
  effective := (arguments (defaults definition)).insertMany (arguments use.arguments).toList

namespace Composition

variable (c : Composition)

/-- The annotation and the attribute that an alias on the member `name` is for. -/
def target (name : String) (use : AnnotationUse) : String × String :=
  let args := arguments use.arguments
  ((text? args["annotation"]?).getD c.name, aliasAttribute args name)

/-- An alias for another member of the same annotation. -/
def IsOwn (annotationType : String) : Prop :=
  annotationType = c.name ∨ annotationType ∈ anyAnnotation

instance (annotationType : String) : Decidable (c.IsOwn annotationType) :=
  inferInstanceAs (Decidable (_ ∨ _))

/-- What an alias on the member `name` writes into a binding of `root` along `chain`. -/
def write (root : String) (chain : List String) (name : String) (use : AnnotationUse) :
    Option (Write String Json) :=
  let (annotationType, attr) := c.target name use
  if c.IsOwn annotationType then
    -- between members of one annotation what is supplied goes before what is a default
    (((c.attributes[name]?.or c.attributes[attr]?).or c.effective[name]?).or
      c.effective[attr]?).map fun value ↦ ⟨attr, value, true⟩
  else if annotationType = root ∨ annotationType ∈ chain then
    match (aliasDestination c.facts root 32 annotationType attr []).1 with
    | some final => c.effective[name]?.map fun value ↦ ⟨final, value, false⟩
    | none => none
  else none

def writeBoundaries (root : String) (chain : List String) (name : String) (use : AnnotationUse) :
    List String :=
  let (annotationType, attr) := c.target name use
  argumentBoundaries use.arguments ++
    if c.IsOwn annotationType then
      if c.attributes[name]?.isSome ∧ c.attributes[attr]?.isSome ∧
          c.attributes[name]? ≠ c.attributes[attr]? then ["CONFLICTING_ANNOTATION_ALIASES"]
      else []
    else if annotationType = root ∨ annotationType ∈ chain then
      match aliasDestination c.facts root 32 annotationType attr [] with
      | (some _, found) => found
      | (none, found) => found ++ ["UNRESOLVED_COMPOSED_ALIAS"]
    else []

/-- An attribute that has the name of a member takes its value, `value` apart. -/
def conventions : List (Write String Json) :=
  (c.effective.toList.filter (·.1 ≠ "value")).map fun (name, value) ↦ ⟨name, value, true⟩

/-- What the use writes into a binding of `root` along `chain`, by the given aliases. -/
def writes (root : String) (chain : List String) (aliases : List (String × AnnotationUse)) :
    List (Write String Json) :=
  aliases.filterMap (fun a ↦ c.write root chain a.1 a.2) ++ c.conventions

/-- Merge the use into a binding that its declaration carries. -/
def merge (definition : AnnotationDefinition) (carried : Binding) : Binding :=
  let attributes := Write.run
    (c.writes carried.annotationType carried.chain (aliasesOf definition)) carried.attributes
  { carried with
    attributes := if carried.annotationType = request then aliases attributes else attributes }

def mergeBoundaries (definition : AnnotationDefinition) (carried : Binding) : List String :=
  let attributes := Write.run
    (c.writes carried.annotationType carried.chain (aliasesOf definition)) carried.attributes
  (aliasesOf definition).flatMap
      (fun a ↦ c.writeBoundaries carried.annotationType carried.chain a.1 a.2) ++
    if carried.annotationType = request then aliasesBoundaries attributes else []

end Composition

/-! ## Interpretation -/

structure Interpreter where
  boundaries : ExtTreeSet String compare
  visits : ℕ

abbrev Interpret := StateM Interpreter

def note (codes : List String) : Interpret Unit :=
  modify fun i ↦ { i with boundaries := i.boundaries.insertMany codes }

def noteIf (p : Prop) [Decidable p] (code : String) : Interpret Unit :=
  note (if p then [code] else [])

/-- The annotation whose uses a container holds. -/
def contained? (name : String) : Option String :=
  if name = "org.springframework.kafka.annotation.KafkaListeners" then some listener
  else if name = "org.springframework.scheduling.annotation.Schedules" then some scheduled
  else none

/-- Annotations that are not looked at. -/
def isSkipped (name : String) : Bool :=
  (stripPrefix "kotlin." name).isSome || (stripPrefix "java.lang.annotation." name).isSome

def isEntry (name : String) : Bool :=
  name ∈ [request, listener, handler, scheduled, controller, feign]

section Step

variable (facts : AnnotationFacts)
    (recurse : AnnotationUse → List String → Interpret (List Binding))

/-- The uses that a container holds. -/
def expandContained (expected : String) (annotationUse : AnnotationUse) (chain : List String) :
    Interpret (List Binding) := do
  let nested := annotationUse.arguments.flatMap fun (_, value) ↦ nestedAnnotations value
  noteIf nested.isEmpty "UNRESOLVED_REPEATABLE_CONTAINER"
  let bindings ← nested.mapM fun child ↦
    if child.typeName ≠ expected then do
      note ["INVALID_REPEATABLE_CONTAINER"]
      return []
    else recurse child chain
  return bindings.flatten

/-- What the declaration of an annotation carries, with the use merged into it. -/
def expandComposed (annotationUse : AnnotationUse) (chain : List String) :
    Interpret (List Binding) := do
  match facts.definitions[annotationUse.typeName]? with
  | none => do
    note ["ANNOTATION_DECLARATION_UNAVAILABLE"]
    return []
  | some definition => do
    noteIf (definition.bounded ≠ []) "ANNOTATION_DEFINITION_BOUNDED"
    let carried := (← definition.annotations.mapM fun carried ↦ recurse carried chain).flatten
    if carried.isEmpty then return []
    else do
      note (argumentBoundaries (defaults definition))
      let c := compose facts annotationUse definition
      note (carried.flatMap (c.mergeBoundaries definition))
      return carried.map (c.merge definition)

/-- The rules for the framework's own annotations, and the one for all others. -/
def expandNamed (annotationUse : AnnotationUse) (chain : List String) :
    Interpret (List Binding) := do
  let name := annotationUse.typeName
  match contained? name with
  | some expected => expandContained recurse expected annotationUse chain
  | none => do
    let attributes := arguments annotationUse.arguments
    note (argumentBoundaries annotationUse.arguments)
    match verb? name with
    | some verb => do
      note (aliasesBoundaries attributes)
      return [⟨request, chain, (aliases attributes).insert "method" (.arr [.str verb])⟩]
    | none =>
      if isEntry name then do
        note (if name = request then aliasesBoundaries attributes else [])
        return [⟨name, chain, if name = request then aliases attributes else attributes⟩]
      else if facts.authority = "SOURCE_ANNOTATIONS" ∧ name = web ++ "RestController" then
        return [⟨controller, chain, attributes⟩]
      else expandComposed facts recurse annotationUse chain

def expandStep (annotationUse : AnnotationUse) (path : List String) : Interpret (List Binding) := do
  let name := annotationUse.typeName
  if name ∈ path ∨ isSkipped name then return []
  else do
    modify fun i ↦ { i with visits := i.visits + 1 }
    if (← get).visits > 32768 ∨ 32 ≤ path.length then do
      note ["ANNOTATION_GRAPH_LIMIT"]
      return []
    else expandNamed facts recurse annotationUse (path ++ [name])

end Step

/-- A path is extended at most 32 times. -/
def expandWithin (facts : AnnotationFacts) :
    ℕ → AnnotationUse → List String → Interpret (List Binding)
  | 0 => fun _ _ ↦ return []
  | depth + 1 => expandStep facts (expandWithin facts depth)

/-- The bindings of one use. -/
def expand (facts : AnnotationFacts) (annotationUse : AnnotationUse) (path : List String) :
    Interpret (List Binding) :=
  expandWithin facts (33 - path.length) annotationUse path

end Codeclew.Spring
