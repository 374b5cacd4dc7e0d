import Codeclew.Frameworks.Derivation
import Codeclew.Spring.Interpreter
import Codeclew.Yields

/-!
# Spring entry points

The annotations on the methods of a class, on the methods these override and on the classes
themselves are interpreted, and the bindings found give the entry points. What cannot be decided
from the annotations is noted as a boundary; boundaries are never taken back
(`grows_analyzeCallables`), and the report is complete only if there are none.
-/

namespace Codeclew.Spring

open Jvm Std

/-! ## The program -/

def moduleId : String := "spring"
def policyVersion : String := "spring-annotation-declarations/1.0"

structure SpringEntry where
  kind : String
  annotationType : String
  annotationChain : List String
  attributes : Attributes
  registration : String
  controller : Option Bool
  classAttributes : Option (List Attributes)
  handlerAttributes : Option Attributes
  targetSymbol : Option String
  beanClass : Option String

structure SpringMetadata where
  schema : String
  authority : String
  entries : List SpringEntry
  boundaries : List String
  derivation : Option Derivation

def family (bindings : List Binding) (name : String) : List Binding :=
  bindings.filter (·.annotationType = name)

/-- The bindings of `name` on the nearest class that has any. -/
def firstFamily (classes : List (List Binding)) (name : String) : List Binding :=
  ((classes.map (family · name)).find? (!·.isEmpty)).getD []

section Program

variable (facts : AnnotationFacts)

def expandAll (annotations : List AnnotationUse) : Interpret (List Binding) := do
  return (← annotations.mapM fun annotationUse ↦ expand facts annotationUse []).flatten

mutual

/-- The bindings of a method, and those of the methods it overrides for annotations it does not have
itself. -/
def method : AnnotatedMethod → Interpret (List Binding)
  | ⟨_, annotations, overrides⟩ => do
    let result ← expandAll facts annotations
    return result ++ (← inherited (result.map (·.annotationType)) [] overrides)

/-- What is inherited from `bases`, apart from annotations that are there already or have been
selected from another of them. -/
def inherited (direct selected : List String) : List AnnotatedMethod → Interpret (List Binding)
  | [] => return []
  | base :: bases => do
    let found ← method base
    let taken := found.filter fun binding ↦
      binding.annotationType ∉ direct ∧ binding.annotationType ∉ selected
    return taken ++ (← inherited direct (selected ++ found.map (·.annotationType)) bases)

end

def makeEntry (callable : AnnotatedCallable) (binding : Binding) (kind : String) : SpringEntry where
  kind
  annotationType := binding.annotationType
  annotationChain := binding.chain
  attributes := binding.attributes
  registration := "RUNTIME_CONDITIONAL"
  controller := none
  classAttributes := none
  handlerAttributes := none
  targetSymbol := if callable.inherited then some callable.method.identity else none
  beanClass := callable.beanClass

/-- The endpoints that the request mappings of a method give. -/
def endpoints (callable : AnnotatedCallable) (mappings typeMappings : List Binding)
    (isController outbound : Bool) : Interpret (List SpringEntry) := do
  let entries ← mappings.mapM fun mapping ↦
    if outbound then do
      note ["OUTBOUND_FEIGN_CLIENT_NOT_SERVER_ENTRYPOINT"]
      return []
    else do
      noteIf (!isController) "CONTROLLER_REGISTRATION_UNPROVEN"
      return [{ makeEntry callable mapping "HTTP_ENDPOINT" with
        controller := some isController
        classAttributes := some (typeMappings.map (·.attributes)) }]
  return entries.flatten

/-- The listeners of the class, for a method that handles what they receive. -/
def handled (callable : AnnotatedCallable) (bindings : List Binding)
    (classes : List (List Binding)) : Interpret (List SpringEntry) := do
  match (family bindings handler).head? with
  | none => return []
  | some handler => do
    let listeners := firstFamily classes listener
    noteIf listeners.isEmpty "KAFKA_HANDLER_WITHOUT_CLASS_LISTENER"
    return listeners.map fun listener ↦
      { makeEntry callable listener "KAFKA_LISTENER" with
        handlerAttributes := some handler.attributes }

/-- The entry points of one callable. -/
def analyzeCallable (callable : AnnotatedCallable) : Interpret (List SpringEntry) := do
  let classes ← callable.classes.mapM fun type ↦ expandAll facts type.annotations
  let bindings ← method facts callable.method
  let mappings := family bindings request
  let typeMappings := firstFamily classes request
  let isController := classes.flatten.any (·.annotationType = controller)
  let outbound := classes.head?.any (·.any (·.annotationType = feign)) && !isController
  noteIf (1 < mappings.length ∨ 1 < typeMappings.length) "MULTIPLE_REQUEST_MAPPINGS_ON_ELEMENT"
  let endpoints ← endpoints callable mappings typeMappings isController outbound
  let listeners := (family bindings listener).map (makeEntry callable · "KAFKA_LISTENER")
  let handled ← handled callable bindings classes
  let jobs := (family bindings scheduled).map (makeEntry callable · "SCHEDULED_JOB")
  let found := endpoints ++ listeners ++ handled ++ jobs
  noteIf (!found.isEmpty ∧ callable.beanClass.isNone) "NO_BEAN_OWNER"
  noteIf (!found.isEmpty ∧ callable.abstractMethod) "ABSTRACT_HANDLER_REQUIRES_IMPLEMENTATION"
  noteIf (!found.isEmpty ∧ callable.inherited ∧ !callable.implementationSource)
    "INHERITED_HANDLER_SOURCE_UNAVAILABLE"
  return found

/-- The callables one after the other, until there are too many entry points. -/
def analyzeCallables (entries : List SpringEntry) :
    List AnnotatedCallable → Interpret (List SpringEntry)
  | [] => return entries
  | callable :: callables => do
    let entries := entries ++ (← analyzeCallable facts callable)
    if entries.length > 2048 then do
      note ["FRAMEWORK_ENTRY_LIMIT"]
      return entries.take 2048
    else analyzeCallables entries callables

def analyzeValidated (implementationDigest inputDigest : String) : SpringMetadata :=
  let start : Interpreter := ⟨ExtTreeSet.ofList facts.boundaries compare, 0⟩
  let result := (analyzeCallables facts [] facts.callables).run start
  let interpreter := result.2
  { schema := "spring-entrypoints/0.2"
    authority := "FRAMEWORK_DERIVED"
    entries := result.1
    boundaries := interpreter.boundaries.toList
    derivation := some {
      moduleId
      policyVersion
      implementationDigest
      inputDigest
      inputAuthority := facts.authority
      inputSchema := facts.schema
      coverage :=
        if interpreter.boundaries.isEmpty ∧ facts.coverage.status = "COMPLETE" then "COMPLETE"
        else "PARTIAL" } }

end Program

def analyze (digests : Digests AnnotationFacts) (facts : AnnotationFacts) :
    Except String SpringMetadata := do
  facts.validate
  return analyzeValidated facts digests.implementation (digests.input facts)

/-! ## Boundaries stay -/

/-- An interpretation that takes back no boundary. -/
def Grows {α : Type} (x : Interpret α) : Prop := ∀ code, Retains (fun i ↦ code ∈ i.boundaries) x

namespace Grows

variable {α β : Type}

theorem pure (a : α) : Grows (pure a) := fun _ ↦ .pure a

theorem bind {x : Interpret α} {f : α → Interpret β} (hx : Grows x) (hf : ∀ a, Grows (f a)) :
    Grows (x >>= f) :=
  fun code ↦ (hx code).bind fun a ↦ hf a code

theorem ite {p : Prop} [Decidable p] {x y : Interpret α} (hx : Grows x) (hy : Grows y) :
    Grows (if p then x else y) :=
  fun code ↦ (hx code).ite (hy code)

theorem mapM {xs : List α} {f : α → Interpret β} (h : ∀ x ∈ xs, Grows (f x)) :
    Grows (xs.mapM f) :=
  fun code ↦ .mapM fun x hx ↦ h x hx code

theorem note (codes : List String) : Grows (note codes) := fun _ ↦
  .modify fun _ h ↦ ExtTreeSet.mem_insertMany_list.mpr (.inl h)

theorem noteIf (p : Prop) [Decidable p] (code : String) : Grows (noteIf p code) := note _

end Grows

section Expand

variable {facts : AnnotationFacts}
  {recurse : AnnotationUse → List String → Interpret (List Binding)}
  (h : ∀ u path, Grows (recurse u path))
include h

theorem grows_expandContained (expected : String) (u : AnnotationUse) (chain : List String) :
    Grows (expandContained recurse expected u chain) := by
  refine .bind (.noteIf _ _) fun _ ↦ .bind (.mapM fun child _ ↦ ?_) fun _ ↦ .pure _
  exact .ite (.bind (.note _) fun _ ↦ .pure _) (h child chain)

theorem grows_expandComposed (u : AnnotationUse) (chain : List String) :
    Grows (expandComposed facts recurse u chain) := by
  rw [expandComposed]
  split
  · exact .bind (.note _) fun _ ↦ .pure _
  · refine .bind (.noteIf _ _) fun _ ↦ .bind (.mapM fun carried _ ↦ h carried chain) fun _ ↦ ?_
    exact .ite (.pure _) (.bind (.note _) fun _ ↦ .bind (.note _) fun _ ↦ .pure _)

theorem grows_expandNamed (u : AnnotationUse) (chain : List String) :
    Grows (expandNamed facts recurse u chain) := by
  rw [expandNamed]
  split
  · exact grows_expandContained h _ u chain
  · refine .bind (.note _) fun _ ↦ ?_
    split
    · exact .bind (.note _) fun _ ↦ .pure _
    · exact .ite (.bind (.note _) fun _ ↦ .pure _) (.ite (.pure _) (grows_expandComposed h u chain))

theorem grows_expandStep (u : AnnotationUse) (path : List String) :
    Grows (expandStep facts recurse u path) := by
  have hvisit : Grows (modify fun i : Interpreter ↦ { i with visits := i.visits + 1 }) :=
    fun _ ↦ .modify fun _ hcode ↦ hcode
  refine .ite (.pure _) (hvisit.bind fun _ ↦ .bind (fun _ ↦ .get) fun _ ↦ ?_)
  exact .ite (.bind (.note _) fun _ ↦ .pure _) (grows_expandNamed h u _)

end Expand

section Callables

variable (facts : AnnotationFacts)

theorem grows_expandWithin (n : ℕ) (u : AnnotationUse) (path : List String) :
    Grows (expandWithin facts n u path) := by
  induction n generalizing u path with
  | zero => exact .pure _
  | succ n ih => exact grows_expandStep ih u path

theorem grows_expandAll (annotations : List AnnotationUse) : Grows (expandAll facts annotations) :=
  .bind (.mapM fun u _ ↦ grows_expandWithin facts _ u []) fun _ ↦ .pure _

mutual

theorem grows_method : (m : AnnotatedMethod) → Grows (method facts m)
  | ⟨_, annotations, overrides⟩ => by
    rw [method]
    exact .bind (grows_expandAll facts annotations) fun _ ↦
      .bind (grows_inherited _ _ overrides) fun _ ↦ .pure _

theorem grows_inherited (direct selected : List String) :
    (bases : List AnnotatedMethod) → Grows (inherited facts direct selected bases)
  | [] => by
    rw [inherited]
    exact .pure _
  | base :: bases => by
    rw [inherited]
    exact .bind (grows_method base) fun _ ↦ .bind (grows_inherited direct _ bases) fun _ ↦ .pure _

end

section

variable (callable : AnnotatedCallable)

theorem grows_endpoints (mappings typeMappings : List Binding) (isController outbound : Bool) :
    Grows (endpoints callable mappings typeMappings isController outbound) := by
  refine .bind (.mapM fun _ _ ↦ ?_) fun _ ↦ .pure _
  exact .ite (.bind (.note _) fun _ ↦ .pure _) (.bind (.noteIf _ _) fun _ ↦ .pure _)

theorem grows_handled (bindings : List Binding) (classes : List (List Binding)) :
    Grows (handled callable bindings classes) := by
  rw [handled]
  split
  · exact .pure _
  · exact .bind (.noteIf _ _) fun _ ↦ .pure _

theorem grows_analyzeCallable :
    Grows (analyzeCallable facts callable) := by
  refine .bind (.mapM fun _ _ ↦ grows_expandAll facts _) fun _ ↦
    .bind (grows_method facts _) fun _ ↦ .bind (.noteIf _ _) fun _ ↦
    .bind (grows_endpoints _ _ _ _ _) fun _ ↦ .bind (grows_handled _ _ _) fun _ ↦ ?_
  exact .bind (.noteIf _ _) fun _ ↦ .bind (.noteIf _ _) fun _ ↦ .bind (.noteIf _ _) fun _ ↦ .pure _

end

theorem grows_analyzeCallables (entries : List SpringEntry) (callables : List AnnotatedCallable) :
    Grows (analyzeCallables facts entries callables) := by
  induction callables generalizing entries with
  | nil => exact .pure _
  | cons callable callables ih =>
    refine .bind (grows_analyzeCallable facts callable) fun _ ↦ ?_
    exact .ite (.bind (.note _) fun _ ↦ .pure _) (ih _)

/-- The report is complete only if the interpretation met no boundary, and it has all those of the
input. -/
theorem honest_analyzeValidated (implementationDigest inputDigest : String) :
    ∀ derivation ∈ (analyzeValidated facts implementationDigest inputDigest).derivation,
      Honest facts.coverage.status facts.boundaries derivation.coverage
        (analyzeValidated facts implementationDigest inputDigest).boundaries := by
  intro derivation hderivation
  obtain rfl := Option.some.inj hderivation
  constructor
  · intro hcomplete
    have hpartial : "PARTIAL" ≠ "COMPLETE" := by decide
    obtain ⟨hempty, hstatus⟩ := not_imp_comm.mp (ite_eq_left_iff.mp hcomplete) hpartial
    exact ⟨by simpa [analyzeValidated] using hempty, hstatus⟩
  · intro code hcode
    refine ExtTreeSet.mem_toList.mpr (grows_analyzeCallables facts _ _ code _ ?_)
    exact ExtTreeSet.mem_ofList.mpr (List.contains_iff_mem.mpr hcode)

end Callables

end Codeclew.Spring
