import Codeclew.AspNetCore.Templates
import Codeclew.AspNetCore.Versions
import Codeclew.Clr.Attributes
import Codeclew.Frameworks.Derivation

/-!
# Actions of controllers

A method of a controller is an action. Its routes are put together from the templates on the
controller and those on the method, one entry point for each template on the method. What depends on
the configuration at run time is noted as a boundary.
-/

namespace Codeclew.AspNetCore

open Clr Std

def moduleId : String := "aspnetcore"
def policyVersion : String := "aspnetcore-mvc-attribute-routing/1.0"
def outputSchema : String := "aspnetcore-entrypoints/1.0"
def maxPaths : ℕ := 4096

def mvc : String := "class:Microsoft.AspNetCore.Mvc."
def controllerAttribute : String := "class:Microsoft.AspNetCore.Mvc.ControllerAttribute"
def nonController : String := "class:Microsoft.AspNetCore.Mvc.NonControllerAttribute"
def nonAction : String := "class:Microsoft.AspNetCore.Mvc.NonActionAttribute"
def routeAttribute : String := "class:Microsoft.AspNetCore.Mvc.RouteAttribute"
def httpMethod : String := "class:Microsoft.AspNetCore.Mvc.Routing.HttpMethodAttribute"
def acceptVerbs : String := "class:Microsoft.AspNetCore.Mvc.AcceptVerbsAttribute"
def routeTemplateProvider : String :=
  "class:Microsoft.AspNetCore.Mvc.Routing.IRouteTemplateProvider"
def httpMethodProvider : String :=
  "class:Microsoft.AspNetCore.Mvc.Routing.IActionHttpMethodProvider"
def areaAttribute : String := "class:Microsoft.AspNetCore.Mvc.AreaAttribute"
def controllerNameAttribute : String := "class:Microsoft.AspNetCore.Mvc.ControllerNameAttribute"
def actionNameAttribute : String := "class:Microsoft.AspNetCore.Mvc.ActionNameAttribute"
def consumes : String := "class:Microsoft.AspNetCore.Mvc.ConsumesAttribute"
def produces : String := "class:Microsoft.AspNetCore.Mvc.ProducesAttribute"
def authorize : String := "class:Microsoft.AspNetCore.Authorization.AuthorizeAttribute"
def allowAnonymous : String := "class:Microsoft.AspNetCore.Authorization.AllowAnonymousAttribute"
def apiVersion : List String :=
  ["class:Asp.Versioning.ApiVersionAttribute", "class:Microsoft.AspNetCore.Mvc.ApiVersionAttribute"]
def mapToApiVersion : List String :=
  ["class:Asp.Versioning.MapToApiVersionAttribute",
    "class:Microsoft.AspNetCore.Mvc.MapToApiVersionAttribute"]

/-- The attributes whose method is fixed by their type. -/
def verbs : List (String × String) :=
  [("HttpGetAttribute", "GET"), ("HttpPostAttribute", "POST"), ("HttpPutAttribute", "PUT"),
    ("HttpDeleteAttribute", "DELETE"), ("HttpPatchAttribute", "PATCH"),
    ("HttpHeadAttribute", "HEAD"), ("HttpOptionsAttribute", "OPTIONS")]

/-- The upper case of a character in the Unicode tables. -/
class Uppercase where
  toUppercase : Char → List Char

/-- The upper case of the ASCII letters. -/
@[reducible] def Uppercase.ascii : Uppercase := ⟨fun c ↦ [c.toUpper]⟩

/-! ## Boundaries -/

/-- The boundaries in order, each once. -/
def noteIf (p : Prop) [Decidable p] (code : String) (boundaries : List String) : List String :=
  if p then KeyedSet.insert id code boundaries else boundaries

theorem mem_noteIf {p : Prop} [Decidable p] {code b : String} {boundaries : List String} :
    b ∈ noteIf p code boundaries ↔ b ∈ boundaries ∨ p ∧ b = code := by
  rw [noteIf]
  split
  · next h =>
    rw [KeyedSet.mem_insert_of_injective Function.injective_id, or_comm, and_iff_right h]
  · next h => simp [h]

/-! ## Discovery -/

def isController (facts : ClrAttributeFacts) : Bool :=
  let owner := facts.containingType
  !owner.isAbstract && !owner.isGeneric && !owner.attributes.any (·.isA nonController) &&
    ((stripSuffix "Controller" owner.name).isSome || owner.attributes.any
      (·.isA controllerAttribute))

def isAction (facts : ClrAttributeFacts) : Bool :=
  let method := facts.method
  method.accessibility == "PUBLIC" && !method.isStatic && !method.isAbstract && !method.isGeneric &&
    !method.attributes.any (·.isA nonAction) && method.name != "Dispose"

/-! ## Selectors -/

/-- A template, if there is one, with the methods it is for. -/
structure Selector where
  template : Option String
  methods : List String
  unknownMethods : Bool
  attributeType : Option String

/-- The template of a provider of templates, which may have none; an error if it cannot be seen. -/
def routeTemplate (use : ClrAttributeUse) : Except Unit (Option String) :=
  if use.isA acceptVerbs then .ok ((use.namedArguments["Route"]?).bind ClrValue.asString)
  else if use.isA routeAttribute ∨ use.isA httpMethod then
    match use.argument "template" with
    | some value =>
      match value.asString with
      | some template => .ok (some template)
      | none => .error ()
    | none =>
      if (stripPrefix mvc use.attributeType).isSome then .ok none
      -- A derived attribute without such a parameter sets its template itself.
      else if use.constructorArguments.isEmpty then .ok none
      else .error ()
  else .error ()

section Program

variable [Uppercase]

def toUppercase (text : String) : String :=
  String.ofList ((chars text).flatMap Uppercase.toUppercase)

/-- The methods of a provider of methods, and whether they could not be found out. -/
def httpMethods (use : ClrAttributeUse) : List String × Bool :=
  if use.isA acceptVerbs then
    match use.constructorArguments.mapM ClrValue.strings with
    | some values => (KeyedSet.ofList id (values.flatten.map toUppercase), false)
    | none => ([], true)
  else
    match verbs.find? fun verb ↦ use.attributeType = mvc ++ verb.1 with
    | some verb => ([verb.2], false)
    | none =>
      match verbs.find? fun verb ↦ use.attributeBases.contains (mvc ++ verb.1) with
      | some verb => ([verb.2], false)
      | none => ([], true)

/-- The state of the loop over the attributes. -/
structure Selecting where
  templated : List Selector
  silentMethods : List String
  silentUnknown : Bool
  boundaries : List String

/-- An attribute that provides no templates has none. -/
def templateOf (use : ClrAttributeUse) : Except Unit (Option String) :=
  if use.implements routeTemplateProvider then routeTemplate use else .ok none

def methodsOf (use : ClrAttributeUse) : List String × Bool :=
  if use.implements httpMethodProvider then httpMethods use else ([], false)

/-- The methods of an attribute without a template are kept apart. -/
def Selecting.silence (state : Selecting) (use : ClrAttributeUse) : Selecting :=
  { state with
    silentMethods := KeyedSet.extend id state.silentMethods (methodsOf use).1
    silentUnknown := state.silentUnknown || (methodsOf use).2 }

def selectUse (state : Selecting) (use : ClrAttributeUse) : Selecting :=
  if !use.implements routeTemplateProvider && !use.implements httpMethodProvider then state
  else
    match templateOf use with
    | .ok (some template) =>
      { state with
        templated := state.templated ++
          [⟨some template, (methodsOf use).1, (methodsOf use).2, some use.attributeType⟩] }
    | .ok none => state.silence use
    | .error _ =>
      { state.silence use with
        boundaries :=
          noteIf True "CUSTOM_ROUTE_TEMPLATE_PROVIDER_REQUIRES_REVIEW" state.boundaries }

/-- The methods of attributes without a template are for all selectors. -/
def Selecting.constrain (state : Selecting) (selector : Selector) : Selector :=
  { selector with
    methods := KeyedSet.extend id selector.methods state.silentMethods
    unknownMethods := selector.unknownMethods || state.silentUnknown }

/-- The selectors of attributes, and the boundaries with those that are met. -/
def selectors (attributes : List ClrAttributeUse) (boundaries : List String) :
    List Selector × List String :=
  let state := attributes.foldl selectUse ⟨[], [], false, boundaries⟩
  (if state.templated.isEmpty then [⟨none, state.silentMethods, state.silentUnknown, none⟩]
    else state.templated.map state.constrain, state.boundaries)

end Program

/-! ## Templates -/

/-- `trim_start_matches` with `~/` -/
def trimTilde : List Char → List Char
  | '~' :: '/' :: text => trimTilde text
  | text => text

/-- A template without the marks and separators around it. -/
def clean (value : String) : String :=
  String.ofList (((trimTilde (chars value)).dropWhile (· = '/')).rdropWhile (· = '/'))

def overrides (value : String) : Bool :=
  (stripPrefix "/" value).isSome || (stripPrefix "~/" value).isSome

def combine (controller action : Option String) : Option String :=
  match controller, action with
  | controller, some action =>
    if overrides action then some (clean action)
    else
      match controller with
      | none => some (clean action)
      | some controller =>
        let (controller, action) := (clean controller, clean action)
        some (if controller = "" then action else if action = "" then controller
          else controller ++ "/" ++ action)
  | some controller, none => some (clean controller)
  | none, none => none

/-! ## Attributes of the controller and the action -/

def stringAttribute (attributes : List ClrAttributeUse) (name parameter : String) : Option String :=
  ((attributes.find? (·.isA name)).bind fun use ↦
    (use.argument parameter).or use.constructorArguments.head?).bind ClrValue.asString

def versionText : ClrValue → Option String
  | .primitive _ (some value) => some value
  | _ => none

def collectVersions (attributes : List ClrAttributeUse) (names : List String) : List String :=
  KeyedSet.ofList id ((attributes.filter fun use ↦ names.any use.isA).flatMap
    fun use ↦ use.constructorArguments.filterMap versionText)

def apiVersions (typeAttributes actionAttributes : List ClrAttributeUse) : Versions :=
  let mapped := collectVersions actionAttributes mapToApiVersion
  ⟨if mapped.isEmpty then
      KeyedSet.extend id (collectVersions typeAttributes apiVersion)
        (collectVersions actionAttributes apiVersion)
    else mapped⟩

/-- The texts that attributes of one kind list, if all of them are texts. -/
def listedTexts (attributes : List ClrAttributeUse) (name : String) : Option (List String) :=
  (((attributes.filter (·.isA name)).flatMap (·.constructorArguments)).mapM ClrValue.strings).map
    List.flatten

/-- What the action lists takes the place of what the controller lists. -/
def pick (typeAttributes actionAttributes : List ClrAttributeUse) (name : String) :
    Option (List String) :=
  match listedTexts actionAttributes name with
  | some [] => listedTexts typeAttributes name
  | other => other

def optionalText (text : Option String) : Json := (text.map Json.str).getD .null

def optionalTexts (texts : Option (List String)) : Json :=
  (texts.map fun texts ↦ Json.arr (texts.map .str)).getD .null

def policy (use : ClrAttributeUse) : Json :=
  .obj [("authenticationSchemes",
      optionalText ((use.namedArguments["AuthenticationSchemes"]?).bind ClrValue.asString)),
    ("policy", optionalText
      (((use.argument "policy").or use.namedArguments["Policy"]?).bind ClrValue.asString)),
    ("roles", optionalText ((use.namedArguments["Roles"]?).bind ClrValue.asString))]

def conditions (typeAttributes actionAttributes : List ClrAttributeUse) : Json :=
  .obj [("authorization", .obj [
      ("allowAnonymous", .bool (actionAttributes.any (·.isA allowAnonymous) ||
        typeAttributes.any (·.isA allowAnonymous))),
      ("authorize", .arr (((typeAttributes ++ actionAttributes).filter (·.isA authorize)).map
        policy))]),
    ("consumes", optionalTexts (pick typeAttributes actionAttributes consumes)),
    ("produces", optionalTexts (pick typeAttributes actionAttributes produces))]

/-- The attributes of an overridden action apply when the override has none. -/
def actionAttributes (facts : ClrAttributeFacts) : List ClrAttributeUse :=
  if facts.method.attributes.isEmpty then facts.overriddenAttributes else facts.method.attributes

def controllerName (facts : ClrAttributeFacts) : String :=
  let owner := facts.containingType
  (stringAttribute owner.attributes controllerNameAttribute "name").getD
    (((stripSuffix "Controller" owner.name).filter (· ≠ "")).getD owner.name)

/-- The name of a method without the suffix that is left out by default. -/
def trimmedName (facts : ClrAttributeFacts) : Option String :=
  (stripSuffix "Async" facts.method.name).filter (· ≠ "")

def actionName (facts : ClrAttributeFacts) : String :=
  (stringAttribute (actionAttributes facts) actionNameAttribute "name").getD
    ((trimmedName facts).getD facts.method.name)

def asyncSuffixAssumed (facts : ClrAttributeFacts) : Bool :=
  (stringAttribute (actionAttributes facts) actionNameAttribute "name").isNone &&
    (trimmedName facts).isSome

def routeValues (facts : ClrAttributeFacts) : RouteValues where
  controller := controllerName facts
  action := actionName facts
  area := stringAttribute facts.containingType.attributes areaAttribute "areaName"

/-! ## Routes -/

inductive Resolution where
  | derived
  | requiresConfiguration
  | requiresResolution
  deriving DecidableEq, Repr

def Resolution.name : Resolution → String
  | derived => "DERIVED"
  | requiresConfiguration => "REQUIRES_RUNTIME_ROUTE_CONFIGURATION"
  | requiresResolution => "REQUIRES_RUNTIME_ROUTE_RESOLUTION"

/-- The state of the loop over the selectors of the controller. -/
structure Routing where
  paths : List String
  resolution : Resolution
  chain : List String
  boundaries : List String

/-- The token for the action occurs in a template. -/
def namesAction (template : String) : Bool :=
  chars "[action]" <:+: (chars template).map Char.toLower

def addRoute (facts : ClrAttributeFacts) (action : Selector) (state : Routing)
    (controller : Option Selector) : Routing :=
  let state := { state with chain := state.chain ++ (controller.bind (·.attributeType)).toList }
  match combine (controller.bind (·.template)) action.template with
  | none => { state with resolution := .requiresConfiguration }
  | some template =>
    let state := { state with
      boundaries := noteIf (asyncSuffixAssumed facts ∧ namesAction template)
        "ACTION_NAME_ASYNC_SUFFIX_DEFAULT_ASSUMED" state.boundaries }
    match replaceTokens (routeValues facts) template with
    | some path => { state with paths := KeyedSet.insert id path state.paths }
    | none => { state with resolution := .requiresResolution }

structure AspNetCoreEntry where
  kind : String
  controller : String
  action : String
  attributeChain : List String
  registration : String
  trigger : Json

/-- The routes of one selector of the action. -/
def routes (facts : ClrAttributeFacts) (controllers : List (Option Selector)) (action : Selector)
    (boundaries : List String) : Routing :=
  controllers.foldl (addRoute facts action) ⟨[], .derived, [], boundaries⟩

def methodsValue (action : Selector) : Json :=
  if action.unknownMethods then .null
  else if action.methods.isEmpty then .arr [.str "ANY"]
  else .arr (action.methods.map .str)

/-- The entry point of one selector of the action, and the boundaries with those that are met. -/
def actionEntry (facts : ClrAttributeFacts) (controllers : List (Option Selector))
    (boundaries : List String) (action : Selector) : AspNetCoreEntry × List String :=
  let typeAttributes := facts.containingType.attributes
  let versions := apiVersions typeAttributes (actionAttributes facts)
  let state := routes facts controllers action boundaries
  let (paths, versioned, versionBoundary) := expandVersions state.paths versions false
  let boundaries := noteIf (versionBoundary = true)
    "API_VERSION_ROUTE_SEGMENT_FORMAT_RUNTIME_CONFIGURED" state.boundaries
  let boundaries := noteIf (maxPaths < paths.length) "ROUTE_PATH_PRODUCT_BUDGET" boundaries
  let boundaries := noteIf (action.unknownMethods = true)
    "CUSTOM_HTTP_METHOD_PROVIDER_REQUIRES_REVIEW" boundaries
  let resolution := if maxPaths < paths.length then .requiresResolution else state.resolution
  let unlisted := paths.isEmpty ∨ maxPaths < paths.length
  let resolution := if unlisted ∧ resolution = .derived then .requiresConfiguration else resolution
  ({ kind := "HTTP_ENDPOINT"
     controller := facts.containingType.identity
     action := actionName facts
     attributeChain := KeyedSet.ofList id (state.chain ++ action.attributeType.toList)
     registration := "RUNTIME_CONDITIONAL"
     trigger := .obj [
       ("apiVersions", .arr (versions.declared.map .str)),
       ("authority", .str "ASPNETCORE_ROUTING_RULES"),
       ("conditions", conditions typeAttributes (actionAttributes facts)),
       ("methods", methodsValue action),
       ("pathResolution", .str resolution.name),
       ("paths", if unlisted then .null else .arr (paths.map .str)),
       ("versionedPaths", versioned)] }, boundaries)

/-- The entry points of the selectors one after the other. -/
def entriesOf (facts : ClrAttributeFacts) (controllers : List (Option Selector)) :
    List Selector → List String → List AspNetCoreEntry × List String
  | [], boundaries => ([], boundaries)
  | action :: actions, boundaries =>
    let (entry, boundaries) := actionEntry facts controllers boundaries action
    let (entries, boundaries) := entriesOf facts controllers actions boundaries
    (entry :: entries, boundaries)

section Program

variable [Uppercase]

def actionEntries (facts : ClrAttributeFacts) (boundaries : List String) :
    List AspNetCoreEntry × List String :=
  let owner := facts.containingType
  let boundaries := noteIf (owner.accessibility ≠ "PUBLIC")
    "CONTROLLER_DISCOVERY_REQUIRES_CUSTOM_FEATURE_PROVIDER" boundaries
  let boundaries := noteIf (owner.isNested = true)
    "NESTED_CONTROLLER_DISCOVERY_REQUIRES_REVIEW" boundaries
  let (controllerSelectors, boundaries) := selectors owner.attributes boundaries
  let (actionSelectors, boundaries) := selectors (actionAttributes facts) boundaries
  let attributed := (controllerSelectors ++ actionSelectors).any (·.template.isSome)
  let boundaries := noteIf (¬attributed)
    "CONVENTIONAL_ROUTING_REQUIRES_RUNTIME_CONFIGURATION" boundaries
  let controllers :=
    if controllerSelectors.isEmpty then [none] else controllerSelectors.map some
  entriesOf facts controllers actionSelectors boundaries

structure AspNetCoreMetadata where
  schema : String
  authority : String
  entries : List AspNetCoreEntry
  boundaries : List String
  derivation : Derivation

/-- Only the actions of controllers have entry points. -/
def discover (facts : ClrAttributeFacts) (boundaries : List String) :
    List AspNetCoreEntry × List String :=
  if isController facts ∧ isAction facts then actionEntries facts boundaries else ([], boundaries)

def analyze (digests : Digests ClrAttributeFacts) (facts : ClrAttributeFacts) :
    Except String AspNetCoreMetadata := do
  facts.validate
  let found := discover facts (KeyedSet.ofList id facts.boundaries)
  return {
    schema := outputSchema
    authority := "FRAMEWORK_DERIVED"
    entries := found.1
    boundaries := found.2
    derivation := {
      moduleId
      policyVersion
      implementationDigest := digests.implementation
      inputDigest := digests.input facts
      inputAuthority := facts.authority
      inputSchema := facts.schema
      coverage := facts.coverage.status } }

end Program

end Codeclew.AspNetCore
