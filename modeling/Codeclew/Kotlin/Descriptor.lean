import Codeclew.Files
import Codeclew.Json.Codec

/-!
# Kotlin declaration descriptors

A descriptor is what the compiler reports of one declaration, and it is checked before it is kept:
its authority and its source range, the fields it may have, the identity that its symbol, its
compiler names and its JVM signature have to agree on, and its types. The checks of the fields that
other parts of the system own are not gone into; they are the `ForeignChecks`.

A descriptor with the marks of a partial one has no attributes and is checked less far; exact
declarations do not come from those.
-/

namespace Codeclew.Kotlin

/-! ## Access -/

def text? (value : Json) (field : String) : Option String := (value.get? field).bind Json.asStr?

def payloadString (value : Json) (field : String) : Except ClewError String :=
  match (text? value field).filter (· ≠ "") with
  | some text => .ok text
  | none => .error (invalid s!"semantic payload has no nonempty {field}")

def requiredString (value : Json) (field : String) : Except ClewError String :=
  match (text? value field).filter (· ≠ "") with
  | some text => .ok text
  | none => .error (invalid s!"declaration descriptor graph has no {field}")

def isBool (value : Option Json) : Bool := (value.bind Json.asBool?).isSome

def closedPayload (value : Json) (allowed : List String) (label : String) :
    Except ClewError Unit :=
  match value with
  | .obj members => ensure (∀ m ∈ members, m.1 ∈ allowed)
      (invalid s!"{label} has a field outside its exact contract")
  | _ => .error (invalid s!"{label} is not an object")

def contains (part text : String) : Bool := decide (chars part <:+: chars text)

/-- A relative path without a step to a parent. -/
def repositoryContained (file : String) : Bool :=
  (chars file).head? ≠ some '/' && !((chars file).splitOn '/').contains ['.', '.']

def validatePayloadLocation (value : Json) (label : String) : Except ClewError Unit := do
  let file ← payloadString value "file"
  ensure (repositoryContained file) (invalid s!"{label} source path is not repository-contained")
  match (value.get? "start").bind Json.asI64?, (value.get? "end").bind Json.asI64? with
  | none, _ => .error (invalid s!"{label} has no source start")
  | _, none => .error (invalid s!"{label} has no source end")
  | some start, some finish =>
    ensure (¬(start < 0 ∨ finish < start)) (invalid s!"{label} has an invalid source range")

def isCanonicalSha256 (value : String) : Bool :=
  match stripPrefix "sha256:" value with
  | some digest => isLowerHex digest 64
  | none => false

/-! ## JVM signatures -/

/-- The name of a class up to its semicolon, after so many characters of a segment. -/
def objectType : ℕ → List Char → Except ClewError (List Char)
  | _, [] => .error (invalid "JVM method descriptor has an unterminated object type")
  | segment, c :: cs =>
    if c = ';' ∧ 0 < segment then .ok cs
    else if (c = ';' ∨ c = '/') ∧ segment = 0 then
      .error (invalid "JVM method descriptor object type has an empty name segment")
    else if c = '/' then objectType 0 cs
    else if c ∈ ['.', '[', '(', ')'] ∨ c.toNat ≤ 31 ∨ c.toNat = 127 then
      .error (invalid "JVM method descriptor object type has an invalid class name")
    else objectType (segment + 1) cs

/-- One type after so many array dimensions: the slots it takes, and what follows it. -/
def fieldType : ℕ → List Char → Except ClewError (ℕ × List Char)
  | _, [] => .error (invalid "JVM method descriptor has an incomplete field type")
  | dimensions, c :: cs =>
    if c = '[' then
      if 255 < dimensions + 1 then
        .error (invalid "JVM method descriptor array has more than 255 dimensions")
      else fieldType (dimensions + 1) cs
    else if c ∈ ['B', 'C', 'D', 'F', 'I', 'J', 'S', 'Z'] then
      .ok (if dimensions = 0 ∧ (c = 'D' ∨ c = 'J') then 2 else 1, cs)
    else if c = 'L' then (objectType 0 cs).map fun rest ↦ (1, rest)
    else if c = 'V' ∧ 0 < dimensions then
      .error (invalid "JVM method descriptor array component cannot be void")
    else if c = 'V' then .error (invalid "JVM method descriptor parameter cannot be void")
    else .error (invalid "JVM method descriptor contains an unknown field type")

/-- The types up to the closing parenthesis: how many there are, and what follows. There is one for
each character at most. -/
def parameters : (remaining : ℕ) → (count slots : ℕ) → List Char → Except ClewError (ℕ × List Char)
  | _, _, _, [] => .error (invalid "JVM method descriptor has no closing parameter delimiter")
  | 0, _, _, _ :: _ => .error (invalid "JVM method descriptor has no closing parameter delimiter")
  | remaining + 1, count, slots, c :: cs =>
    if c = ')' then .ok (count, cs)
    else do
      let (taken, rest) ← fieldType 0 (c :: cs)
      ensure (slots + taken ≤ 255)
        (invalid "JVM method descriptor parameter length exceeds 255 units")
      parameters remaining (count + 1) (slots + taken) rest

structure ParsedJvmMethodDescriptor where
  returnsVoid : Bool
  parameterCount : ℕ
  deriving DecidableEq, Repr

def parseJvmMethodDescriptor (descriptor : String) :
    Except ClewError ParsedJvmMethodDescriptor :=
  match chars descriptor with
  | '(' :: cs => do
    let (count, rest) ← parameters (cs.length + 1) 0 0 cs
    let (returnsVoid, rest) ← match rest with
      | 'V' :: rest => Except.ok (true, rest)
      | rest => (fieldType 0 rest).map fun (_, rest) ↦ (false, rest)
    ensure (rest = []) (invalid "JVM method descriptor has trailing bytes")
    return ⟨returnsVoid, count⟩
  | _ => .error (invalid "JVM method descriptor has no opening parameter delimiter")

def validateJvmMethodDescriptor (descriptor : String) : Except ClewError Unit := do
  let _ ← parseJvmMethodDescriptor descriptor
  return ()

def validateJvmFunctionSignature (signature : String) : Except ClewError Unit := do
  let name := (chars signature).takeWhile (· ≠ '(')
  let descriptor := (chars signature).dropWhile (· ≠ '(')
  if (chars signature).head? = some '(' then validateJvmMethodDescriptor signature
  else do
    ensure (descriptor ≠ []) (invalid "JVM function signature has no method descriptor")
    ensure (∀ c ∈ name, c ∉ ['.', ';', '[', '/', '<', '>'] ∧ 31 < c.toNat ∧ c.toNat ≠ 127)
      (invalid "JVM function signature has an invalid method name")
    validateJvmMethodDescriptor (String.ofList descriptor)

def validatePartialJvmSignature (signature : String) : Except ClewError Unit :=
  ensure (signature ≠ "" ∧ (chars signature).any isControl = false ∧
    contains "#jvm:" signature = false ∧ contains "://" signature = false ∧
    '\\' ∉ chars signature ∧ '@' ∉ chars signature ∧ '(' ∈ chars signature ∧ ')' ∈ chars signature)
    (invalid "partial JVM signature is not a safe opaque compiler identity")

/-- A name in the root package begins with its slash. -/
def rootName (identity : String) (allowRootPackageCallable : Bool) : List Char :=
  match chars identity with
  | '/' :: root => if allowRootPackageCallable ∧ '/' ∉ root then root else '/' :: root
  | cs => cs

def validateRawCompilerIdentity (identity label : String) (allowRootPackageCallable : Bool) :
    Except ClewError Unit :=
  let cs := rootName identity allowRootPackageCallable
  let name := String.ofList cs
  ensure (cs ≠ [] ∧ cs.any isControl = false ∧
    cs.head? ≠ some '/' ∧ cs.any (· ∈ [':', '\\', '@']) = false ∧
    (∀ segment ∈ cs.splitOn '/', segment ≠ [] ∧ segment ≠ ['.'] ∧ segment ≠ ['.', '.']) ∧
    contains "#jvm:" name = false ∧ contains "<unknown>" name = false ∧
    contains "<unresolved>" name = false ∧ cs ≠ chars "UNKNOWN" ∧
    ∀ tag ∈ ["callable:", "constructor:", "property:", "class:", "package:"],
      stripPrefix tag name = none) (invalid s!"{label} is not a raw K2 compiler identity")

/-- What comes before and after the first `#jvm:`. -/
def splitSignature : List Char → Option (String × String)
  | [] => none
  | c :: cs =>
    match stripPrefix "#jvm:" (String.ofList (c :: cs)) with
    | some signature => some ("", signature)
    | none => (splitSignature cs).map fun (name, signature) ↦
        (String.singleton c ++ name, signature)

def validateRelationEndpoint (identity label : String) : Except ClewError Unit :=
  match stripPrefix "callable:" identity with
  | some tagged => do
    let some (callable, signature) := splitSignature (chars tagged)
      | .error (invalid s!"{label} callable symbol has no JVM signature")
    validateRawCompilerIdentity callable label true
    validateJvmFunctionSignature signature
  | none =>
  match stripPrefix "constructor:" identity with
  | some tagged => do
    let some (callable, descriptor) := splitSignature (chars tagged)
      | .error (invalid s!"{label} constructor symbol has no JVM descriptor")
    validateRawCompilerIdentity callable label false
    let parsed ← parseJvmMethodDescriptor descriptor
    ensure parsed.returnsVoid (invalid s!"{label} constructor descriptor does not return void")
  | none =>
  match stripPrefix "property:" identity with
  | some raw => validateRawCompilerIdentity raw label true
  | none =>
  match stripPrefix "class:" identity <|> stripPrefix "package:" identity with
  | some raw => validateRawCompilerIdentity raw label false
  -- a declaration of the root package is written with its slash
  | none => validateRawCompilerIdentity identity label true

def validateKotlinFullSymbolIdentity (identity : String) : Except ClewError Unit := do
  ensure (contains "://" identity = false ∧ '\\' ∉ chars identity ∧ '@' ∉ chars identity)
    (invalid "Kotlin full symbol identity contains URL or credential syntax")
  ensure (∃ tag ∈ ["callable:", "constructor:", "property:", "class:"],
    (stripPrefix tag identity).isSome)
    (invalid "Kotlin full symbol identity has no supported declaration tag")
  validateRelationEndpoint identity "Kotlin full symbol identity"

/-! ## Facts -/

/-- The checks of fields whose contents are not looked into here. -/
structure ForeignChecks where
  annotationFacts : Json → Option String → Except ClewError Unit
  springMetadata : Json → Except ClewError Unit
  constructorStorage : Json → Except ClewError Unit
  stringConstant : Json → Except ClewError Unit
  propertyStorage : Json → Except ClewError Unit

/-- Check a field, if there is one. -/
def checkField (value : Json) (field : String) (check : Json → Except ClewError Unit) :
    Except ClewError Unit :=
  match value.get? field with
  | some content => check content
  | none => .ok ()

def isPartial (value : Json) : Bool :=
  (value.get? "attributeCoverage").isSome || (value.get? "sourceRowHash").isSome

def commonFields : List String :=
  ["schema", "file", "start", "end", "startLine", "endLine", "lineProvenance", "symbolIdentity",
    "declarationKind", "ownerIdentity", "containment", "resolution", "provider", "module",
    "sourceSet", "sourceProvenance", "compilerAuthority"]

def attributeFields : List String :=
  ["visibility", "effectiveVisibility", "exportBoundary", "modality", "typeParameters"]

/-- The fields a kind of declaration has besides those. -/
def kindFields (kind : String) (incomplete : Bool) : Option (List String) :=
  if kind = "FUNCTION" then
    some (["compilerCallableId", "jvmDescriptor"] ++ if incomplete then [] else
      ["isOverride", "spring", "jvmAnnotations", "returnType", "returnNullable", "parameterTypes",
        "receiverType"])
  else if kind = "CONSTRUCTOR" then
    some (["compilerCallableId", "compilerClassId", "jvmDescriptor"] ++ if incomplete then [] else
      ["isPrimary", "parameterTypes", "documentationConstructorStorage"])
  else if kind = "PROPERTY" ∨ kind = "MUTABLE_PROPERTY" then
    some (["compilerCallableId"] ++ if incomplete then [] else
      ["isOverride", "declaredType", "declaredNullable", "documentationStorage",
        "documentationStringConstant"])
  else if kind = "CLASS" then some ["compilerClassId", "spring", "jvmAnnotations"]
  else none

def descriptorAllowedFields (kind : String) (incomplete : Bool) : Except ClewError (List String) :=
  match kindFields kind incomplete with
  | some fields => .ok (commonFields ++
      (if incomplete then ["attributeCoverage", "sourceRowHash"] else attributeFields) ++ fields)
  | none => .error (invalid "unknown declaration descriptor kind")

def validateOptionalDescriptorLines (value : Json) : Except ClewError Unit :=
  let present := ["startLine", "endLine", "lineProvenance"].filter fun f ↦ (value.get? f).isSome
  if present = [] then .ok ()
  else
    let start := (value.get? "startLine").bind Json.asU64?
    let finish := (value.get? "endLine").bind Json.asU64?
    ensure (present.length = 3 ∧ start.isSome ∧ finish.isSome ∧
      (∀ line ∈ start, line ≠ 0) ∧ (∀ line ∈ finish, line ≠ 0) ∧
      (∀ s ∈ start, ∀ f ∈ finish, s ≤ f) ∧
      text? value "lineProvenance" = some "UTF8_BYTE_RANGE_OVER_COMPILATION_SOURCE")
      (invalid "declaration descriptor has invalid line coordinates")

def isAuthoritative (value : Json) : Prop :=
  text? value "schema" = some "declaration-descriptor/0.1" ∧
    text? value "resolution" = some "PROVEN" ∧ text? value "provider" = some "K2_FIR" ∧
    text? value "sourceProvenance" = some "COMPILER_UTF16_RANGE_TO_UTF8_BYTES" ∧
    text? value "compilerAuthority" = some "fir-facts-extractor/0.6"

instance (value : Json) : Decidable (isAuthoritative value) :=
  inferInstanceAs (Decidable (_ ∧ _))

section Facts

variable (checks : ForeignChecks) (value : Json)

def validateFunctionFact : Except ClewError Unit := do
  let callable ← payloadString value "compilerCallableId"
  validateRawCompilerIdentity callable "function compilerCallableId" true
  let identity ← payloadString value "symbolIdentity"
  match stripPrefix ("callable:" ++ callable ++ "#jvm:") identity with
  | none => .error (invalid "function symbol identity is inconsistent")
  | some signature =>
    if isPartial value then validatePartialJvmSignature signature
    else do
      validateJvmFunctionSignature signature
      checkField value "jvmDescriptor" fun descriptor ↦
        match descriptor with
        | .str descriptor => do
          validateJvmMethodDescriptor descriptor
          ensure (signature = descriptor)
            (invalid "function symbol identity disagrees with JVM descriptor")
        | _ => .error (invalid "function JVM descriptor is not a string")

def validateConstructorSignature (descriptor : String) : Except ClewError Unit :=
  if isPartial value then validatePartialJvmSignature descriptor
  else do
    let parsed ← parseJvmMethodDescriptor descriptor
    ensure parsed.returnsVoid (invalid "constructor compiler/JVM identity is inconsistent")

def validateConstructorFact : Except ClewError Unit := do
  let callable ← payloadString value "compilerCallableId"
  let cls ← payloadString value "compilerClassId"
  let descriptor ← payloadString value "jvmDescriptor"
  validateRawCompilerIdentity callable "constructor compilerCallableId" false
  validateRawCompilerIdentity cls "constructor compilerClassId" false
  let identity ← payloadString value "symbolIdentity"
  let owner ← payloadString value "ownerIdentity"
  ensure (identity = "constructor:" ++ callable ++ "#jvm:" ++ descriptor ∧ owner = "class:" ++ cls)
    (invalid "constructor compiler/JVM identity is inconsistent")
  validateConstructorSignature value descriptor
  checkField value "documentationConstructorStorage" fun _ ↦ checks.constructorStorage value

def validatePropertyFact : Except ClewError Unit := do
  let callable ← payloadString value "compilerCallableId"
  validateRawCompilerIdentity callable "property compilerCallableId" true
  let identity ← payloadString value "symbolIdentity"
  ensure (identity = "property:" ++ callable) (invalid "property compiler identity is inconsistent")
  checkField value "documentationStringConstant" fun _ ↦ checks.stringConstant value
  checkField value "documentationStorage" fun _ ↦ checks.propertyStorage value

def validateClassFact : Except ClewError Unit := do
  let cls ← payloadString value "compilerClassId"
  validateRawCompilerIdentity cls "class compilerClassId" false
  let identity ← payloadString value "symbolIdentity"
  ensure (identity = "class:" ++ cls) (invalid "class compiler identity is inconsistent")

def validateKindFact (kind : String) : Except ClewError Unit :=
  if kind = "FUNCTION" then validateFunctionFact value
  else if kind = "CONSTRUCTOR" then validateConstructorFact checks value
  else if kind = "PROPERTY" ∨ kind = "MUTABLE_PROPERTY" then validatePropertyFact checks value
  else validateClassFact value

/-- A partial descriptor says so, and has the hash of the row it was cut down from. -/
def validatePartialCore : Except ClewError Unit :=
  if isPartial value then do
    let hash ← payloadString value "sourceRowHash"
    ensure (text? value "attributeCoverage" = some "PARTIAL" ∧ isCanonicalSha256 hash)
      (invalid "partial declaration descriptor has invalid core authority")
  else .ok ()

def validateDeclarationDescriptorFact : Except ClewError Unit := do
  ensure (isAuthoritative value) (invalid "malformed or non-authoritative declaration descriptor")
  validatePayloadLocation value "declaration descriptor"
  validateOptionalDescriptorLines value
  checkField value "jvmAnnotations" fun annotations ↦
    checks.annotationFacts annotations (text? value "symbolIdentity")
  checkField value "spring" checks.springMetadata
  ["symbolIdentity", "ownerIdentity", "module", "sourceSet"].forM fun field ↦ do
    let _ ← payloadString value field
  ensure (((value.get? "containment").bind Json.asArr?).isSome)
    (invalid "declaration descriptor has no containment array")
  let kind ← payloadString value "declarationKind"
  let allowed ← descriptorAllowedFields kind (isPartial value)
  closedPayload value allowed "declaration descriptor"
  validatePartialCore value
  validateKindFact checks value kind

end Facts

/-! ## Types -/

/-- Whether an arrow stands outside of all parentheses and type arguments. -/
def hasRootArrow : (parentheses generics : ℕ) → List Char → Bool
  | _, _, [] => false
  | p, g, '(' :: cs => hasRootArrow (p + 1) g cs
  | p, g, ')' :: cs => hasRootArrow (p - 1) g cs
  | p, g, '<' :: cs => hasRootArrow p (g + 1) cs
  | p, g, '>' :: cs => hasRootArrow p (g - 1) cs
  | p, g, '-' :: '>' :: cs => (p == 0 && g == 0) || hasRootArrow p g cs
  | p, g, _ :: cs => hasRootArrow p g cs

/-- A type ends in a question mark, and this is not the one of a function's result. -/
def renderedRootNullable (rendered : String) : Bool :=
  let cs := ((chars rendered).reverse.dropWhile isWhitespace).reverse
  cs.getLast? == some '?' && !hasRootArrow 0 0 cs

def validateTypedValue (value : Json) (typeField nullField : String) : Except ClewError Unit := do
  let rendered ← requiredString value typeField
  match (value.get? nullField).bind Json.asBool? with
  | none => .error (invalid s!"declaration descriptor has no boolean {nullField}")
  | some nullable => do
    ensure (contains ".." rendered = false ∧ contains "!" rendered = false ∧
      contains "<ERROR" rendered = false)
      (invalid "flexible, platform, or unresolved compiler type cannot be PROVEN")
    ensure (nullable = renderedRootNullable rendered)
      (invalid s!"declaration descriptor {nullField} disagrees with compiler type rendering")

def validateParameterSlot (value : Json) (index : ℕ) : Except ClewError Unit := do
  closedPayload value ["index", "type", "nullable", "hasDefault"]
    "declaration descriptor parameter slot"
  ensure ((value.get? "index").bind Json.asU64? = some (UInt64.ofNat index))
    (invalid "descriptor parameter indexes are not canonical")
  validateTypedValue value "type" "nullable"
  ensure ((value.get? "hasDefault").all fun flag ↦ isBool (some flag))
    (invalid "descriptor parameter hasDefault authority is not boolean")

def nonemptyStringArray (value : Json) (field : String) : Except ClewError (List Json) :=
  match (value.get? field).bind Json.asArr? with
  | none => .error (invalid s!"declaration descriptor has no {field}")
  | some items => do
    ensure (∀ item ∈ items, item.asStr?.any (· ≠ ""))
      (invalid s!"declaration descriptor {field} contains a non-string identity")
    return items

def validateTypeParameter (value : Json) (index : ℕ) : Except ClewError Unit := do
  ensure ((value.get? "index").bind Json.asU64? = some (UInt64.ofNat index) ∧
    (requiredString value "compilerName").isOk)
    (invalid "declaration descriptor type parameter identity is invalid")
  let bounds ← nonemptyStringArray value "bounds"
  ensure ((bounds.map Json.render).IsChain (· < ·))
    (invalid "declaration descriptor type parameter bounds are not canonical")

/-- Check each element with its place. -/
def forEachIndexed (check : Json → ℕ → Except ClewError Unit) :
    (index : ℕ) → List Json → Except ClewError Unit
  | _, [] => .ok ()
  | index, x :: xs => do
    check x index
    forEachIndexed check (index + 1) xs

def validateTypeParameters (value : Json) : Except ClewError Unit :=
  match (value.get? "typeParameters").bind Json.asArr? with
  | none => .error (invalid "declaration descriptor has no typeParameters")
  | some parameters => forEachIndexed validateTypeParameter 0 parameters

/-! ## Rows -/

def validateFieldClosure (value : Json) (kind : String) : Except ClewError Unit :=
  match kindFields kind false with
  | none => .error (invalid "unknown declaration descriptor kind")
  | some fields =>
    match value with
    | .obj members => ensure (∀ m ∈ members, m.1 ∈ commonFields ++ attributeFields ++ fields)
        (invalid "declaration descriptor has a field outside its kind-specific contract")
    | _ => .error (invalid "declaration descriptor row is not an object")

def validateEnums (value : Json) : Except ClewError Unit := do
  ensure ((text? value "visibility").any (· ∈ ["public", "internal", "private", "protected"]) ∧
    (text? value "effectiveVisibility").any
      (· ∈ ["public", "internal", "private-in-class", "private-in-file", "protected"]) ∧
    (text? value "exportBoundary").any (· ∈ ["PUBLIC_API", "MODULE_API", "PRIVATE_API"]) ∧
    (text? value "modality").any (· ∈ ["FINAL", "OPEN", "ABSTRACT", "SEALED"]))
    (invalid "declaration descriptor has an unknown compiler enum")
  let expected := match text? value "effectiveVisibility" with
    | some "public" | some "protected" => "PUBLIC_API"
    | some "internal" => "MODULE_API"
    | _ => "PRIVATE_API"
  ensure (text? value "exportBoundary" = some expected)
    (invalid "declaration descriptor export boundary disagrees with effective visibility")

def validateConstructorIndex (value : Json) (index : ℕ) : Except ClewError Unit :=
  match (value.get? "index").bind Json.asU64? with
  | none => .error (invalid "constructor parameter has no index")
  | some actual =>
    ensure (actual = UInt64.ofNat index)
      (invalid "constructor parameter indexes are not canonical and unique")

/-- The index is checked before the slot, and in it again. -/
def validateConstructorSlot (value : Json) (index : ℕ) : Except ClewError Unit := do
  validateConstructorIndex value index
  validateParameterSlot value index

def validateParameterTypes (slot : Json → ℕ → Except ClewError Unit) (value : Json)
    (kind : String) : Except ClewError Unit :=
  match (value.get? "parameterTypes").bind Json.asArr? with
  | none => .error (invalid s!"{kind} descriptor has no parameterTypes")
  | some parameters => forEachIndexed slot 0 parameters

def validateFunction (value : Json) : Except ClewError Unit := do
  let callable ← requiredString value "compilerCallableId"
  let identity ← requiredString value "symbolIdentity"
  ensure ((stripPrefix ("callable:" ++ callable ++ "#jvm:") identity).isSome ∧
    isBool (value.get? "isOverride"))
    (invalid "function descriptor compiler identity is inconsistent")
  ensure (∀ jvm ∈ text? value "jvmDescriptor", identity = "callable:" ++ callable ++ "#jvm:" ++ jvm)
    (invalid "function descriptor JVM identity is inconsistent")
  validateTypedValue value "returnType" "returnNullable"
  validateParameterTypes validateParameterSlot value "function"
  checkField value "receiverType" fun receiver ↦ validateTypedValue receiver "type" "nullable"

def validateConstructor (value : Json) : Except ClewError Unit := do
  let callable ← requiredString value "compilerCallableId"
  let cls ← requiredString value "compilerClassId"
  let jvm ← requiredString value "jvmDescriptor"
  let identity ← requiredString value "symbolIdentity"
  let owner ← requiredString value "ownerIdentity"
  ensure (identity = "constructor:" ++ callable ++ "#jvm:" ++ jvm ∧ owner = "class:" ++ cls ∧
    isBool (value.get? "isPrimary") ∧ (chars jvm).head? = some '(' ∧ ')' ∈ chars jvm)
    (invalid "constructor descriptor compiler/JVM identity is inconsistent")
  validateParameterTypes validateConstructorSlot value "constructor"

def validateProperty (value : Json) : Except ClewError Unit := do
  let callable ← requiredString value "compilerCallableId"
  let identity ← requiredString value "symbolIdentity"
  ensure (identity = "property:" ++ callable ∧ isBool (value.get? "isOverride"))
    (invalid "property descriptor compiler identity is inconsistent")
  validateTypedValue value "declaredType" "declaredNullable"

def validateClass (value : Json) : Except ClewError Unit := do
  let cls ← requiredString value "compilerClassId"
  let identity ← requiredString value "symbolIdentity"
  ensure (identity = "class:" ++ cls) (invalid "class descriptor compiler identity is inconsistent")

def validateKind (value : Json) (kind : String) : Except ClewError Unit :=
  if kind = "FUNCTION" then validateFunction value
  else if kind = "CONSTRUCTOR" then validateConstructor value
  else if kind = "PROPERTY" ∨ kind = "MUTABLE_PROPERTY" then validateProperty value
  else if kind = "CLASS" then validateClass value
  else .error (invalid "unknown declaration descriptor kind")

/-- The owner is the innermost container, or a package if there is none. -/
def validateContainment (value : Json) (owner : String) : Except ClewError Unit := do
  let containment ← nonemptyStringArray value "containment"
  let agrees : Bool := match containment.getLast?.bind Json.asStr? with
    | none => (stripPrefix "package:" owner).isSome
    | some last => last == owner
  ensure agrees (invalid "declaration descriptor owner differs from compiler containment")

def validatePartialKind (value : Json) (kind : String) : Except ClewError Unit := do
  let identity ← requiredString value "symbolIdentity"
  if kind = "FUNCTION" then do
    let callable ← requiredString value "compilerCallableId"
    ensure ((stripPrefix ("callable:" ++ callable ++ "#jvm:") identity).isSome)
      (invalid "partial function descriptor compiler identity is inconsistent")
    ensure (∀ jvm ∈ text? value "jvmDescriptor",
      identity = "callable:" ++ callable ++ "#jvm:" ++ jvm)
      (invalid "partial function descriptor JVM identity is inconsistent")
  else if kind = "CONSTRUCTOR" then do
    let callable ← requiredString value "compilerCallableId"
    let cls ← requiredString value "compilerClassId"
    let jvm ← requiredString value "jvmDescriptor"
    let owner ← requiredString value "ownerIdentity"
    ensure (identity = "constructor:" ++ callable ++ "#jvm:" ++ jvm ∧ owner = "class:" ++ cls ∧
      (chars jvm).head? = some '(' ∧ ')' ∈ chars jvm)
      (invalid "partial constructor descriptor compiler/JVM identity is inconsistent")
  else if kind = "PROPERTY" ∨ kind = "MUTABLE_PROPERTY" then do
    let callable ← requiredString value "compilerCallableId"
    ensure (identity = "property:" ++ callable)
      (invalid "partial property descriptor compiler identity is inconsistent")
  else do
    let cls ← requiredString value "compilerClassId"
    ensure (identity = "class:" ++ cls)
      (invalid "partial class descriptor compiler identity is inconsistent")

def validatePartialDescriptor (value : Json) (kind : String) : Except ClewError Unit :=
  match kindFields kind true with
  | none => .error (invalid "unknown partial declaration descriptor kind")
  | some fields => do
    match value with
    | .obj members =>
      ensure (∀ m ∈ members, m.1 ∈ commonFields ++ ["attributeCoverage", "sourceRowHash"] ++ fields)
        (invalid "partial declaration descriptor has an unexpected or attributed field")
    | _ => .error (invalid "partial declaration descriptor row is not an object")
    validatePartialKind value kind

/-- What a graph of descriptors says about all of its rows: its coverage, and the module and source
set of each of its files. -/
structure Graph where
  coverage : String
  sources : String → Option (String × String)

/-- The file of a descriptor is one of the graph, and so are its module and source set. -/
def validateSource (graph : Graph) (value : Json) (file : String) : Except ClewError Unit :=
  match graph.sources file with
  | none => .error (invalid "declaration descriptor file is absent from source binding")
  | some (module, sourceSet) =>
    ensure (text? value "module" = some module ∧ text? value "sourceSet" = some sourceSet)
      (⟨.projectModelChanged,
        "declaration descriptor module/sourceSet differs from source binding"⟩ : ClewError)

def validatePartialRow (graph : Graph) (value : Json) (kind : String) : Except ClewError Unit := do
  ensure (graph.coverage = "PARTIAL" ∧ text? value "attributeCoverage" = some "PARTIAL")
    (invalid "partial declaration descriptor requires PARTIAL row and graph coverage")
  validatePartialDescriptor value kind
  let hash ← requiredString value "sourceRowHash"
  ensure (isCanonicalSha256 hash)
    (invalid "partial declaration descriptor source row hash is malformed")

def validateFullRow (checks : ForeignChecks) (value : Json) (kind : String) :
    Except ClewError Unit := do
  validateEnums value
  validateTypeParameters value
  validateFieldClosure value kind
  checkField value "jvmAnnotations" fun annotations ↦
    checks.annotationFacts annotations (text? value "symbolIdentity")
  checkField value "spring" checks.springMetadata
  validateKind value kind

/-- Check one row of a graph. -/
def validateDescriptor (checks : ForeignChecks) (graph : Graph) (value : Json) :
    Except ClewError Unit := do
  ensure (text? value "schema" = some "declaration-descriptor/0.1")
    (invalid "declaration descriptor row has the wrong payload kind")
  validateDeclarationDescriptorFact checks value
  ensure (isAuthoritative value) (invalid "malformed or non-authoritative declaration descriptor")
  let file ← requiredString value "file"
  ensure (repositoryContained file)
    (invalid "declaration descriptor source path is not repository-contained")
  validateSource graph value file
  let start := ((value.get? "start").bind Json.asI64?).getD (-1)
  let finish := ((value.get? "end").bind Json.asI64?).getD (-1)
  ensure (¬(start < 0 ∨ finish < start))
    (invalid "declaration descriptor has invalid source range")
  ["symbolIdentity", "ownerIdentity", "module", "sourceSet"].forM fun field ↦ do
    let _ ← requiredString value field
  let owner ← requiredString value "ownerIdentity"
  validateContainment value owner
  match text? value "declarationKind" with
  | none => .error (invalid "declaration descriptor has no declarationKind")
  | some kind =>
    if isPartial value then validatePartialRow graph value kind
    else validateFullRow checks value kind

end Codeclew.Kotlin
