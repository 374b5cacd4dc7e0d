import Codeclew.Generation
import Codeclew.Interaction

/-!
# Language adapters

An adapter analyses one compilation and reports what it finds as a stream of events: shards of
facts, and at the end the completion of the attempt. It is a program of somebody else, so nothing is
known of what it calls: an adapter is an arbitrary interaction with the sink it is given.

The registry selects the adapter of a request and stands between it and the consumer of the stream.
Every event is checked by a sink of its own first, and is then passed on. The two sinks keep
separate states: what the consumer refuses, the check has counted already.
-/

namespace Codeclew.Adapter

open Json Cas Generation

def compilationSchema : String := "codeclew-compilation-descriptor/2.0"
def analysisRequestSchema : String := "codeclew-analyze-generation-request/2.0"

def protocol (message : String) : ClewError := ⟨.workerProtocolMismatch, message⟩

/-! ## Requests -/

@[ext] structure LanguageUri where
  text : String
  valid : validUri text = true

instance : DecidableEq LanguageUri := fun _ _ ↦ decidable_of_iff _ LanguageUri.ext_iff.symm

structure SourceRootDescriptor where
  logicalName : String
  tree : CasObject

structure OperationDescriptor where
  operationUri : CapabilityUri
  arguments : List String

structure CompilationDescriptor where
  schema : String
  compilationId : String
  languageUri : LanguageUri
  sourceRoots : List SourceRootDescriptor
  generatedSourceRoots : List SourceRootDescriptor
  classpath : List CasObject
  toolchain : CasObject
  plugins : List CasObject
  canonicalOptions : CasObject
  dependencyCompilationIds : List String
  operations : List OperationDescriptor

structure AnalyzeGenerationRequest where
  schema : String
  attemptId : String
  generationKey : String
  capability : CapabilityUri
  compilation : CompilationDescriptor
  derivedInputManifest : CasObject
  parentGeneration : Option CasObject

def safeId (value : String) : Bool :=
  value ≠ "" && utf8Length (chars value) ≤ 128 &&
    (chars value).all fun c ↦ c.isAlphanum || c == '-' || c == '_' || c == '.' || c == ':'

/-- Check elements one after the other; each check knows whether the key is new. -/
def eachKeyed {α : Type} (key : α → String) (check : (fresh : Bool) → α → Except ClewError Unit) :
    List α → (seen : List String) → Except ClewError Unit
  | [], _ => .ok ()
  | a :: as, seen => do
    check (decide (key a ∉ seen)) a
    eachKeyed key check as (key a :: seen)

def validateUniqueCas (label : String) (objects : List CasObject) : Except ClewError Unit := do
  ensure (objects.length ≤ 65536) (invalid s!"compilation {label} exceeds its bound")
  eachKeyed CasObject.digest (fun fresh object ↦ do
    validateCas object
    ensure (fresh = true) (invalid s!"compilation {label} contains duplicate CAS objects"))
      objects []

def safeArgument (argument : String) : Bool :=
  utf8Length (chars argument) ≤ 4096 && !(chars argument).contains '\x00' &&
    (chars argument).head? != some '/' && !((chars argument).splitOn '/').contains ['.', '.']

def CompilationDescriptor.validate (compilation : CompilationDescriptor) :
    Except ClewError Unit := do
  ensure (compilation.schema = compilationSchema ∧ safeId compilation.compilationId = true)
    (invalid "compilation descriptor identity is invalid")
  validateCas compilation.toolchain
  validateCas compilation.canonicalOptions
  ensure (compilation.sourceRoots ≠ [] ∧ compilation.sourceRoots.length ≤ 4096)
    (invalid "compilation source root set is invalid")
  eachKeyed SourceRootDescriptor.logicalName (fun fresh root ↦ do
    ensure (safeId root.logicalName = true ∧ fresh = true)
      (invalid "compilation source roots are not uniquely named")
    validateCas root.tree) (compilation.sourceRoots ++ compilation.generatedSourceRoots) []
  validateUniqueCas "classpath" compilation.classpath
  validateUniqueCas "plugins" compilation.plugins
  eachKeyed id (fun fresh dependency ↦
    ensure (safeId dependency = true ∧ dependency ≠ compilation.compilationId ∧ fresh = true)
      (invalid "compilation dependency set is invalid")) compilation.dependencyCompilationIds []
  eachKeyed (fun operation : OperationDescriptor ↦ operation.operationUri.text)
    (fun fresh operation ↦
    ensure (fresh = true ∧ operation.arguments.length ≤ 1024 ∧
        operation.arguments.all safeArgument = true)
      (invalid "compilation operation is unsafe or duplicated")) compilation.operations []

def AnalyzeGenerationRequest.validate (request : AnalyzeGenerationRequest) :
    Except ClewError Unit := do
  ensure (request.schema = analysisRequestSchema ∧ safeId request.attemptId = true)
    (invalid "analysis request identity is invalid")
  discard <| Generation.digestComponent request.generationKey
  request.compilation.validate
  validateCas request.derivedInputManifest
  request.parentGeneration.forM validateCas

/-! ## Events -/

structure FactShard where
  sequence : UInt32
  facts : List FactRecord
  deriving DecidableEq

deriving instance DecidableEq for AnalysisAttemptComplete

inductive AnalysisEvent where
  | factShard (shard : FactShard)
  | attemptComplete (complete : AnalysisAttemptComplete)
  deriving DecidableEq

/-! ## The sink that checks -/

structure ConformanceSink where
  nextSequence : UInt32 := 0
  factCount : UInt64 := 0
  lastFactKey : Option String := none
  allowedCapabilities : Option (List CapabilityUri) := none
  complete : Option AnalysisAttemptComplete := none

namespace ConformanceSink

def forCapabilities (capabilities : List CapabilityUri) : ConformanceSink :=
  { allowedCapabilities := some capabilities }

/-- The key of a fact is remembered as soon as the fact is checked, also if a later fact of its
shard is refused. -/
def acceptFact (fact : FactRecord) : Program ConformanceSink ClewError Unit := do
  let sink ← Program.get
  Program.require (safeFactKey fact.factKey = true ∧ ∀ last ∈ sink.lastFactKey, last < fact.factKey)
    (protocol "adapter facts are not strictly sorted")
  Program.require (∀ allowed ∈ sink.allowedCapabilities, fact.domainUri ∈ allowed)
    (protocol "adapter emitted a fact outside its declared capabilities")
  Program.lift (validateCas fact.payload)
  Program.modify fun sink ↦ { sink with lastFactKey := some fact.factKey }

/-- The counters are machine integers and wrap around. -/
def acceptShard (shard : FactShard) : Program ConformanceSink ClewError Unit := do
  let sink ← Program.get
  Program.require (shard.sequence = sink.nextSequence ∧ shard.facts ≠ [])
    (protocol "adapter shard sequence or size is invalid")
  Program.each shard.facts acceptFact
  Program.modify fun sink ↦
    { sink with
      nextSequence := sink.nextSequence + 1
      factCount := sink.factCount + UInt64.ofNat shard.facts.length }

def acceptComplete (complete : AnalysisAttemptComplete) :
    Program ConformanceSink ClewError Unit := do
  Program.lift (discard <| Generation.digestComponent complete.scopeDigest)
  Program.lift (validateCas complete.completenessReceipt)
  Program.modify fun sink ↦ { sink with complete := some complete }

/-- An event while there is no completion yet. -/
def acceptOpen : AnalysisEvent → Program ConformanceSink ClewError Unit
  | .factShard shard => acceptShard shard
  | .attemptComplete complete => acceptComplete complete

def accept (event : AnalysisEvent) : Program ConformanceSink ClewError Unit := do
  let sink ← Program.get
  Program.require (sink.complete.isNone = true)
    (protocol "adapter emitted data after AnalysisAttemptComplete")
  acceptOpen event

def finish (sink : ConformanceSink) : Except ClewError AnalysisAttemptComplete :=
  match sink.complete with
  | none => .error (protocol "adapter stream ended without AnalysisAttemptComplete")
  | some complete => do
    ensure (complete.factCount = sink.factCount)
      (protocol "adapter completion fact count differs from streamed facts")
    return complete

end ConformanceSink

/-! ## The sink that passes on -/

/-- An event that was passed on, and what the consumer answered. -/
structure Offer where
  event : AnalysisEvent
  answer : Except ClewError Unit
  deriving DecidableEq

/-- The consumer has a state of its own. What it was offered is no part of the program's state; it
is kept to speak about it. -/
structure ForwardingAnalysisSink (δ : Type) where
  conformance : ConformanceSink
  downstream : δ
  offered : List Offer

section Forwarding

variable {δ : Type} (consume : AnalysisEvent → Program δ ClewError Unit)

def offer (event : AnalysisEvent) : Program (ForwardingAnalysisSink δ) ClewError Unit := fun sink ↦
  let answer := consume event sink.downstream
  (answer.1, { sink with
    downstream := answer.2
    offered := sink.offered ++ [⟨event, answer.1⟩] })

def ForwardingAnalysisSink.accept (event : AnalysisEvent) :
    Program (ForwardingAnalysisSink δ) ClewError Unit := do
  Program.zoom ForwardingAnalysisSink.conformance
    (fun conformance sink ↦ { sink with conformance }) (ConformanceSink.accept event)
  offer consume event

end Forwarding

/-! ## The registry -/

structure ToolchainConstraint where
  authorityDigest : String

structure AdapterHandshake where
  languages : List LanguageUri
  capabilities : List CapabilityUri
  toolchains : List ToolchainConstraint

/-- What an adapter does with the sink it is given, and what it returns. -/
abbrev Analysis := Interaction AnalysisEvent (Except ClewError Unit) (Except ClewError Unit)

structure RegisteredAdapter where
  handshake : AdapterHandshake
  analyzeGeneration : AnalyzeGenerationRequest → Analysis

/-- The adapters in the order of their names. -/
structure AdapterRegistry where
  adapters : List RegisteredAdapter

def AdapterRegistry.selectRegistered (registry : AdapterRegistry) (language : LanguageUri)
    (capability : CapabilityUri) (toolchainDigest : String) :
    Except ClewError RegisteredAdapter := do
  discard <| Generation.digestComponent toolchainDigest
  match registry.adapters.filter fun registered ↦
      registered.handshake.languages.contains language &&
        registered.handshake.capabilities.contains capability &&
          registered.handshake.toolchains.any (·.authorityDigest == toolchainDigest) with
  | [registered] => return registered
  | [] => throw ⟨.unsupportedLanguage,
      "no language adapter satisfies the language, capability, and toolchain authority"⟩
  | _ => throw (invalid "multiple language adapters satisfy one exact authority")

/-- The adapter that a request is given to. -/
def AdapterRegistry.adapterOf (registry : AdapterRegistry) (request : AnalyzeGenerationRequest) :
    Except ClewError RegisteredAdapter := do
  request.validate
  registry.selectRegistered request.compilation.languageUri request.capability
    request.compilation.toolchain.digest

/-- Analyse a compilation: the result, and the state of the consumer with what it was offered. -/
def AdapterRegistry.analyzeGenerationInto {δ : Type} (registry : AdapterRegistry)
    (request : AnalyzeGenerationRequest) (consume : AnalysisEvent → Program δ ClewError Unit)
    (downstream : δ) : Except ClewError AnalysisAttemptComplete × δ × List Offer :=
  match registry.adapterOf request with
  | .error error => (.error error, downstream, [])
  | .ok registered =>
    let outcome := (registered.analyzeGeneration request).run
      (ForwardingAnalysisSink.accept consume)
      ⟨.forCapabilities registered.handshake.capabilities, downstream, []⟩
    (outcome.1.bind fun _ ↦ outcome.2.conformance.finish, outcome.2.downstream, outcome.2.offered)

end Codeclew.Adapter
