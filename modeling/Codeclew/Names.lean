import Codeclew.Json.Format

/-!
# Names of enumerations

The wire names of the enumerations that the ledgers record.
-/

namespace Codeclew

namespace Json

/-- An enumeration, written as the names of its values. -/
@[reducible] def Codec.ofNames {α : Type} (values : List α) (name : α → String)
    (h : ∀ a, values.find? (fun b ↦ name b == name a) = some a) : Codec α where
  toJson a := .str (name a)
  ofJson? j := j.asStr?.bind fun text ↦ values.find? fun b ↦ name b == text
  levels := 0
  ofJson?_toJson := h
  valid_toJson _ := trivial
  depth_toJson _ := le_rfl
  toJson_ne_null _ := nofun

end Json

def ErrorCode.name : ErrorCode → String
  | .unsupportedKotlinVersion => "UNSUPPORTED_KOTLIN_VERSION"
  | .unsupportedCompilerPluginAbi => "UNSUPPORTED_COMPILER_PLUGIN_ABI"
  | .unsupportedProjectConfiguration => "UNSUPPORTED_PROJECT_CONFIGURATION"
  | .projectModelChanged => "PROJECT_MODEL_CHANGED"
  | .workerProtocolMismatch => "WORKER_PROTOCOL_MISMATCH"
  | .workerPreparationRequired => "WORKER_PREPARATION_REQUIRED"
  | .workerCrashed => "WORKER_CRASHED"
  | .symbolNotFound => "SYMBOL_NOT_FOUND"
  | .ambiguousSymbol => "AMBIGUOUS_SYMBOL"
  | .expressionNotFound => "EXPRESSION_NOT_FOUND"
  | .staleTarget => "STALE_TARGET"
  | .ambiguousTarget => "AMBIGUOUS_TARGET"
  | .preconditionFailed => "PRECONDITION_FAILED"
  | .unsupportedControlFlow => "UNSUPPORTED_CONTROL_FLOW"
  | .incompleteSemanticAnalysis => "INCOMPLETE_SEMANTIC_ANALYSIS"
  | .sliceBudgetExceeded => "SLICE_BUDGET_EXCEEDED"
  | .replacementParseError => "REPLACEMENT_PARSE_ERROR"
  | .typeMismatch => "TYPE_MISMATCH"
  | .bindingChanged => "BINDING_CHANGED"
  | .newDiagnostics => "NEW_DIAGNOSTICS"
  | .effectChanged => "EFFECT_CHANGED"
  | .writesetExceeded => "WRITESET_EXCEEDED"
  | .compileFailed => "COMPILE_FAILED"
  | .testFailed => "TEST_FAILED"
  | .abiChanged => "ABI_CHANGED"
  | .rwConflict => "RW_CONFLICT"
  | .wwConflict => "WW_CONFLICT"
  | .staleRequiresReslice => "STALE_REQUIRES_RESLICE"
  | .refCompareAndSwapFailed => "REF_COMPARE_AND_SWAP_FAILED"
  | .transactionRecoveryRequired => "TRANSACTION_RECOVERY_REQUIRED"
  | .worktreeRecoveryRequired => "WORKTREE_RECOVERY_REQUIRED"
  | .resourceLimit => "RESOURCE_LIMIT"
  | .stateCorrupt => "STATE_CORRUPT"
  | .inputMutated => "INPUT_MUTATED"
  | .unsupportedLanguage => "UNSUPPORTED_LANGUAGE"
  | .invalidInput => "INVALID_INPUT"
  | .internal => "INTERNAL"

def ErrorCode.values : List ErrorCode :=
  [.unsupportedKotlinVersion, .unsupportedCompilerPluginAbi, .unsupportedProjectConfiguration,
    .projectModelChanged, .workerProtocolMismatch, .workerPreparationRequired, .workerCrashed,
    .symbolNotFound, .ambiguousSymbol, .expressionNotFound, .staleTarget, .ambiguousTarget,
    .preconditionFailed, .unsupportedControlFlow, .incompleteSemanticAnalysis,
    .sliceBudgetExceeded, .replacementParseError, .typeMismatch, .bindingChanged,
    .newDiagnostics, .effectChanged, .writesetExceeded, .compileFailed, .testFailed, .abiChanged,
    .rwConflict, .wwConflict, .staleRequiresReslice, .refCompareAndSwapFailed,
    .transactionRecoveryRequired, .worktreeRecoveryRequired, .resourceLimit, .stateCorrupt,
    .inputMutated, .unsupportedLanguage, .invalidInput, .internal]

instance : Json.Codec ErrorCode := .ofNames ErrorCode.values ErrorCode.name fun a ↦ by
  cases a <;> rfl

inductive RunStatus where
  | created
  | preparing
  | readyToPublish
  | readyToPublishConditional
  | validatedConditional
  | publishing
  | published
  | publishedConditional
  | failed
  | worktreeRecoveryRequired
  | cancelled
  deriving DecidableEq, Repr

def RunStatus.name : RunStatus → String
  | .created => "CREATED"
  | .preparing => "PREPARING"
  | .readyToPublish => "READY_TO_PUBLISH"
  | .readyToPublishConditional => "READY_TO_PUBLISH_CONDITIONAL"
  | .validatedConditional => "VALIDATED_CONDITIONAL"
  | .publishing => "PUBLISHING"
  | .published => "PUBLISHED"
  | .publishedConditional => "PUBLISHED_CONDITIONAL"
  | .failed => "FAILED"
  | .worktreeRecoveryRequired => "WORKTREE_RECOVERY_REQUIRED"
  | .cancelled => "CANCELLED"

def RunStatus.values : List RunStatus :=
  [.created, .preparing, .readyToPublish, .readyToPublishConditional, .validatedConditional,
    .publishing, .published, .publishedConditional, .failed, .worktreeRecoveryRequired,
    .cancelled]

instance : Json.Codec RunStatus := .ofNames RunStatus.values RunStatus.name fun a ↦ by
  cases a <;> rfl

inductive RuntimeMode where
  | release
  | development
  deriving DecidableEq, Repr

def RuntimeMode.name : RuntimeMode → String
  | .release => "RELEASE"
  | .development => "DEVELOPMENT"

instance : Json.Codec RuntimeMode := .ofNames [.release, .development] RuntimeMode.name fun a ↦ by
  cases a <;> rfl

inductive SessionLanguage where
  | cSharp
  | java
  | javaScript
  | kotlin
  | python
  | rust
  | typeScript
  deriving DecidableEq, Repr

def SessionLanguage.name : SessionLanguage → String
  | .cSharp => "CSHARP"
  | .java => "JAVA"
  | .javaScript => "JAVA_SCRIPT"
  | .kotlin => "KOTLIN"
  | .python => "PYTHON"
  | .rust => "RUST"
  | .typeScript => "TYPESCRIPT"

def SessionLanguage.values : List SessionLanguage :=
  [.cSharp, .java, .javaScript, .kotlin, .python, .rust, .typeScript]

instance : Json.Codec SessionLanguage :=
  .ofNames SessionLanguage.values SessionLanguage.name fun a ↦ by cases a <;> rfl

end Codeclew
