import Codeclew.Json.Parse
import Codeclew.Hex
import Codeclew.Sha256

/-!
# Managed state

Errors, and the directories of private files everything durable lives in.

A directory maps names to files; a file has its bytes and the metadata the system keeps for it.
Names are text. Every entry is taken to be a regular file that only its owner may touch, so the
checks of type, owner and permissions always succeed and are not modelled, and neither are failing
system calls; what is left are the outcomes that depend on which files there are and what they hold.
-/

namespace Codeclew

/-! ## Errors -/

inductive ErrorCode where
  | unsupportedKotlinVersion
  | unsupportedCompilerPluginAbi
  | unsupportedProjectConfiguration
  | projectModelChanged
  | workerProtocolMismatch
  | workerPreparationRequired
  | workerCrashed
  | symbolNotFound
  | ambiguousSymbol
  | expressionNotFound
  | staleTarget
  | ambiguousTarget
  | preconditionFailed
  | unsupportedControlFlow
  | incompleteSemanticAnalysis
  | sliceBudgetExceeded
  | replacementParseError
  | typeMismatch
  | bindingChanged
  | newDiagnostics
  | effectChanged
  | writesetExceeded
  | compileFailed
  | testFailed
  | abiChanged
  | rwConflict
  | wwConflict
  | staleRequiresReslice
  | refCompareAndSwapFailed
  | transactionRecoveryRequired
  | worktreeRecoveryRequired
  | resourceLimit
  | stateCorrupt
  | inputMutated
  | unsupportedLanguage
  | invalidInput
  | internal
  deriving DecidableEq, Repr

structure ClewError where
  code : ErrorCode
  message : String
  deriving DecidableEq, Repr

/-- `serde_json` and the operating system describe their own failures; the text is not modelled. -/
def internal (message : String) : ClewError := ⟨.internal, message⟩

def corrupt (message : String) : ClewError := ⟨.stateCorrupt, message⟩

def invalid (message : String) : ClewError := ⟨.invalidInput, message⟩

/-! ## File names -/

/-- The text after a leading `pre`. -/
def stripPrefix (pre text : String) : Option String :=
  if chars pre <+: chars text then some (String.ofList ((chars text).drop (chars pre).length))
  else none

/-- The text before a trailing `suf`. -/
def stripSuffix (suf text : String) : Option String :=
  if chars suf <:+ chars text then
    some (String.ofList ((chars text).take ((chars text).length - (chars suf).length)))
  else none

theorem stripPrefix_eq_some_iff {pre text rest : String} :
    stripPrefix pre text = some rest ↔ text = pre ++ rest := by
  rw [stripPrefix, Option.ite_none_right_eq_some, Option.some.injEq]
  simp only [chars_eq_toList]
  constructor
  · rintro ⟨⟨tail, htail⟩, rfl⟩
    rw [← htail, List.drop_left, ← String.toList_inj, String.toList_append,
      String.toList_ofList, htail]
  · rintro rfl
    rw [String.toList_append, List.drop_left, String.ofList_toList]
    exact ⟨List.prefix_append _ _, rfl⟩

theorem stripSuffix_eq_some_iff {suf text stem : String} :
    stripSuffix suf text = some stem ↔ text = stem ++ suf := by
  rw [stripSuffix, Option.ite_none_right_eq_some, Option.some.injEq]
  simp only [chars_eq_toList]
  constructor
  · rintro ⟨⟨front, hfront⟩, rfl⟩
    rw [← hfront, List.length_append, Nat.add_sub_cancel, List.take_left, ← String.toList_inj,
      String.toList_append, String.toList_ofList, hfront]
  · rintro rfl
    rw [String.toList_append, List.length_append, Nat.add_sub_cancel, List.take_left,
      String.ofList_toList]
    exact ⟨List.suffix_append _ _, rfl⟩

/-- A file name around its last dot. -/
def splitExtension (name : String) : Option (List Char × List Char) :=
  match (chars name).reverse.dropWhile (· ≠ '.') with
  | [] => none
  | _ :: stem => some (stem.reverse, ((chars name).reverse.takeWhile (· ≠ '.')).reverse)

/-- `Path::extension`: what follows the last dot, unless that dot begins the name. -/
def extension (name : String) : Option String :=
  match splitExtension name with
  | some (_ :: _, ext) => some (String.ofList ext)
  | _ => none

/-- `Path::file_stem`. -/
def fileStem (name : String) : String :=
  match splitExtension name with
  | some (c :: stem, _) => String.ofList (c :: stem)
  | _ => name

/-- `value.len() == length`, and all digits are lower-case hexadecimal ones. -/
def isLowerHex (value : String) (length : ℕ) : Bool :=
  (chars value).length == length && (chars value).all Hex.isDigit

/-! ## Directories -/

/-- What the system records of a file besides its bytes. -/
structure Metadata where
  device : UInt64
  inode : UInt64
  modifiedSeconds : Int64
  modifiedNanoseconds : Int64
  changedSeconds : Int64
  changedNanoseconds : Int64
  deriving DecidableEq, Inhabited

structure File where
  bytes : Bytes
  metadata : Metadata
  deriving DecidableEq

/-- A directory of private files. -/
abbrev Directory := Std.ExtTreeMap String File compare

namespace Directory

/-- The names, in order. -/
def entries (dir : Directory) : List String := dir.keys

def fileExists (dir : Directory) (name : String) : Bool := dir.contains name

def openFile (dir : Directory) (name : String) : Except ClewError File :=
  match dir[name]? with
  | some file => .ok file
  | none => .error (internal "No such file or directory (os error 2)")

def readFile (dir : Directory) (name : String) (maxBytes : ℕ) : Except ClewError Bytes := do
  let file ← openFile dir name
  if file.bytes.length > maxBytes then
    throw (invalid "managed state file exceeds its read bound")
  return file.bytes

end Directory

/-- What is there is written again. -/
theorem insert_self {α : Type} {m : Std.ExtTreeMap String α compare} {name : String} {a : α}
    (h : m[name]? = some a) : m.insert name a = m := by
  refine Std.ExtTreeMap.ext_getElem? fun other ↦ ?_
  rw [Std.ExtTreeMap.getElem?_insert]
  simp only [Std.LawfulEqCmp.compare_eq_iff_eq]
  split_ifs with hname
  · rw [← hname, h]
  · rfl

/-! ## Hashes -/

/-- `hex::encode`. -/
def digestHex (digest : Vector UInt8 32) : String := String.ofList (Hex.encode digest.toList)

/-- The text of a digest: a scheme and the digits. -/
def digestText (digest : Vector UInt8 32) : String := "sha256:" ++ digestHex digest

/-- `canonical::hash_bytes`. -/
def hashBytes [Sha256] (input : Bytes) : String := digestText (Sha256.digest input)

end Codeclew
