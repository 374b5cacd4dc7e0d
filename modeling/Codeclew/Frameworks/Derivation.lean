import Codeclew.Jvm.Annotations

/-!
# What framework modules report

A framework module interprets what a compiler has observed. Its report names what it rests on, says
whether the interpretation is complete, and lists as boundaries what is left open.
-/

namespace Codeclew

structure Derivation where
  moduleId : String
  policyVersion : String
  implementationDigest : String
  inputDigest : String
  inputAuthority : String
  inputSchema : String
  coverage : String
  deriving DecidableEq, Repr

/-- The digests that a derivation records: that of the module's own text, and those of its
inputs. -/
structure Digests (Facts : Type) where
  implementation : String
  input : Facts → String

/-- A report on an input with the given coverage and boundaries: it claims to be complete only if
nothing is left open and the input was complete, and it keeps what the input leaves open. -/
def Honest (status : String) (given : List String) (coverage : String) (boundaries : List String) :
    Prop :=
  (coverage = "COMPLETE" → boundaries = [] ∧ status = "COMPLETE") ∧ ∀ b ∈ given, b ∈ boundaries

end Codeclew
