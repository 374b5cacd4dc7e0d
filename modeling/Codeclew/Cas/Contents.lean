import Codeclew.Cas.Objects

/-!
# The store as its users see it

Who reads and writes whole objects sees a map from references to bytes. What the map has under a
reference is what the reference says: bytes with its digest and its size. Storing bytes gives their
reference and leaves everything else as it was; it fails if the reference names other bytes. Where
on disk objects lie, and how that changes, is the subject of the other modules of the store.
-/

namespace Codeclew.Cas

variable [Sha256]

/-- The objects of a store. -/
structure ObjectStore where
  contents : CasObject → Option Bytes
  addressed : ∀ object bytes, contents object = some bytes →
    CasObject.forBytes object.objectSchema bytes = .ok object

theorem CasObject.forBytes_eq_ok_iff {objectSchema : String} {bytes : Bytes} {object : CasObject} :
    forBytes objectSchema bytes = .ok object ↔ validateObjectSchema objectSchema = .ok () ∧
      object = { schema := casObjectSchema, objectSchema, digest := objectDigest objectSchema bytes,
                 size := UInt64.ofNat bytes.length } := by
  rw [forBytes, bind_eq_ok_iff]
  constructor
  · rintro ⟨⟨⟩, hschema, h⟩
    exact ⟨hschema, (Except.ok.inj h).symm⟩
  · rintro ⟨hschema, rfl⟩
    exact ⟨(), hschema, rfl⟩

namespace ObjectStore

def empty : ObjectStore := ⟨fun _ ↦ none, nofun⟩

/-! ## Reading -/

def read (store : ObjectStore) (object : CasObject) (maxBytes : ℕ) : Except ClewError Bytes := do
  validateReference object
  if object.size.toNat > maxBytes then
    throw ⟨.resourceLimit, "CAS object exceeds the caller's read budget"⟩
  match store.contents object with
  | some bytes => return bytes
  | none => throw (corrupt "CAS object is missing or unsafe")

/-! ## Writing -/

/-- The store with bytes under their reference. -/
def add (store : ObjectStore) (object : CasObject) (bytes : Bytes)
    (h : CasObject.forBytes object.objectSchema bytes = .ok object) : ObjectStore where
  contents := Function.update store.contents object (some bytes)
  addressed other found hfound := by
    rw [Function.update_apply] at hfound
    split_ifs at hfound with heq
    · rw [heq, ← Option.some.inj hfound]
      exact h
    · exact store.addressed other found hfound

end ObjectStore

/-- An action on the objects of a store. -/
abbrev Storing := Program ObjectStore ClewError

namespace ObjectStore

/-- What storing bytes fails with where their reference names others. -/
def changedObject : ClewError := corrupt "CAS object changed during atomic publication"

def put (objectSchema : String) (bytes : Bytes) : Storing CasObject := fun store ↦
  match h : CasObject.forBytes objectSchema bytes with
  | .error error => (.error error, store)
  | .ok object =>
    match store.contents object with
    | none => (.ok object, store.add object bytes
        (by obtain ⟨-, rfl⟩ := CasObject.forBytes_eq_ok_iff.mp h; exact h))
    | some existing =>
      if existing = bytes then (.ok object, store)
      else (.error changedObject, store)

end ObjectStore

end Codeclew.Cas
