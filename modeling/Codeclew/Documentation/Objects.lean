import Codeclew.Cas.Reference

/-!
# The objects of a documentation root

The payloads of a documentation root lie in one table, each under the hash of its bytes. A row also
says how long its payload is. Rows are not trusted: whatever is in the table, reading a payload
checks both, and storing one checks the row that is there already. So a payload that was stored can
be read, and goes on to be read while the table only grows.
-/

namespace Codeclew.Documentation

open Json Program

/-! ## The table -/

structure ObjectRow where
  payload : Bytes
  byteLen : ℤ
  deriving DecidableEq

/-- The rows, by digest. -/
abbrev Objects := Std.ExtTreeMap String ObjectRow compare

def validateDigest (digest : String) : Except ClewError Unit :=
  ensure ((stripPrefix "sha256:" digest).any (isLowerHex · 64) = true)
    (invalid "SQLite object digest must use sha256:<lowercase-hex>")

def verifyStoredLengths (digest : String) (storedSize actualSize : ℤ) : Except ClewError Unit :=
  ensure (0 ≤ storedSize ∧ 0 ≤ actualSize ∧ storedSize = actualSize)
    (corrupt ("SQLite object size is corrupt: " ++ digest))

section

variable [Sha256]

def validatePayloadDigest (digest : String) (payload : Bytes) : Except ClewError Unit := do
  validateDigest digest
  ensure (hashBytes payload = digest)
    (invalid ("SQLite object payload does not match digest: " ++ digest))

def verifyRow (digest : String) (payload : Bytes) (storedSize : ℤ) : Except ClewError Unit := do
  ensure (0 ≤ storedSize) (corrupt ("SQLite object has a negative size: " ++ digest))
  ensure (storedSize = payload.length) (corrupt ("SQLite object size is corrupt: " ++ digest))
  ensure (hashBytes payload = digest)
    (corrupt ("SQLite object payload hash is corrupt: " ++ digest))

/-- One payload of a batch. A row that is there must be the one that would be written. -/
def insertRow (objects : Objects) (digest : String) (payload : Bytes) :
    Except ClewError Objects :=
  match objects[digest]? with
  | none => .ok (objects.insert digest ⟨payload, payload.length⟩)
  | some row => do
    verifyStoredLengths digest row.byteLen row.payload.length
    ensure (row.byteLen = payload.length)
      (corrupt ("SQLite object digest has conflicting payload size: " ++ digest))
    verifyRow digest row.payload row.byteLen
    ensure (row.payload = payload)
      (corrupt ("SQLite object digest has conflicting payload: " ++ digest))
    return objects

/-- A batch is one transaction: all of it is written, or nothing is. -/
def putMany (rows : List (String × Bytes)) : Program Objects ClewError Unit := fun objects ↦
  match (do
    rows.forM fun row ↦ validatePayloadDigest row.1 row.2
    rows.foldlM (fun objects (row : String × Bytes) ↦ insertRow objects row.1 row.2) objects) with
  | .error error => (.error error, objects)
  | .ok objects' => (.ok (), objects')

def readObject (objects : Objects) (digest : String) (expectedSize limit : UInt64) :
    Except ClewError (Option Bytes) := do
  validateDigest digest
  ensure (expectedSize ≤ limit) ⟨.resourceLimit, "SQLite object exceeds the caller's read budget"⟩
  match objects[digest]? with
  | none => return none
  | some row => do
    verifyStoredLengths digest row.byteLen row.payload.length
    ensure (row.byteLen = expectedSize.toNat ∧ row.byteLen ≤ limit.toNat)
      (corrupt
        s!"SQLite object size mismatch for {digest}: stored={row.byteLen}, expected={expectedSize}")
    verifyRow digest row.payload row.byteLen
    return some row.payload

end

/-! ## References -/

structure ObjectRef where
  schema : String
  digest : String
  size : UInt64
  deriving DecidableEq

def portableCacheMaxBytes : UInt64 := 128 * 1024 * 1024

variable [Sha256]

/-- The reference of a payload. -/
def ObjectRef.of (schema : String) (payload : Bytes) : ObjectRef :=
  ⟨schema, hashBytes payload, UInt64.ofNat payload.length⟩

def putBatch (schema : String) (payloads : List Bytes) :
    Program Objects ClewError (List ObjectRef) := do
  Program.require (∀ payload ∈ payloads, payload.length ≤ portableCacheMaxBytes.toNat)
    ⟨.sliceBudgetExceeded, "documentation object exceeds the portable record budget"⟩
  putMany (payloads.map fun payload ↦ (hashBytes payload, payload))
  pure (payloads.map (.of schema))

def put (schema : String) (payload : Bytes) : Program Objects ClewError ObjectRef := do
  let _ ← putBatch schema [payload]
  pure (.of schema payload)

def get (objects : Objects) (reference : ObjectRef) (limit : UInt64) :
    Except ClewError (Option Bytes) := do
  ensure (reference.size ≤ limit)
    ⟨.resourceLimit, "documentation object exceeds the read bound"⟩
  readObject objects reference.digest reference.size limit

/-! ## What was stored is read -/

/-- The table has the payload, under its hash and with its length. -/
def HasPayload (objects : Objects) (payload : Bytes) : Prop :=
  objects[hashBytes payload]? = some ⟨payload, payload.length⟩ ∧
    payload.length ≤ portableCacheMaxBytes.toNat

/-- Every row is still there. -/
def Grown (objects objects' : Objects) : Prop :=
  ∀ (digest : String) (row : ObjectRow), objects[digest]? = some row → objects'[digest]? = some row

omit [Sha256] in
theorem Grown.refl (objects : Objects) : Grown objects objects := fun _ _ ↦ id

omit [Sha256] in
theorem Grown.trans {objects objects' objects'' : Objects} (h : Grown objects objects')
    (h' : Grown objects' objects'') : Grown objects objects'' := fun digest row hrow ↦
  h' digest row (h digest row hrow)

variable {objects objects' : Objects} {payload : Bytes}

theorem HasPayload.grown (h : Grown objects objects') (hpayload : HasPayload objects payload) :
    HasPayload objects' payload :=
  ⟨h _ _ hpayload.1, hpayload.2⟩

theorem validateDigest_hashBytes (payload : Bytes) :
    validateDigest (hashBytes payload) = .ok () := by
  rw [validateDigest, hashBytes, Cas.stripPrefix_digestText]
  exact ensure_eq_ok_iff.mpr (Cas.isLowerHex_digestHex _)

theorem of_insertRow (h : insertRow objects (hashBytes payload) payload = .ok objects') :
    objects'[hashBytes payload]? = some ⟨payload, payload.length⟩ ∧ Grown objects objects' := by
  rw [insertRow] at h
  split at h
  · next hnone =>
    obtain rfl := Except.ok.inj h
    refine ⟨Std.ExtTreeMap.getElem?_insert_self, fun digest row hrow ↦ ?_⟩
    rw [Std.ExtTreeMap.getElem?_insert]
    split_ifs with heq
    · rw [Std.LawfulEqCmp.compare_eq_iff_eq] at heq
      rw [heq] at hnone
      cases hnone.symm.trans hrow
    · exact hrow
  · next row hrow =>
    obtain ⟨-, -, h⟩ := bind_eq_ok_iff.mp h
    obtain ⟨hlength, h⟩ := ensure_bind_eq_ok_iff.mp h
    obtain ⟨-, -, h⟩ := bind_eq_ok_iff.mp h
    obtain ⟨hpayload, h⟩ := ensure_bind_eq_ok_iff.mp h
    obtain rfl := Except.ok.inj h
    refine ⟨hrow.trans (congrArg some ?_), .refl _⟩
    obtain ⟨payload', byteLen⟩ := row
    obtain rfl : payload' = payload := hpayload
    exact congrArg (ObjectRow.mk payload') hlength

/-- A stored payload is in the table, and no row was lost. -/
theorem of_put {schema : String} {reference : ObjectRef}
    (h : put schema payload objects = (.ok reference, objects')) :
    reference = .of schema payload ∧ HasPayload objects' payload ∧ Grown objects objects' := by
  obtain ⟨_, middle, hbatch, h⟩ := bind_eq_ok.mp h
  obtain ⟨hok, rfl⟩ := Prod.mk.inj h
  obtain rfl := Except.ok.inj hok
  obtain ⟨hlength, hbatch⟩ := require_bind_eq_ok.mp hbatch
  obtain ⟨_, middle', hput, hbatch⟩ := bind_eq_ok.mp hbatch
  obtain ⟨-, rfl⟩ := Prod.mk.inj hbatch
  rw [putMany] at hput
  split at hput
  · cases (Prod.mk.inj hput).1
  · next objects'' hrows =>
    obtain ⟨-, rfl⟩ := Prod.mk.inj hput
    obtain ⟨-, -, hrows⟩ := bind_eq_ok_iff.mp hrows
    rw [List.map_singleton, List.foldlM_cons] at hrows
    obtain ⟨inserted, hinsert, hrows⟩ := bind_eq_ok_iff.mp hrows
    obtain rfl := Except.ok.inj hrows
    obtain ⟨hrow, hgrown⟩ := of_insertRow hinsert
    exact ⟨rfl, ⟨hrow, hlength payload (List.mem_singleton_self _)⟩, hgrown⟩

/-- A call that failed leaves the table as it was. -/
theorem objects_of_put_error {schema : String} {error : ClewError}
    (h : put schema payload objects = (.error error, objects')) :
    objects' = objects := by
  rcases bind_eq_error.mp h with hbatch | ⟨_, middle, -, h⟩
  · rcases require_bind_eq_error.mp hbatch with ⟨-, -, rfl⟩ | ⟨-, hbatch⟩
    · rfl
    · rcases bind_eq_error.mp hbatch with hput | ⟨_, middle, -, hbatch⟩
      · rw [putMany] at hput
        split at hput
        · exact (Prod.mk.inj hput).2.symm
        · cases (Prod.mk.inj hput).1
      · cases (Prod.mk.inj hbatch).1
  · cases (Prod.mk.inj h).1

theorem get_of_hasPayload {objects : Objects} (h : HasPayload objects payload) (schema : String) :
    get objects (.of schema payload) portableCacheMaxBytes = .ok (some payload) := by
  have hsize : (UInt64.ofNat payload.length).toNat = payload.length :=
    Nat.mod_eq_of_lt (h.2.trans_lt (by decide))
  have hle : UInt64.ofNat payload.length ≤ portableCacheMaxBytes := by
    rw [UInt64.le_iff_toNat_le, hsize]
    exact h.2
  have hlimit : (payload.length : ℤ) ≤ portableCacheMaxBytes.toNat := by exact_mod_cast h.2
  refine ensure_bind_eq_ok_iff.mpr
    ⟨hle, bind_eq_ok_iff.mpr ⟨(), validateDigest_hashBytes payload, ?_⟩⟩
  refine ensure_bind_eq_ok_iff.mpr ⟨hle, ?_⟩
  simp only [ObjectRef.of, h.1]
  refine bind_eq_ok_iff.mpr
    ⟨(), ensure_eq_ok_iff.mpr ⟨Int.natCast_nonneg _, Int.natCast_nonneg _, rfl⟩,
    ensure_bind_eq_ok_iff.mpr ⟨⟨by rw [hsize], hlimit⟩, bind_eq_ok_iff.mpr ⟨(), ?_, rfl⟩⟩⟩
  exact ensure_bind_eq_ok_iff.mpr ⟨Int.natCast_nonneg _, ensure_bind_eq_ok_iff.mpr
    ⟨rfl, ensure_eq_ok_iff.mpr rfl⟩⟩

end Codeclew.Documentation
