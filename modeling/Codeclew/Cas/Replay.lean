import Codeclew.Cas.Locations

/-!
# Replaying the catalog journal

Three paths maintain a catalog: records applied one at a time, a batch of record files replayed
with the rebuild of the locations put off after removals, and a snapshot taken and loaded again.
`stepPacks` says what a record means for the set of packs alone, and each path follows it: the
packs it ends with are the packs `stepPacks` gives, the locations are those of the packs, and it
fails where `stepPacks` fails, with the same error. `replay_equivalence` is what follows for any
mixture of the paths.
-/

namespace Codeclew

open List Program

namespace Cas

open OwnerIndex

variable [Sha256]

/-! ## Parts of a step -/

variable {locations : Locations} {state : CatalogState} {x : Except ClewError Unit}

theorem onLocations_of_eq {m : Program Locations ClewError Unit}
    (h : m state.locations = (x, locations)) :
    onLocations m state = (x, { state with locations }) := by
  rw [onLocations, Program.zoom, h]

theorem rebuildLocations_of_ok (h : locationsFromPacks state.packs = .ok locations) :
    rebuildLocations state = (.ok (), { state with locations }) := by
  rw [rebuildLocations, get_bind, h]
  rfl

variable {pack : CatalogPack}

theorem removeCatalogPack_of_present (h : state.packs[pack.dataName]? = some pack.manifest) :
    removeCatalogPack pack state
      = (.ok (), { state with packs := state.packs.erase pack.dataName }) := by
  rw [removeCatalogPack, get_bind, if_neg (not_not.mpr h), modify_apply]

theorem removeCatalogPack_of_absent (h : state.packs[pack.dataName]? ≠ some pack.manifest) :
    removeCatalogPack pack state
      = (.error (corrupt "CAS catalog removes a different or missing pack"), state) := by
  rw [removeCatalogPack, get_bind, if_pos h, fail_apply]

/-! ## What a record means -/

/-- What a record does to the set of packs. -/
def stepPacks (packs : Packs) (record : CatalogRecord) : Except ClewError Packs := do
  validatePackManifest record.pack.dataName record.pack.manifest
  match record.operation with
  | .add =>
    if packs.contains record.pack.dataName then
      throw (corrupt "CAS catalog adds an existing pack")
    else
      let added := packs.insert record.pack.dataName record.pack.manifest
      (locationsFromPacks added).map fun _ ↦ added
  | .remove =>
    if packs[record.pack.dataName]? ≠ some record.pack.manifest then
      throw (corrupt "CAS catalog removes a different or missing pack")
    else return packs.erase record.pack.dataName

/-- A program that follows `stepPacks`: it returns with the packs it gives, their locations and
the state otherwise as `frame` says, or it fails with its error. -/
def Follows (outcome : Except ClewError Packs) (frame : CatalogState)
    (result : Except ClewError Unit × CatalogState) : Prop :=
  match outcome with
  | .ok packs => ∃ locations, locationsFromPacks packs = .ok locations ∧
      result = (.ok (), { frame with packs, locations })
  | .error e => result.1 = .error e

section

variable {outcome : Except ClewError Packs} {frame : CatalogState}

theorem Follows.of_ok (h : Follows outcome frame (.ok (), state)) : ∃ packs locations,
    outcome = .ok packs ∧ locationsFromPacks packs = .ok locations ∧
      state = { frame with packs, locations } := by
  rcases outcome with e | packs
  · cases h
  · obtain ⟨locations, hbuild, heq⟩ := h
    exact ⟨packs, locations, rfl, hbuild, (Prod.mk.inj heq).2⟩

theorem Follows.of_error {result : Except ClewError Unit × CatalogState} {e : ClewError}
    (h : Follows outcome frame result) (he : result.1 = .error e) : outcome = .error e := by
  rcases outcome with e' | packs
  · rw [Except.error.inj (h.symm.trans he)]
  · obtain ⟨locations, -, rfl⟩ := h
    cases he

end

/-- Applying a record to a coherent state. -/
theorem applyCatalogRecord_follows (hs : Coherent state) (record : CatalogRecord) :
    Follows (stepPacks state.packs record) state (applyCatalogRecord record state) := by
  obtain ⟨ha, hi⟩ := locationsFromPacks_eq_ok_iff.mp hs
  unfold stepPacks applyCatalogRecord
  rcases validatePackManifest record.pack.dataName record.pack.manifest with e | _
  · rfl
  simp only [lift_ok_bind]
  change Follows (match record.operation with | .add => _ | .remove => _) _ _
  cases record.operation with
  | add =>
    simp only [get_bind, modify_bind]
    by_cases hc : state.packs.contains record.pack.dataName
    · rw [if_pos hc, if_pos hc]
      rfl
    rw [if_neg hc, if_neg hc]
    have hadd := builds_addPackToCatalog record.pack.dataName record.pack.manifest hi ha
      (contents_of_not_contains hc)
    rw [← contents_insert] at hadd
    by_cases ha' : ObjectsAgree
        (contents (state.packs.insert record.pack.dataName record.pack.manifest))
    · obtain ⟨locations, hrun, hi'⟩ := hadd.ok ha'
      have hbuild := locationsFromPacks_eq_ok_iff.mpr ⟨ha', hi'⟩
      rw [hbuild]
      exact ⟨locations, hbuild, onLocations_of_eq hrun⟩
    · obtain ⟨locations, hrun⟩ := hadd.error ha'
      rw [locationsFromPacks_of_not_agree ha']
      exact congrArg Prod.fst (onLocations_of_eq hrun)
  | remove =>
    by_cases hp : state.packs[record.pack.dataName]? = some record.pack.manifest
    · obtain ⟨locations, hbuild, -⟩ :=
        locationsFromPacks_of_agree (objectsAgree_erase ha record.pack.dataName)
      simp only [bind_of_ok (removeCatalogPack_of_present hp), ne_eq, hp,
        not_true_eq_false, if_false]
      exact ⟨locations, hbuild, rebuildLocations_of_ok hbuild⟩
    · simp only [bind_of_error (removeCatalogPack_of_absent hp), ne_eq, hp,
        not_false_eq_true, if_true]
      rfl

/-! ## Record files -/

def recordDigest (record : CatalogRecord) : String := hashBytes (Json.encode record)

/-- The name of a record's file. -/
def recordName (record : CatalogRecord) : String :=
  pad20 record.sequence.toNat ++ "-" ++ digestHex (Sha256.digest (Json.encode record)) ++ ".record"

theorem catalogRecordName_recordDigest (record : CatalogRecord) :
    catalogRecordName record.sequence (recordDigest record) = .ok (recordName record) := by
  rw [catalogRecordName, recordDigest, hashBytes, digestComponent_digestText]
  rfl

/-- The directory holds the record under its name, and it is not too long to be read. -/
def Stored (records : Directory) (record : CatalogRecord) : Prop :=
  records.readFile (recordName record) maxCatalogRecordBytes = .ok (Json.encode record)

variable {record : CatalogRecord}

theorem readCatalogRecord_of_stored {records : Directory} (h : Stored records record)
    (hschema : record.schema = catalogRecordSchema) :
    readCatalogRecord records (recordName record)
      = .ok (record, recordDigest record, Json.encode record) := by
  have hdecode : Json.decode (Json.encode record) = some record :=
    Json.decode_encode (by decide) record
  have hname := catalogRecordName_recordDigest record
  rw [recordDigest] at hname
  rw [readCatalogRecord, h]
  simp only [ok_bind, hdecode, hname, ne_eq, hschema, not_true_eq_false, or_self, if_false]
  rfl

/-- The records continue a journal that has come to this sequence number and digest. -/
def Continues : UInt64 → Option String → List CatalogRecord → Prop
  | _, _, [] => True
  | sequence, last, record :: records =>
    record.schema = catalogRecordSchema ∧ record.sequence.toNat = sequence.toNat + 1 ∧
      record.previousRecordDigest = last ∧
      Continues record.sequence (some (recordDigest record)) records

/-- The state with the numbers, digests and lengths of applied records entered. -/
def CatalogState.after (state : CatalogState) (records : List CatalogRecord) : CatalogState :=
  { state with
    sequence := records.foldl (fun _ record ↦ record.sequence) state.sequence
    lastRecordDigest :=
      records.foldl (fun _ record ↦ some (recordDigest record)) state.lastRecordDigest
    tailBytes := records.foldl
      (fun bytes record ↦ saturatingAdd bytes (UInt64.ofNat (Json.encode record).length))
      state.tailBytes }

/-! ## A batch of record files -/

/-- What holds of a replay under way: the objects agree, and locations that are not waiting for a
rebuild are those of the packs. -/
structure Replay.Inv (replay : Replay) : Prop where
  agree : ObjectsAgree (contents replay.state.packs)
  coherent : replay.removalsPending = false → Coherent replay.state

variable {replay : Replay}

theorem onState_of_eq {m : Program CatalogState ClewError Unit} (h : m replay.state = (x, state)) :
    onState m replay = (x, { replay with state }) := by
  rw [onState, Program.zoom, h]

omit [Sha256] in
theorem sequence_eq_add_one {a b : UInt64} (h : b.toNat = a.toNat + 1) : b = a + 1 := by
  have hb := b.toNat_lt
  refine UInt64.toNat_inj.mp ?_
  rw [UInt64.toNat_add, UInt64.toNat_one, Nat.mod_eq_of_lt (h ▸ hb), h]

theorem replayRecord_eq {records : Directory} (hstored : Stored records record)
    (hnext : Continues replay.state.sequence replay.state.lastRecordDigest [record]) :
    replayRecord records (recordName record) replay
      = (replayOperation record replay.removalsPending >>= fun _ ↦
          onState (Program.modify
            (·.advance record (recordDigest record) (Json.encode record).length))) replay := by
  obtain ⟨hschema, hseq, hprev, -⟩ := hnext
  have hle : ¬record.sequence ≤ replay.state.sequence := by
    rw [UInt64.le_iff_toNat_le]
    omega
  rw [replayRecord, readCatalogRecord_of_stored hstored hschema]
  simp only [lift_ok_bind, get_bind]
  rw [if_neg hle, if_neg (by simp [sequence_eq_add_one hseq, hprev])]

/-- An addition starts from the locations of the packs, whether or not they had to be rebuilt. -/
theorem replayOperation_add (h : replay.Inv) (hop : record.operation = .add) :
    ∃ locations, Coherent { replay.state with locations } ∧
      replayOperation record replay.removalsPending replay
        = onState (applyCatalogRecord record) ⟨{ replay.state with locations }, false⟩ := by
  unfold replayOperation
  simp only [hop]
  obtain ⟨state, pending⟩ := replay
  cases pending with
  | true =>
    obtain ⟨locations, hbuild, -⟩ := locationsFromPacks_of_agree h.agree
    refine ⟨locations, hbuild, ?_⟩
    rw [if_pos rfl, bind_of_ok (onState_of_eq (rebuildLocations_of_ok hbuild))]
    rfl
  | false => exact ⟨state.locations, h.coherent rfl, rfl⟩

/-- The change a record makes in a replay follows `stepPacks`. -/
theorem replayOperation_follows (h : replay.Inv) (record : CatalogRecord) :
    match stepPacks replay.state.packs record with
    | .ok packs => ∃ locations pending,
        replayOperation record replay.removalsPending replay
          = (.ok (), ⟨{ replay.state with packs, locations }, pending⟩) ∧
        Replay.Inv ⟨{ replay.state with packs, locations }, pending⟩
    | .error e => (replayOperation record replay.removalsPending replay).1 = .error e := by
  cases hop : record.operation with
  | add =>
    obtain ⟨locations, hcoherent, hrun⟩ := replayOperation_add h hop
    have hfollows := applyCatalogRecord_follows hcoherent record
    rw [hrun]
    rcases hstep : stepPacks replay.state.packs record with e | packs
    · simp only [Follows, hstep] at hfollows ⊢
      rwa [onState, zoom_fst]
    · simp only [Follows, hstep] at hfollows ⊢
      obtain ⟨locations', hbuild, happly⟩ := hfollows
      refine ⟨locations', false, onState_of_eq happly, ?_, fun _ ↦ hbuild⟩
      exact (locationsFromPacks_eq_ok_iff.mp hbuild).1
  | remove =>
    unfold replayOperation stepPacks
    simp only [hop]
    rcases validatePackManifest record.pack.dataName record.pack.manifest with e | _
    · rfl
    by_cases hp : replay.state.packs[record.pack.dataName]? = some record.pack.manifest
    · simp only [ok_bind, lift_ok_bind, ne_eq, hp, not_true_eq_false, if_false,
        bind_of_ok (onState_of_eq (removeCatalogPack_of_present hp))]
      exact ⟨replay.state.locations, true, rfl, objectsAgree_erase h.agree _, nofun⟩
    · simp only [ok_bind, lift_ok_bind, ne_eq, hp, not_false_eq_true, if_true,
        bind_of_error (onState_of_eq (removeCatalogPack_of_absent hp))]
      rfl

variable {directory : Directory}

/-- Replaying record files follows `stepPacks` from record to record. -/
theorem replayRecords_follow (records : List CatalogRecord) :
    ∀ {replay : Replay}, replay.Inv →
    Continues replay.state.sequence replay.state.lastRecordDigest records →
    (∀ record ∈ records, Stored directory record) →
    match records.foldlM stepPacks replay.state.packs with
    | .ok packs => ∃ locations pending,
        Program.each (records.map recordName) (replayRecord directory) replay
          = (.ok (), ⟨{ replay.state.after records with packs, locations }, pending⟩) ∧
        Replay.Inv ⟨{ replay.state.after records with packs, locations }, pending⟩
    | .error e =>
        (Program.each (records.map recordName) (replayRecord directory) replay).1 = .error e := by
  induction records with
  | nil =>
    intro replay h _ _
    exact ⟨replay.state.locations, replay.removalsPending, rfl, h⟩
  | cons record records ih =>
    intro replay h hnext hstored
    have hrecord := replayRecord_eq (hstored record mem_cons_self)
      (show Continues replay.state.sequence replay.state.lastRecordDigest [record] from
        ⟨hnext.1, hnext.2.1, hnext.2.2.1, trivial⟩)
    have hop := replayOperation_follows h record
    rw [foldlM_cons, map_cons, each_cons]
    rcases hstep : stepPacks replay.state.packs record with e | packs
    · simp only [hstep] at hop
      rw [error_bind]
      exact bind_fst_of_error (hrecord ▸ bind_fst_of_error hop _) _
    · simp only [hstep] at hop
      obtain ⟨locations, pending, hrun, hinv⟩ := hop
      rw [bind_of_ok hrun] at hrecord
      rw [ok_bind, bind_of_ok (hrecord.trans (onState_of_eq rfl))]
      exact @ih ⟨{ replay.state with packs, locations }.advance record (recordDigest record)
          (Json.encode record).length, pending⟩ ⟨hinv.agree, hinv.coherent⟩ hnext.2.2.2
        fun r hr ↦ hstored r (mem_cons_of_mem _ hr)

/-- A batch whose records were all replayed returns, with the locations of its packs. -/
theorem replayCatalogRecordsLocked_of_ok (h : replay.Inv) {names : List String}
    (heach : Program.each names (replayRecord directory) ⟨state, false⟩ = (.ok (), replay)) :
    ∃ locations, locationsFromPacks replay.state.packs = .ok locations ∧
      replayCatalogRecordsLocked directory names state
        = (.ok (), { replay.state with locations }) := by
  rw [replayCatalogRecordsLocked, heach]
  obtain ⟨state', pending⟩ := replay
  cases pending with
  | true =>
    obtain ⟨locations, hbuild, -⟩ := locationsFromPacks_of_agree h.agree
    refine ⟨locations, hbuild, ?_⟩
    simp only [true_or, if_true]
    rw [hbuild]
  | false => exact ⟨state'.locations, h.coherent rfl, rfl⟩

/-- The error of a record stands, whether or not the locations can be rebuilt. -/
theorem replayCatalogRecordsLocked_of_error {names : List String} {e : ClewError}
    (heach : Program.each names (replayRecord directory) ⟨state, false⟩ = (.error e, replay)) :
    replayCatalogRecordsLocked directory names state
      = (.error e, match locationsFromPacks replay.state.packs with
        | .ok locations => { replay.state with locations }
        | .error _ => {}) := by
  rw [replayCatalogRecordsLocked, heach]
  simp only [Except.isOk, Except.toBool, Bool.false_eq_true, not_false_eq_true, or_true, if_true]
  cases locationsFromPacks replay.state.packs <;> rfl

/-- A replayed batch follows `stepPacks`, whether or not it ends with removals. -/
theorem replayCatalogRecordsLocked_follows (hs : Coherent state) {records : List CatalogRecord}
    (hnext : Continues state.sequence state.lastRecordDigest records)
    (hstored : ∀ record ∈ records, Stored directory record) :
    Follows (records.foldlM stepPacks state.packs) (state.after records)
      (replayCatalogRecordsLocked directory (records.map recordName) state) := by
  have hrun := @replayRecords_follow _ directory records ⟨state, false⟩
    ⟨(locationsFromPacks_eq_ok_iff.mp hs).1, fun _ ↦ hs⟩ hnext hstored
  rcases hfold : records.foldlM stepPacks state.packs with e | packs
  · simp only [hfold] at hrun
    rcases heach : Program.each (records.map recordName) (replayRecord directory) ⟨state, false⟩
      with ⟨outcome, replay⟩
    rw [heach] at hrun
    obtain rfl : outcome = .error e := hrun
    rw [replayCatalogRecordsLocked_of_error heach]
    rfl
  · simp only [hfold] at hrun
    obtain ⟨locations, pending, heach, hinv⟩ := hrun
    exact replayCatalogRecordsLocked_of_ok hinv heach

/-! ## One record at a time -/

/-- Apply a record and enter it into the state, as the writer of a record does. -/
def applyRecord (record : CatalogRecord) : Program CatalogState ClewError Unit := do
  applyCatalogRecord record
  Program.modify (·.advance record (recordDigest record) (Json.encode record).length)

theorem applyRecords_follow (records : List CatalogRecord) :
    ∀ {state : CatalogState}, Coherent state →
    Follows (records.foldlM stepPacks state.packs) (state.after records)
      (Program.each records applyRecord state) := by
  induction records with
  | nil => exact fun hs ↦ ⟨_, hs, rfl⟩
  | cons record records ih =>
    intro state hs
    have happly := applyCatalogRecord_follows hs record
    rw [foldlM_cons, each_cons]
    rcases hstep : stepPacks state.packs record with e | packs
    · rw [hstep] at happly
      rw [error_bind]
      exact bind_fst_of_error (bind_fst_of_error happly _) _
    · rw [hstep] at happly
      obtain ⟨locations, hbuild, hrun⟩ := happly
      have hrecord : applyRecord record state = (.ok (), { state with packs, locations }.advance
          record (recordDigest record) (Json.encode record).length) := by
        rw [applyRecord, bind_of_ok hrun, modify_apply]
      rw [ok_bind, bind_of_ok hrecord]
      have hs' : Coherent ({ state with packs, locations }.advance record (recordDigest record)
          (Json.encode record).length) := hbuild
      exact ih hs'

/-! ## Snapshots -/

/-- Every pack of the catalog has a manifest that passes its check. -/
def ValidPacks (packs : Packs) : Prop :=
  ∀ name manifest, packs[name]? = some manifest → validatePackManifest name manifest = .ok ()

theorem ValidPacks.insert {packs : Packs} {name : String} {manifest : PackManifest}
    (h : ValidPacks packs) (hv : validatePackManifest name manifest = .ok ()) :
    ValidPacks (packs.insert name manifest) := by
  intro name' manifest' hget
  rw [Std.ExtTreeMap.getElem?_insert] at hget
  split at hget
  · rename_i heq
    rw [← Std.LawfulEqOrd.eq_of_compare heq, ← Option.some.inj hget]
    exact hv
  · exact h name' manifest' hget

theorem validPacks_of_stepPacks {packs packs' : Packs} (h : ValidPacks packs)
    (hstep : stepPacks packs record = .ok packs') : ValidPacks packs' := by
  obtain ⟨⟨⟩, hv, hstep⟩ := bind_eq_ok_iff.mp hstep
  cases hop : record.operation with
  | add =>
    simp only [hop] at hstep
    split at hstep
    · cases hstep
    · cases hbuild : locationsFromPacks
          (packs.insert record.pack.dataName record.pack.manifest) with
      | error e =>
        rw [hbuild] at hstep
        cases hstep
      | ok locations =>
        rw [hbuild] at hstep
        cases hstep
        exact h.insert hv
  | remove =>
    simp only [hop] at hstep
    split at hstep
    · cases hstep
    · cases hstep
      intro name manifest hget
      rw [Std.ExtTreeMap.getElem?_erase] at hget
      split at hget
      · cases hget
      · exact h name manifest hget

theorem validPacks_of_foldlM {records : List CatalogRecord} :
    ∀ {packs packs' : Packs}, ValidPacks packs → records.foldlM stepPacks packs = .ok packs' →
    ValidPacks packs' := by
  induction records with
  | nil =>
    intro packs packs' h hfold
    cases hfold
    exact h
  | cons record records ih =>
    intro packs packs' h hfold
    rw [foldlM_cons] at hfold
    obtain ⟨next, hstep, hfold⟩ := bind_eq_ok_iff.mp hfold
    exact ih (validPacks_of_stepPacks h hstep) hfold

/-- Applied records leave a coherent catalog of valid packs. -/
theorem coherent_of_applyRecords {records : List CatalogRecord}
    (h : Program.each records applyRecord {} = (.ok (), state)) :
    Coherent state ∧ ValidPacks state.packs := by
  have hfollows := applyRecords_follow records (show Coherent {} from rfl)
  rw [h] at hfollows
  obtain ⟨packs, locations, hfold, hbuild, rfl⟩ := hfollows.of_ok
  exact ⟨hbuild, validPacks_of_foldlM (fun _ _ h ↦ by simp at h) hfold⟩

/-- Packs in strictly increasing order that pass their checks are admitted, with a pool or
without. -/
theorem admitPacks_of_sorted (pool : Bool) : ∀ {l : List CatalogPack} {previous : Option String}
    {packs : Packs}, (l.map CatalogPack.dataName).Pairwise (· < ·) →
    (∀ pack ∈ l, ∀ name ∈ previous, name < pack.dataName) →
    (∀ pack ∈ l, packs.contains pack.dataName = false) →
    (∀ pack ∈ l, validatePackManifest pack.dataName pack.manifest = .ok ()) →
    admitPacks l (if pool then
        some (l.map fun pack ↦ validatePackManifest pack.dataName pack.manifest)
      else none) previous packs
      = .ok (l.foldl (fun packs pack ↦ packs.insert pack.dataName pack.manifest) packs) := by
  intro l
  induction l with
  | nil =>
    intro previous packs _ _ _ _
    rfl
  | cons pack l ih =>
    intro previous packs hsorted hprev hnew hvalid
    rw [map_cons, pairwise_cons] at hsorted
    have hany : previous.any (pack.dataName ≤ ·) = false := by
      cases previous with
      | none => rfl
      | some name => simpa using hprev pack mem_cons_self name rfl
    have hrest := @ih (some pack.dataName) (packs.insert pack.dataName pack.manifest) hsorted.2
      (by
        rintro p hp name ⟨⟩
        exact hsorted.1 _ (mem_map_of_mem hp))
      (by
        intro p hp
        have hlt := hsorted.1 _ (mem_map_of_mem hp)
        have hne : compare pack.dataName p.dataName ≠ .eq := by
          simpa [Std.LawfulEqOrd.compare_eq_iff_eq] using hlt.ne
        rw [Std.ExtTreeMap.contains_insert]
        simp [hne, hnew p (mem_cons_of_mem _ hp)])
      fun p hp ↦ hvalid p (mem_cons_of_mem _ hp)
    have hok := hvalid pack mem_cons_self
    have hcontains := hnew pack mem_cons_self
    cases pool <;>
      simpa [admitPacks, hany, hok, hcontains] using hrest

/-- Packs that were admitted are valid, with a pool or without. -/
theorem ValidPacks.admitPacks {packs' : Packs} (pool : Bool) : ∀ {l : List CatalogPack}
    {previous : Option String} {packs : Packs}, ValidPacks packs →
    Cas.admitPacks l (if pool then
        some (l.map fun pack ↦ validatePackManifest pack.dataName pack.manifest)
      else none) previous packs = .ok packs' → ValidPacks packs' := by
  intro l
  induction l with
  | nil =>
    intro previous packs h hrun
    cases hrun
    exact h
  | cons pack l ih =>
    intro previous packs h hrun
    by_cases hsorted : previous.any (pack.dataName ≤ ·)
    · rw [Cas.admitPacks, if_pos hsorted] at hrun
      cases hrun
    cases hv : validatePackManifest pack.dataName pack.manifest with
    | error e => cases pool <;> simp [Cas.admitPacks, hsorted, hv] at hrun
    | ok =>
      by_cases hc : packs.contains pack.dataName
      · cases pool <;> simp [Cas.admitPacks, hsorted, hv, hc] at hrun <;> cases hrun
      · refine @ih (some pack.dataName) _ (h.insert hv) ?_
        cases pool <;> simpa [Cas.admitPacks, hsorted, hv, hc] using hrun

/-- A catalog that was loaded from a snapshot is coherent and has valid packs. -/
theorem coherent_of_catalogStateFromSnapshot {snapshot : CatalogSnapshot} {snapshotDigest : String}
    {pool : Bool} (h : catalogStateFromSnapshotInPool snapshot snapshotDigest pool = .ok state) :
    Coherent state ∧ ValidPacks state.packs := by
  obtain ⟨packs, hpacks, h⟩ := bind_eq_ok_iff.mp h
  obtain ⟨locations, hlocations, h⟩ := bind_eq_ok_iff.mp h
  cases h
  exact ⟨hlocations, ValidPacks.admitPacks pool (fun _ _ h ↦ by simp at h) hpacks⟩

/-- The catalog loaded from a snapshot of this state. -/
def CatalogState.reloaded (state : CatalogState) (snapshotDigest : String) : CatalogState where
  initialized := true
  sequence := state.sequence
  snapshotSequence := state.sequence
  lastRecordDigest := state.lastRecordDigest
  snapshotDigest := some snapshotDigest
  packs := state.packs
  locations := state.locations

/-- A snapshot of a coherent catalog of valid packs loads as that catalog. -/
theorem catalogStateFromSnapshot_of_coherent (hs : Coherent state) (hvalid : ValidPacks state.packs)
    (snapshotDigest : String) (pool : Bool) :
    catalogStateFromSnapshotInPool (snapshotFromCatalogState state) snapshotDigest pool
      = .ok (state.reloaded snapshotDigest) := by
  have hadmits := @admitPacks_of_sorted _ pool (snapshotFromCatalogState state).packs none ∅
    (by
      rw [snapshotFromCatalogState, map_dataName_snapshot]
      exact pairwise_lt_keys state.packs)
    (fun _ _ _ h ↦ nomatch h) (fun _ _ ↦ by simp)
    (by
      intro pack hpack
      obtain ⟨p, hp, rfl⟩ := mem_map.mp hpack
      exact hvalid p.1 p.2 (Std.ExtTreeMap.mem_toList_iff_getElem?_eq_some.mp hp))
  rw [← insertAll, snapshotFromCatalogState, insertAll_toList] at hadmits
  rw [catalogStateFromSnapshotInPool, snapshotFromCatalogState]
  simp only [hadmits, ok_bind]
  rw [show locationsFromPacks state.packs = .ok state.locations from hs]
  rfl

/-! ## Any mixture of the paths -/

/-- A stretch of a catalog's life: its state is taken as a snapshot and loaded again, or a batch
of records is replayed from their files. -/
inductive ReplayStep where
  | reload (snapshotDigest : String) (pool : Bool)
  | batch (records : List CatalogRecord)

/-- The records a step brings. -/
def ReplayStep.records : ReplayStep → List CatalogRecord
  | .reload _ _ => []
  | .batch records => records

def ReplayStep.run (directory : Directory) : ReplayStep → Program CatalogState ClewError Unit
  | .reload snapshotDigest pool => do
    let state ← Program.get
    let loaded ← Program.lift
      (catalogStateFromSnapshotInPool (snapshotFromCatalogState state) snapshotDigest pool)
    Program.modify fun _ ↦ loaded
  | .batch records => replayCatalogRecordsLocked directory (records.map recordName)

theorem continues_append {records records' : List CatalogRecord} : ∀ {state : CatalogState},
    Continues state.sequence state.lastRecordDigest (records ++ records') ↔
      Continues state.sequence state.lastRecordDigest records ∧
      Continues (state.after records).sequence (state.after records).lastRecordDigest
        records' := by
  induction records with
  | nil =>
    intro state
    exact (and_iff_right trivial).symm
  | cons record records ih =>
    intro state
    have := @ih (state.advance record (recordDigest record) (Json.encode record).length)
    simp only [cons_append, Continues, and_assoc]
    exact and_congr_right fun _ ↦ and_congr_right fun _ ↦ and_congr_right fun _ ↦ this

/-- Any mixture of the paths follows `stepPacks` through the records it brings. -/
theorem replaySteps_follow (steps : List ReplayStep) :
    ∀ {state : CatalogState}, Coherent state → ValidPacks state.packs →
    Continues state.sequence state.lastRecordDigest (steps.flatMap ReplayStep.records) →
    (∀ record ∈ steps.flatMap ReplayStep.records, Stored directory record) →
    match (steps.flatMap ReplayStep.records).foldlM stepPacks state.packs with
    | .ok packs => ∃ state', Program.each steps (ReplayStep.run directory) state
          = (.ok (), state') ∧ state'.packs = packs ∧ Coherent state' ∧
        state'.sequence = (state.after (steps.flatMap ReplayStep.records)).sequence ∧
        state'.lastRecordDigest
          = (state.after (steps.flatMap ReplayStep.records)).lastRecordDigest
    | .error e => (Program.each steps (ReplayStep.run directory) state).1 = .error e := by
  induction steps with
  | nil => exact fun hs _ _ _ ↦ ⟨_, rfl, rfl, hs, rfl, rfl⟩
  | cons step steps ih =>
    intro state hs hvalid hnext hstored
    rw [each_cons]
    cases step with
    | reload snapshotDigest pool =>
      have hrun : ReplayStep.run directory (.reload snapshotDigest pool) state
          = (.ok (), state.reloaded snapshotDigest) := by
        rw [ReplayStep.run, get_bind,
          catalogStateFromSnapshot_of_coherent hs hvalid snapshotDigest pool]
        rfl
      rw [bind_of_ok hrun]
      exact @ih (state.reloaded snapshotDigest) hs hvalid hnext hstored
    | batch records =>
      rw [flatMap_cons] at hnext hstored ⊢
      rw [ReplayStep.records] at hnext hstored ⊢
      rw [continues_append] at hnext
      have hbatch := replayCatalogRecordsLocked_follows hs hnext.1
        fun record h ↦ hstored record (mem_append_left _ h)
      rw [foldlM_append]
      rcases hfold : records.foldlM stepPacks state.packs with e | packs
      · rw [hfold] at hbatch
        exact bind_fst_of_error hbatch _
      · rw [hfold] at hbatch
        obtain ⟨locations, hbuild, hrun⟩ := hbatch
        rw [ok_bind, bind_of_ok (show ReplayStep.run directory (.batch records) state = _
          from hrun)]
        have hrest := @ih { state.after records with packs, locations } hbuild
          (validPacks_of_foldlM hvalid hfold) hnext.2
          fun record h ↦ hstored record (mem_append_right _ h)
        simp only [CatalogState.after, foldl_append] at hrest ⊢
        exact hrest

/-! ## Replay equivalence -/

/-- However the records of a journal reach a catalog, applied one at a time from the empty state,
or in batches from their files with snapshots taken and loaded between them, the catalog ends with
the same packs, number, digest and locations, or with the same error; and after every step its
locations are up to date. -/
theorem replay_equivalence (journal : Directory) (steps : List ReplayStep)
    (hchain : Continues 0 none (steps.flatMap ReplayStep.records))
    (hstored : ∀ record ∈ steps.flatMap ReplayStep.records, Stored journal record) :
    (∀ applied, Program.each (steps.flatMap ReplayStep.records) applyRecord {}
        = (.ok (), applied) →
      ∃ replayed, Program.each steps (ReplayStep.run journal) {} = (.ok (), replayed) ∧
        replayed.packs = applied.packs ∧ replayed.sequence = applied.sequence ∧
        replayed.lastRecordDigest = applied.lastRecordDigest ∧
        replayed.locations = applied.locations) ∧
    (∀ error, (Program.each (steps.flatMap ReplayStep.records) applyRecord {}).1
        = .error error →
      (Program.each steps (ReplayStep.run journal) {}).1 = .error error) ∧
    (∀ records state, records <+: steps.flatMap ReplayStep.records →
      Program.each records applyRecord {} = (.ok (), state) → UpToDate state) ∧
    (∀ taken state, taken <+: steps →
      Program.each taken (ReplayStep.run journal) {} = (.ok (), state) → UpToDate state) := by
  have hempty : Coherent {} := rfl
  have hvalid : ValidPacks ({} : CatalogState).packs := fun name manifest h ↦ by simp at h
  have happly := applyRecords_follow (steps.flatMap ReplayStep.records) hempty
  have hreplay := replaySteps_follow steps hempty hvalid hchain hstored
  refine ⟨?_, ?_, ?_, ?_⟩
  · intro applied hrun
    rw [hrun] at happly
    obtain ⟨packs, locations, hfold, hbuild, rfl⟩ := happly.of_ok
    simp only [hfold] at hreplay
    obtain ⟨replayed, hsteps, rfl, hcoherent, hseq, hlast⟩ := hreplay
    exact ⟨replayed, hsteps, rfl, hseq, hlast, Except.ok.inj (hcoherent.symm.trans hbuild)⟩
  · intro error hrun
    simpa only [happly.of_error hrun] using hreplay
  · intro records state _ hrun
    exact (coherent_of_applyRecords hrun).1.upToDate
  · rintro taken state ⟨rest, rfl⟩ hrun
    rw [flatMap_append] at hchain hstored
    have hreplay := replaySteps_follow taken hempty hvalid (continues_append.mp hchain).1
      fun record h ↦ hstored record (mem_append_left _ h)
    rw [hrun] at hreplay
    rcases hfold : (taken.flatMap ReplayStep.records).foldlM stepPacks
      ({} : CatalogState).packs with e | packs
    · simp only [hfold] at hreplay
      cases hreplay
    · simp only [hfold] at hreplay
      obtain ⟨state', heq, -, hcoherent, -, -⟩ := hreplay
      obtain rfl := (Prod.mk.inj heq).2
      exact hcoherent.upToDate

end Cas

/-! ### A shared object

Two packs share an object, and the one that served it is removed. -/

namespace Cas

section Example

attribute [local instance] Sha256.standard

/-- An object of one byte. -/
def exampleEntry (byte : UInt8) (offset : UInt64) : PackEntry where
  object := ⟨objectDigest "example" [byte], "example", casObjectSchema, 1⟩
  offset := offset

/-- A pack of the given entries and data, under its name. -/
def examplePack (objects : List PackEntry) (data : Bytes) : CatalogPack :=
  let manifest := ⟨hashBytes data, UInt64.ofNat data.length, objects, casPackSchema⟩
  ⟨digestHex (Sha256.digest (Json.encode manifest)) ++ ".pack", manifest⟩

/-- Two packs that share an object are added, and the first of them is removed. -/
def exampleRecords : List CatalogRecord :=
  let first := examplePack [exampleEntry 97 0] [97]
  let second := examplePack [exampleEntry 97 0, exampleEntry 98 1] [97, 98]
  let add : CatalogRecord := ⟨.add, first, none, catalogRecordSchema, 1⟩
  let add' : CatalogRecord := ⟨.add, second, some (recordDigest add), catalogRecordSchema, 2⟩
  let remove : CatalogRecord := ⟨.remove, first, some (recordDigest add'), catalogRecordSchema, 3⟩
  [add, add', remove]

def exampleJournal : Directory :=
  exampleRecords.foldl (fun directory record ↦
    directory.insert (recordName record) ⟨Json.encode record, default⟩) ∅

/-- The records in two batches, with a snapshot between them. -/
def exampleSteps : List ReplayStep :=
  [.batch (exampleRecords.take 1), .reload "sha256:" true, .batch (exampleRecords.drop 1)]

theorem exampleSteps_records : exampleSteps.flatMap ReplayStep.records = exampleRecords := rfl

theorem exampleRecords_continue : Continues 0 none exampleRecords :=
  ⟨rfl, rfl, rfl, rfl, rfl, rfl, rfl, rfl, rfl, trivial⟩

theorem exampleRecords_stored : ∀ record ∈ exampleRecords, Stored exampleJournal record := by
  unfold Stored
  decide +kernel

theorem exampleRecords_apply : ∃ state,
    Program.each exampleRecords applyRecord {} = (.ok (), state) ∧ state.packs.size = 1 := by
  decide +kernel

theorem replay_equivalence_shared_object : ∃ applied replayed,
    Program.each exampleRecords applyRecord {} = (.ok (), applied) ∧
    Program.each exampleSteps (ReplayStep.run exampleJournal) {} = (.ok (), replayed) ∧
    replayed.locations = applied.locations ∧ applied.packs.size = 1 := by
  obtain ⟨applied, happly, hsize⟩ := exampleRecords_apply
  have h := (replay_equivalence exampleJournal exampleSteps
    (by rw [exampleSteps_records]; exact exampleRecords_continue)
    (by rw [exampleSteps_records]; exact exampleRecords_stored)).1
  rw [exampleSteps_records] at h
  obtain ⟨replayed, hsteps, -, -, -, hlocations⟩ := h applied happly
  exact ⟨applied, replayed, happly, hsteps, hlocations, hsize⟩

end Example

end Cas

end Codeclew
