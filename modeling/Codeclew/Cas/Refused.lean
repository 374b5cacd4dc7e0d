import Codeclew.Cas.Replay

/-!
# Replays that are refused

A replay stops at the first record it refuses, and the records before it stay applied. What it
leaves in memory is the state after those records, or the state of a process that has not loaded
its catalog: `replayCatalogRecordsLocked_refused`. The one record that is refused after it has
changed the packs is an addition of a pack that is there; the name of a pack is the digest of its
manifest, so the change is to the same manifest, up to a collision of digests.
-/

namespace Codeclew

open Program

namespace Cas

variable [Sha256] {record : CatalogRecord} {replay replay' : Replay} {directory : Directory}
  {name : String} {e : ClewError} {state state' : CatalogState}

/-- What holds of a replay under way, with the packs valid. -/
def Replay.Sound (replay : Replay) : Prop := replay.Inv ∧ ValidPacks replay.state.packs

/-- The record in this file is of a pack that the catalog has with another manifest, of the same
digest. -/
def Collides (directory : Directory) (packs : Packs) (name : String) : Prop :=
  ∃ record digest bytes manifest, readCatalogRecord directory name = .ok (record, digest, bytes) ∧
    packs[record.pack.dataName]? = some manifest ∧ manifest ≠ record.pack.manifest ∧
    Sha256.digest (Json.encode manifest) = Sha256.digest (Json.encode record.pack.manifest)

theorem Replay.Sound.replayRecord (h : replay.Sound)
    (hrun : replayRecord directory name replay = (.ok (), replay')) : replay'.Sound := by
  obtain ⟨⟨record, digest, bytes⟩, -, hrun⟩ := lift_bind_eq_ok.mp hrun
  simp only [get_bind] at hrun
  split_ifs at hrun with hold hchain
  · obtain rfl := (Prod.mk.inj hrun).2
    exact h
  · cases hrun
  · have hop := replayOperation_follows h.1 record
    obtain ⟨⟨⟩, next, hnext, hrun⟩ := bind_eq_ok.mp hrun
    rw [hnext] at hop
    obtain rfl := (Prod.mk.inj hrun).2
    rcases hstep : stepPacks replay.state.packs record with e | packs
    · rw [hstep] at hop
      cases hop
    · rw [hstep] at hop
      obtain ⟨locations, pending, heq, hinv⟩ := hop
      obtain rfl := (Prod.mk.inj heq).2
      exact ⟨⟨hinv.agree, hinv.coherent⟩, validPacks_of_stepPacks h.2 hstep⟩

/-- The name of a valid pack tells the digest of its manifest. -/
theorem digest_eq_of_validatePackManifest {manifest manifest' : PackManifest}
    (h : validatePackManifest name manifest = .ok ())
    (h' : validatePackManifest name manifest' = .ok ()) :
    Sha256.digest (Json.encode manifest) = Sha256.digest (Json.encode manifest') := by
  have hname {m : PackManifest} (h : validatePackManifest name m = .ok ()) :
      name = digestHex (Sha256.digest (Json.encode m)) ++ ".pack" := by
    rw [validatePackManifest, hashBytes, digestComponent_digestText] at h
    by_contra hne
    simp only [ok_bind, ne_eq, hne, not_false_eq_true, if_true] at h
    split at h <;> cases h
  have hlists := congrArg String.toList ((hname h).symm.trans (hname h'))
  rw [String.toList_append, String.toList_append] at hlists
  exact digestHex_injective (String.toList_inj.mp (List.append_cancel_right hlists))

/-- An addition that is refused has left the packs as they were, if the pack was there with the same
manifest, or it has made packs whose objects do not agree. -/
theorem applyCatalogRecord_refused (hs : Coherent state) (hop : record.operation = .add)
    (hsame : ∀ manifest, state.packs[record.pack.dataName]? = some manifest →
      validatePackManifest record.pack.dataName record.pack.manifest = .ok () →
      manifest = record.pack.manifest)
    (hrun : applyCatalogRecord record state = (.error e, state')) :
    ∃ packs locations, state' = { state with packs, locations } ∧
      (packs = state.packs ∨ ¬ObjectsAgree (contents packs)) := by
  obtain ⟨ha, hi⟩ := locationsFromPacks_eq_ok_iff.mp hs
  rcases bind_eq_error.mp hrun with hrun | ⟨⟨⟩, _, hv, hrun⟩
  · exact ⟨_, _, (Prod.mk.inj hrun).2.symm, .inl rfl⟩
  obtain ⟨hok, rfl⟩ := Prod.mk.inj hv
  simp only [hop, get_bind, modify_bind] at hrun
  by_cases hc : state.packs.contains record.pack.dataName
  · rw [if_pos hc] at hrun
    obtain ⟨manifest, hget⟩ := Option.isSome_iff_exists.mp
      (Std.ExtTreeMap.isSome_getElem?_eq_contains.trans hc)
    refine ⟨_, _, (Prod.mk.inj hrun).2.symm, .inl ?_⟩
    rw [← hsame manifest hget hok]
    exact insert_self hget
  · rw [if_neg hc] at hrun
    have hadd := builds_addPackToCatalog record.pack.dataName record.pack.manifest hi ha
      (contents_of_not_contains hc)
    rw [← contents_insert] at hadd
    by_cases ha' : ObjectsAgree
        (contents (state.packs.insert record.pack.dataName record.pack.manifest))
    · obtain ⟨locations, hok', -⟩ := hadd.ok ha'
      cases hrun.symm.trans (onLocations_of_eq hok')
    · obtain ⟨locations, herror⟩ := hadd.error ha'
      exact ⟨_, _, (Prod.mk.inj (hrun.symm.trans (onLocations_of_eq herror))).2, .inr ha'⟩

/-- A record that is refused leaves the packs as they were, or packs with no locations. -/
theorem Replay.Sound.refused (h : replay.Sound)
    (hrun : Cas.replayRecord directory name replay = (.error e, replay'))
    (hc : ¬Collides directory replay.state.packs name) :
    ∃ packs locations, replay'.state = { replay.state with packs, locations } ∧
      (packs = replay.state.packs ∨ ¬ObjectsAgree (contents packs)) := by
  have hkept (h : replay = replay') : ∃ packs locations, replay'.state =
      { replay.state with packs, locations } ∧
      (packs = replay.state.packs ∨ ¬ObjectsAgree (contents packs)) :=
    ⟨_, _, congrArg Replay.state h.symm, .inl rfl⟩
  rcases bind_eq_error.mp hrun with hread | ⟨⟨record, digest, bytes⟩, _, hread, hrun⟩
  · exact hkept (Prod.mk.inj hread).2
  obtain ⟨hrecord, rfl⟩ := Prod.mk.inj hread
  simp only [get_bind] at hrun
  split_ifs at hrun with hold hchain
  · cases hrun
  · exact hkept (Prod.mk.inj hrun).2
  rcases bind_eq_error.mp hrun with hrun | ⟨_, _, -, hrun⟩
  swap
  · cases hrun
  cases hop : record.operation with
  | remove =>
    simp only [replayOperation, hop] at hrun
    rcases bind_eq_error.mp hrun with hrun | ⟨_, _, hv, hrun⟩
    · exact hkept (Prod.mk.inj hrun).2
    obtain ⟨-, rfl⟩ := Prod.mk.inj hv
    by_cases hp : replay.state.packs[record.pack.dataName]? = some record.pack.manifest
    · rw [bind_of_ok (onState_of_eq (removeCatalogPack_of_present hp))] at hrun
      cases hrun
    · rw [bind_of_error (onState_of_eq (removeCatalogPack_of_absent hp))] at hrun
      exact hkept (Prod.mk.inj hrun).2
  | add =>
    obtain ⟨locations, hcoherent, hadd⟩ := replayOperation_add h.1 hop
    rw [hadd] at hrun
    rcases happly : applyCatalogRecord record { replay.state with locations } with ⟨x, state'⟩
    rw [onState_of_eq happly] at hrun
    obtain ⟨rfl, rfl⟩ := Prod.mk.inj hrun
    have hsame (manifest) (hget : replay.state.packs[record.pack.dataName]? = some manifest)
        (hv : validatePackManifest record.pack.dataName record.pack.manifest = .ok ()) :
        manifest = record.pack.manifest := by
      by_contra hne
      exact hc ⟨record, digest, bytes, manifest, hrecord, hget, hne,
        digest_eq_of_validatePackManifest (h.2 _ _ hget) hv⟩
    have hrefused := applyCatalogRecord_refused hcoherent hop hsame happly
    exact hrefused

/-- For every catalog in memory and every list of record files: a replay that fails does so at some
record, and the records before it make a replay of their own, which returns. What is left is exactly
the state after these or the state of a process that has loaded nothing, unless the refused record
is a collision of digests; and its locations are always those of its packs. -/
theorem replayCatalogRecordsLocked_refused (hs : Coherent state) (hvalid : ValidPacks state.packs)
    {names : List String} {result : CatalogState}
    (hrun : replayCatalogRecordsLocked directory names state = (.error e, result)) :
    ∃ before name rest valid, names = before ++ name :: rest ∧
      replayCatalogRecordsLocked directory before state = (.ok (), valid) ∧
      (replayCatalogRecordsLocked directory (before ++ [name]) state).1 = .error e ∧
      UpToDate result ∧ (¬Collides directory valid.packs name → result = valid ∨ result = {}) := by
  have hstart : Replay.Sound ⟨state, false⟩ :=
    ⟨⟨(locationsFromPacks_eq_ok_iff.mp hs).1, fun _ ↦ hs⟩, hvalid⟩
  rcases heach : Program.each names (replayRecord directory) ⟨state, false⟩ with ⟨_ | _, last⟩
  swap
  · have hlast := each_preserves (fun _ _ _ h ↦ h.replayRecord) hstart heach
    obtain ⟨locations, -, hok⟩ := replayCatalogRecordsLocked_of_ok hlast.1 heach
    cases hrun.symm.trans hok
  obtain ⟨before, name, rest, replay, rfl, hbefore, hname⟩ := each_eq_error heach
  have hsound := each_preserves (fun _ _ _ h ↦ h.replayRecord) hstart hbefore
  obtain ⟨locations, hbuild, hvalid⟩ := replayCatalogRecordsLocked_of_ok hsound.1 hbefore
  obtain ⟨herror, rfl⟩ :=
    Prod.mk.inj (hrun.symm.trans (replayCatalogRecordsLocked_of_error heach))
  refine ⟨before, name, rest, _, rfl, hvalid, ?_, ?_, fun hc ↦ ?_⟩
  · rw [herror, replayCatalogRecordsLocked_of_error ((each_append_of_ok hbefore [name]).trans
      (bind_of_error hname _))]
  · rcases hlast : locationsFromPacks last.state.packs with _ | _
    · exact Coherent.upToDate rfl
    · exact Coherent.upToDate hlast
  · obtain ⟨packs, _, hstate, rfl | hpacks⟩ := hsound.refused hname hc
    · rw [hstate, hbuild]
      exact .inl rfl
    · rw [hstate, locationsFromPacks_of_not_agree hpacks]
      exact .inr rfl

/-- Records that can be applied one at a time, replayed from their files up to a file that cannot be
read: the replay fails with the packs of the records. -/
theorem replayCatalogRecordsLocked_of_unreadable {records : List CatalogRecord}
    (hs : Coherent state) (hpacks : state.packs = ∅)
    (hnext : Continues state.sequence state.lastRecordDigest records)
    (hstored : ∀ record ∈ records, Stored directory record)
    (happly : Program.each records applyRecord {} = (.ok (), state'))
    (hread : readCatalogRecord directory name = .error e) :
    ∃ result, replayCatalogRecordsLocked directory (records.map recordName ++ [name]) state
      = (.error e, result) ∧ result.packs = state'.packs := by
  have hfollows := applyRecords_follow records (show Coherent {} from rfl)
  rw [happly] at hfollows
  obtain ⟨packs, locations, hfold, hbuild, rfl⟩ := hfollows.of_ok
  have hbefore := @replayRecords_follow _ directory records ⟨state, false⟩
    ⟨(locationsFromPacks_eq_ok_iff.mp hs).1, fun _ ↦ hs⟩ hnext hstored
  rw [hpacks, show records.foldlM stepPacks ∅ = .ok packs from hfold] at hbefore
  obtain ⟨locations', pending, hbefore, -⟩ := hbefore
  have hlast (replay : Replay) :
      Program.each [name] (replayRecord directory) replay = (.error e, replay) := by
    rw [each_cons, replayRecord, hread]
    rfl
  rw [replayCatalogRecordsLocked_of_error ((each_append_of_ok hbefore [name]).trans (hlast _)),
    hbuild]
  exact ⟨_, rfl, rfl⟩

end Cas

namespace Cas

section Example

attribute [local instance] Sha256.standard

/-- The journal of the shared object, with a file that holds no record. -/
def spoiltJournal : Directory := exampleJournal.insert "spoilt" ⟨[], default⟩

theorem spoiltJournal_stored : ∀ record ∈ exampleRecords, Stored spoiltJournal record := by
  unfold Stored
  decide +kernel

/-- A process loads the snapshot of an empty catalog and replays the journal. After the record that
removes a pack comes a file that holds no record: the replay fails, and the other pack stays. -/
theorem replayCatalogRecordsLocked_refused_spoilt : ∃ loaded result,
    catalogStateFromSnapshotInPool (snapshotFromCatalogState {}) "sha256:" true = .ok loaded ∧
      replayCatalogRecordsLocked spoiltJournal (exampleRecords.map recordName ++ ["spoilt"])
        loaded =
        (.error (corrupt "CAS catalog record is invalid"), result) ∧
      result.packs.size = 1 ∧ UpToDate result := by
  obtain ⟨loaded, hload, hpacks, hsequence, hlast⟩ : ∃ loaded,
      catalogStateFromSnapshotInPool (snapshotFromCatalogState {}) "sha256:" true = .ok loaded ∧
        loaded.packs = ∅ ∧ loaded.sequence = 0 ∧ loaded.lastRecordDigest = none :=
    ⟨_, rfl, rfl, rfl, rfl⟩
  obtain ⟨hcoherent, hvalid⟩ := coherent_of_catalogStateFromSnapshot hload
  obtain ⟨applied, happly, hsize⟩ := exampleRecords_apply
  have hread : readCatalogRecord spoiltJournal "spoilt"
      = .error (corrupt "CAS catalog record is invalid") := by decide +kernel
  obtain ⟨result, hrun, hresult⟩ := replayCatalogRecordsLocked_of_unreadable hcoherent hpacks
    (by rw [hsequence, hlast]; exact exampleRecords_continue) spoiltJournal_stored happly hread
  obtain ⟨_, _, _, _, -, -, -, hupToDate, -⟩ :=
    replayCatalogRecordsLocked_refused hcoherent hvalid hrun
  exact ⟨loaded, result, hload, hrun, by rw [hresult, hsize], hupToDate⟩

end Example

end Cas

end Codeclew
