import Codeclew.Publication.Ledger

/-!
# Reading what was appended

An event that is appended as a line of its own is read back as it was written, and the chain that
was there before is checked first, as it was before. So a ledger with one more event loads if the
event may follow the last one (`loadEventChain_of_append`).
-/

namespace Codeclew.Publication

open Json Program

variable [Sha256] {authority : WorkspacePublicationAuthority}

/-- The lines are read in turn. -/
theorem loadEvents_append (xs ys : List Bytes) (previous : Option WorkspacePublicationEvent) :
    loadEvents authority (xs ++ ys) previous
      = loadEvents authority xs previous >>= loadEvents authority ys := by
  induction xs generalizing previous with
  | nil => rfl
  | cons line xs ih =>
    rw [List.cons_append, loadEvents, loadEvents]
    rcases readEvent authority line with _ | event
    · rfl
    rw [ok_bind, ok_bind]
    rcases validateTransition authority previous event with _ | _
    · rfl
    · rw [ok_bind, ok_bind]
      exact ih (some event)

variable {event : WorkspacePublicationEvent}

theorem loadEventChain_eq_ok_iff {d : Directory} :
    loadEventChain authority d = .ok event ↔ ∃ bytes,
      d.readFile "ledger.jsonl" maxWorkspacePublicationLedgerBytes = .ok bytes ∧
      bytes.getLast? = some 10 ∧ loadEvents authority (lines bytes) none = .ok (some event) := by
  rw [loadEventChain]
  constructor
  · intro h
    obtain ⟨bytes, hread, h⟩ := bind_eq_ok_iff.mp h
    split at h
    · cases h
    · next hlast =>
      obtain ⟨last, hload, h⟩ := bind_eq_ok_iff.mp h
      rcases last with _ | last
      · cases h
      · exact ⟨bytes, hread, not_not.mp hlast, hload.trans (by rw [Except.ok.inj h])⟩
  · rintro ⟨bytes, hread, hlast, hload⟩
    rw [hread, ok_bind, if_neg (not_not.mpr hlast)]
    simp only [hload]
    rfl

/-- An event with the names and the hash it should have. -/
structure Sealed (authority : WorkspacePublicationAuthority) (event : WorkspacePublicationEvent) :
    Prop where
  schema : event.schema = workspacePublicationEventSchema
  publicationId : event.publicationId = authority.publicationId
  authorityDigest : event.publicationAuthorityDigest = authority.authorityDigest
  hash : eventHash event = .ok event.eventHash

/-- Such an event has a line, and the line is read back. -/
theorem Sealed.readEvent (h : Sealed authority event) :
    ∃ bytes, canonical event = .ok bytes ∧ readEvent authority bytes = .ok event := by
  have hfits : Format.fits event = true := by
    have hhash := h.hash
    rw [eventHash] at hhash
    rcases hc : canonical { event with eventHash := "" } with _ | bytes
    · rw [hc] at hhash
      cases hhash
    · exact (canonical_eq_ok_iff.mp hc).1
  refine ⟨(Format.toJson event).bytes, canonical_eq_ok_iff.mpr ⟨hfits, rfl⟩, ?_⟩
  have hc : canonical event = .ok (Format.toJson event).bytes :=
    canonical_eq_ok_iff.mpr ⟨hfits, rfl⟩
  rw [Publication.readEvent, fromSlice_of_canonical (by decide) hc]
  simp [hc, h.hash, h.schema, h.publicationId, h.authorityDigest]
  rfl

variable {bytes : Bytes}

/-- What appending an event comes to: its line at the end of the ledger. -/
theorem appendEvent_apply {hash : String} (hhash : eventHash event = .ok hash)
    (hbytes : canonical { event with eventHash := hash } = .ok bytes) (d : Directory)
    (hsize : (d.bytesOf "ledger.jsonl").length + (bytes.length + 1)
      ≤ maxWorkspacePublicationLedgerBytes) :
    ∃ d', appendEvent event d = (.ok (), d') ∧
      (∀ other, other ≠ "ledger.jsonl" → d'[other]? = d[other]?) ∧
      d'.bytesOf "ledger.jsonl" = d.bytesOf "ledger.jsonl" ++ (bytes ++ [10]) := by
  refine ⟨(d.append "ledger.jsonl" []).append "ledger.jsonl" (bytes ++ [10]), ?_, ?_, ?_⟩
  · have hopen : Files.openAppend "ledger.jsonl" d
        = (.ok (d.bytesOf "ledger.jsonl").length, d.append "ledger.jsonl" []) := rfl
    rw [appendEvent, hhash, lift_ok_bind, hbytes, lift_ok_bind]
    rw [bind_of_ok hopen, require, if_pos (by simpa using hsize)]
    rfl
  · intro other hne
    rw [Directory.getElem?_append_of_ne hne, Directory.getElem?_append_of_ne hne]
  · rw [Directory.bytesOf_append, Directory.bytesOf_append, List.append_nil]

/-- The hash that is put into an event is the hash of the event. -/
theorem eventHash_with (event : WorkspacePublicationEvent) (hash : String) :
    eventHash { event with eventHash := hash } = eventHash event := rfl

variable {next : WorkspacePublicationEvent}

/-- The line of an event that may come next. -/
theorem loadEvents_line {previous : Option WorkspacePublicationEvent}
    (hsealed : Sealed authority next) (hbytes : canonical next = .ok bytes) (hten : 10 ∉ bytes)
    (hvalid : validateTransition authority previous next = .ok ()) :
    loadEvents authority (lines (bytes ++ [10])) previous = .ok (some next) := by
  obtain ⟨bytes', hbytes', hevent⟩ := hsealed.readEvent
  obtain rfl : bytes' = bytes := Except.ok.inj (hbytes'.symm.trans hbytes)
  obtain ⟨hfits, hjson⟩ := canonical_eq_ok_iff.mp hbytes
  have hline : lines (bytes' ++ [10]) = [bytes'] :=
    lines_line hten (hjson ▸ bytes_ne_nil (Format.valid_toJson next hfits))
  rw [hline, loadEvents, hevent, ok_bind, hvalid, ok_bind, loadEvents]

theorem loadEventChain_of_line {d : Directory} (hsealed : Sealed authority next)
    (hbytes : canonical next = .ok bytes) (hten : 10 ∉ bytes)
    (hledger : d.bytesOf "ledger.jsonl" = bytes ++ [10])
    (hsize : (d.bytesOf "ledger.jsonl").length ≤ maxWorkspacePublicationLedgerBytes)
    (hvalid : validateTransition authority none next = .ok ()) :
    loadEventChain authority d = .ok next := by
  have hne : d.bytesOf "ledger.jsonl" ≠ [] := by
    rw [hledger]
    simp
  refine loadEventChain_eq_ok_iff.mpr ⟨_, Directory.readFile_of_bytesOf hne hsize, ?_, ?_⟩
  · rw [hledger, List.getLast?_concat]
  · rw [hledger, loadEvents_line hsealed hbytes hten hvalid]

/-- Lines that load, with one more line, load to the event of that line if it may follow. -/
theorem loadEventChain_of_append {d d' : Directory} {event next : WorkspacePublicationEvent}
    (hload : loadEventChain authority d = .ok event) (hsealed : Sealed authority next)
    (hbytes : canonical next = .ok bytes) (hten : 10 ∉ bytes)
    (hledger : d'.bytesOf "ledger.jsonl" = d.bytesOf "ledger.jsonl" ++ (bytes ++ [10]))
    (hsize : (d'.bytesOf "ledger.jsonl").length ≤ maxWorkspacePublicationLedgerBytes)
    (hvalid : validateTransition authority (some event) next = .ok ()) :
    loadEventChain authority d' = .ok next := by
  obtain ⟨old, hread, hlast, hlines⟩ := loadEventChain_eq_ok_iff.mp hload
  have hne : d'.bytesOf "ledger.jsonl" ≠ [] := by
    rw [hledger]
    simp
  refine loadEventChain_eq_ok_iff.mpr ⟨_, Directory.readFile_of_bytesOf hne hsize, ?_, ?_⟩
  · rw [hledger, ← List.append_assoc, List.getLast?_concat]
  · rw [hledger, Directory.bytesOf_of_readFile hread, lines_append hlast, loadEvents_append, hlines,
      ok_bind, loadEvents_line hsealed hbytes hten hvalid]

end Codeclew.Publication
