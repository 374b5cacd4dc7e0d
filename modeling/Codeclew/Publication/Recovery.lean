import Codeclew.Publication.Calls

/-!
# Resolving again after a crash

Resolving a new publication writes two files: its authority, and a ledger with the first event. A
process that dies between them leaves an authority without a ledger. Whoever resolves the same
publication again takes it for one that is there, and cannot read it: `resolve_recovers_iff`.

Files are created and appended to in one step each, so a process dies before the first of these
steps, between the two, or after the second.
-/

namespace Codeclew.Publication

open Json Program FileTree

section Crash

variable [Sha256]

/-- What a call of `resolve` works with: the directory, the authority, and whether the prepared
workspace is still the one that was prepared. -/
structure Target where
  path : String
  authority : WorkspacePublicationAuthority
  fresh : Except ClewError Unit

def target (prepared : Prepared) (workspaceId : String) (source : Bytes) :
    Except ClewError Target := do
  let input ← parseInput source
  let after ← prepared.retained workspaceId input.preparationId input.afterWorkspaceId
    input.afterWorkspaceAuthorityDigest
  let authority ← buildAuthority after input
  let path ← publicationDirectory workspaceId authority.publicationId
  return ⟨path, authority, prepared.bound workspaceId authority.preparationId
    authority.afterWorkspaceId authority.afterWorkspaceAuthorityDigest⟩

/-- The steps of `resolveIn` up to the authority. -/
def resolveAuthority (authority : WorkspacePublicationAuthority) (fresh : Except ClewError Unit) :
    Files.Steps Unit := do
  let present ← Files.fileExists "authority.json"
  whenever (present = false) do
    lift fresh
    persistAuthority authority

/-- Where a process dies that resolves a publication, among the files it writes. -/
inductive CrashPoint where
  | beforeAuthority
  | beforeOrigin
  | afterOrigin

/-- What a call of `resolve` that dies leaves behind. -/
def crash (now : ℕ) (prepared : Prepared) (workspaceId : String) (source : Bytes)
    (tree : FileTree) : CrashPoint → FileTree
  | .beforeAuthority => tree
  | .beforeOrigin => ((lift (target prepared workspaceId source) >>= fun t ↦
      within t.path (resolveAuthority t.authority t.fresh) :
        Program FileTree ClewError Unit) tree).2
  | .afterOrigin => (resolve now prepared workspaceId source tree).2

variable {now now' : ℕ} {prepared : Prepared} {workspaceId : String} {source : Bytes}
  {tree : FileTree} {authority : WorkspacePublicationAuthority} {d : Directory}
  {fresh : Except ClewError Unit} {projection projection' : WorkspacePublicationProjection}

theorem resolve_eq : resolve now prepared workspaceId source =
    lift (target prepared workspaceId source) >>= fun t ↦
      within t.path (resolveIn now t.authority t.fresh) := by
  rw [resolve, target]
  rcases parseInput source with _ | input
  · rfl
  rw [lift_ok_bind, ok_bind]
  rcases prepared.retained workspaceId input.preparationId input.afterWorkspaceId
    input.afterWorkspaceAuthorityDigest with _ | after
  · rfl
  rw [lift_ok_bind, ok_bind]
  rcases buildAuthority after input with _ | authority
  · rfl
  rw [lift_ok_bind, ok_bind]
  rcases publicationDirectory workspaceId authority.publicationId with _ | path <;> rfl

theorem resolve_of_target {path : String}
    (h : target prepared workspaceId source = .ok ⟨path, authority, fresh⟩) (tree : FileTree) :
    resolve now prepared workspaceId source tree =
      within path (resolveIn now authority fresh) tree := by
  rw [resolve_eq, h, lift_ok_bind]

theorem resolve_fst {path : String}
    (h : target prepared workspaceId source = .ok ⟨path, authority, fresh⟩) :
    (resolve now prepared workspaceId source tree).1 =
      (resolveIn now authority fresh (files tree path)).1 := by
  rw [resolve_of_target h, within_apply]

theorem exists_target (h : (resolve now prepared workspaceId source tree).1 = .ok projection) :
    ∃ path authority fresh,
      target prepared workspaceId source = .ok ⟨path, authority, fresh⟩ := by
  rcases htarget : target prepared workspaceId source with _ | t
  · rw [resolve_eq, htarget] at h
    cases h
  · exact ⟨t.path, t.authority, t.fresh, rfl⟩

theorem exists_of_loadEventChain {event : WorkspacePublicationEvent}
    (h : loadEventChain authority d = .ok event) : d.fileExists "ledger.jsonl" = true := by
  obtain ⟨bytes, hread, -⟩ := loadEventChain_eq_ok_iff.mp h
  obtain ⟨file, hfile, -⟩ := Directory.readFile_eq_ok_iff.mp hread
  rw [Directory.fileExists, Std.ExtTreeMap.contains_eq_isSome_getElem?, hfile]
  rfl

/-- After a crash between the two files, what is resolved is there exactly if one of the files was
there before. -/
theorem resolveIn_of_beforeOrigin
    (h : (resolveIn now authority fresh d).1 = .ok projection)
    (h' : (resolveIn now' authority fresh d).1 = .ok projection') :
    (resolveIn now' authority fresh (resolveAuthority authority fresh d).2).1 ∈
        [.ok projection, .ok projection'] ↔
      d.fileExists "authority.json" ∨ d.fileExists "ledger.jsonl" := by
  obtain ⟨-, ⟨event, hevent, rfl⟩, hnew⟩ := of_resolveIn (Prod.ext h rfl)
  have hpresent : Files.fileExists "authority.json" d
      = (.ok (d.fileExists "authority.json"), d) := rfl
  rw [resolveAuthority, bind_of_ok hpresent, whenever]
  split
  · next hfirst =>
    obtain ⟨rfl, d₁, hpersist, happend⟩ := hnew hfirst
    obtain ⟨hauthority, hothers⟩ := of_persistAuthority hpersist
    have hledger : d₁.fileExists "ledger.jsonl" = d.fileExists "ledger.jsonl" := by
      rw [Directory.fileExists, Directory.fileExists, Std.ExtTreeMap.contains_eq_isSome_getElem?,
        Std.ExtTreeMap.contains_eq_isSome_getElem?, hothers _ (by decide)]
    rw [lift_ok_bind, hpersist, resolveIn_of_loadAuthority hauthority, if_pos rfl, ← hledger]
    rcases hexists : d₁.fileExists "ledger.jsonl"
    · -- the authority is there and the ledger is not
      rcases hload : loadEventChain authority d₁ with _ | event
      · simp [Except.map, hfirst]
      · rw [exists_of_loadEventChain hload] at hexists
        cases hexists
    · rw [whenever, hexists, if_neg (by decide)] at happend
      rw [(Prod.mk.inj happend).2, hevent]
      simp [Except.map]
  · next hthere =>
    rw [pure_apply, h']
    simp [Bool.not_eq_false _ ▸ hthere]

/-- What is returned after a crash between the two files. -/
theorem resolve_crash {path : String}
    (h : target prepared workspaceId source = .ok ⟨path, authority, fresh⟩) :
    (resolve now' prepared workspaceId source
        (crash now prepared workspaceId source tree .beforeOrigin)).1 =
      (resolveIn now' authority fresh
        (resolveAuthority authority fresh (files tree path)).2).1 := by
  rw [crash, h, lift_ok_bind, resolve_fst h, files_within_self]

/-- For every input that can be resolved and every point at which a call dies: whoever calls again
gets what the call would have returned, or what is returned without the first call, exactly if the
call did not die between the two files, or one of them was there before. -/
theorem resolve_recovers_iff (point : CrashPoint)
    (h : (resolve now prepared workspaceId source tree).1 = .ok projection)
    (h' : (resolve now' prepared workspaceId source tree).1 = .ok projection') :
    (resolve now' prepared workspaceId source
        (crash now prepared workspaceId source tree point)).1 ∈ [.ok projection, .ok projection'] ↔
      point ≠ .beforeOrigin ∨ ∃ t, target prepared workspaceId source = .ok t ∧
        ((files tree t.path).fileExists "authority.json" ∨
          (files tree t.path).fileExists "ledger.jsonl") := by
  obtain ⟨path, authority, fresh, htarget⟩ := exists_target h
  cases point with
  | beforeAuthority => simp [crash, h']
  | beforeOrigin =>
    rw [resolve_fst htarget] at h h'
    rw [resolve_crash htarget, htarget]
    refine (resolveIn_of_beforeOrigin h h').trans ⟨fun hthere ↦ .inr ⟨_, rfl, hthere⟩, ?_⟩
    rintro (hpoint | ⟨_, ⟨⟩, hthere⟩)
    · exact absurd rfl hpoint
    · exact hthere
  | afterOrigin =>
    -- both files are there, and are read as the first call has read them
    rw [resolve_fst htarget] at h
    obtain ⟨hauthority, ⟨event, hevent, rfl⟩, -⟩ := of_resolveIn (Prod.ext h rfl)
    rw [crash, resolve_fst htarget, resolve_of_target htarget, files_within_self,
      resolveIn_of_loadAuthority hauthority, hevent]
    simp [Except.map]

end Crash

section Example

attribute [local instance] Sha256.standard

/-- The request to publish the two members. -/
def exampleInput : WorkspacePublishInput :=
  ⟨workspacePublishInputSchema, "preparation:p", "after:a", exampleDigest, "ROLL_FORWARD_ONLY",
    [⟨"api", exampleDigest, false, []⟩, ⟨"web", exampleDigest, false, []⟩]⟩

/-- The prepared members. -/
def exampleAfter : AfterWorkspace :=
  let member (alias_ : String) (c : Char) : AfterWorkspaceMember :=
    ⟨alias_, "session:" ++ alias_, "run:" ++ alias_, .readyToPublish, "refs/heads/main",
      exampleOid '0', exampleOid c, exampleDigest, 0⟩
  ⟨"after:a", exampleDigest, "preparation:p", "workspace:w", exampleDigest, exampleDigest,
    [member "api" '1', member "web" '2']⟩

def examplePrepared : Prepared := ⟨fun _ _ _ _ ↦ .ok exampleAfter, fun _ _ _ _ ↦ .ok ()⟩

theorem target_example : target examplePrepared "workspace:w" (encode exampleInput) =
    .ok ⟨examplePath, exampleAuthority, .ok ()⟩ := by
  have hparse : parseInput (encode exampleInput) = .ok exampleInput := by
    have hsize : ¬(encode exampleInput = [] ∨
        (encode exampleInput).length > maxWorkspacePublishInputBytes) := by decide +kernel
    have hvalue : ofBytes (encode exampleInput) = some (toJson exampleInput) :=
      ofBytes_bytes (Codec.valid_toJson _) ((Codec.depth_toJson _).trans_lt (by decide))
    rw [parseInput, if_neg hsize, hvalue]
    dsimp only
    rw [if_neg (fun hne ↦ hne rfl), Codec.ofJson?_toJson]
    rfl
  have hbuild : buildAuthority exampleAfter exampleInput = .ok exampleAuthority := by decide +kernel
  have hpath :
      publicationDirectory "workspace:w" exampleAuthority.publicationId = .ok examplePath :=
    publicationDirectory_example
  rw [target, hparse, ok_bind, examplePrepared, ok_bind, hbuild, ok_bind, hpath]
  rfl

/-- The directory of a publication after its authority has been persisted. -/
def examplePersisted : Directory :=
  Std.ExtTreeMap.insert ∅ "authority.json" ⟨encode exampleAuthority, default⟩

theorem fileExists_examplePersisted : examplePersisted.fileExists "ledger.jsonl" = false := by
  simp [examplePersisted, Directory.fileExists]

theorem persistAuthority_example :
    persistAuthority exampleAuthority ∅ = (.ok (), examplePersisted) := by
  have hvalid : validateAuthority exampleAuthority = .ok () := by decide +kernel
  have hsize : (encode exampleAuthority).length ≤ maxWorkspacePublicationAuthorityBytes := by
    decide +kernel
  rw [persistAuthority, hvalid, lift_ok_bind, require, if_pos hsize]
  rfl

theorem resolveIn_example : (resolveIn 1 exampleAuthority (.ok ()) ∅).1
    = .ok (project exampleAuthority exampleOrigin) := by
  have hhash : eventHash (originEvent 1 exampleAuthority) = .ok exampleOrigin.eventHash := by
    decide +kernel
  have hbytes : canonical exampleOrigin = .ok (Format.toJson exampleOrigin).bytes :=
    canonical_eq_ok_iff.mpr ⟨by decide, rfl⟩
  have hempty : examplePersisted.bytesOf "ledger.jsonl" = [] := by
    simp [examplePersisted, Directory.bytesOf]
  have hsize : (examplePersisted.bytesOf "ledger.jsonl").length +
      ((Format.toJson exampleOrigin).bytes.length + 1) ≤ maxWorkspacePublicationLedgerBytes := by
    rw [hempty]
    decide +kernel
  obtain ⟨d, happend, -, hledger⟩ := appendEvent_apply hhash hbytes examplePersisted hsize
  rw [hempty, List.nil_append] at hledger
  have hevent : Files.inspect (loadEventChain exampleAuthority) d = (.ok exampleOrigin, d) :=
    congrArg (·, d) (loadEventChain_example hledger)
  have habsent : Files.fileExists "authority.json" (∅ : Directory) = (.ok false, ∅) := rfl
  have hnone :
      Files.fileExists "ledger.jsonl" examplePersisted = (.ok false, examplePersisted) := by
    rw [Files.fileExists, Files.inspect, fileExists_examplePersisted]
  rw [resolveIn, bind_of_ok habsent, if_neg (by decide), lift_ok_bind,
    bind_of_ok persistAuthority_example, bind_of_ok hnone, whenever, if_pos rfl,
    bind_of_ok happend, bind_of_ok hevent]
  rfl

theorem files_empty (path : String) : files ∅ path = ∅ := rfl

theorem resolve_example :
    (resolve 1 examplePrepared "workspace:w" (encode exampleInput) ∅).1 =
      .ok (project exampleAuthority exampleOrigin) := by
  rw [resolve_fst target_example, files_empty, resolveIn_example]

/-- The authority has been written and the first event has not, and the publication cannot be
resolved any more. -/
theorem resolve_of_beforeOrigin :
    (resolve 1 examplePrepared "workspace:w" (encode exampleInput) ∅).1 =
        .ok (project exampleAuthority exampleOrigin) ∧
      ∀ projection, (resolve 1 examplePrepared "workspace:w" (encode exampleInput)
        (crash 1 examplePrepared "workspace:w" (encode exampleInput) ∅ .beforeOrigin)).1 ≠
          .ok projection := by
  refine ⟨resolve_example, fun projection h ↦ ?_⟩
  have habsent : Files.fileExists "authority.json" (∅ : Directory) = (.ok false, ∅) := rfl
  have hpersisted : (resolveAuthority exampleAuthority (.ok ()) ∅).2 = examplePersisted := by
    rw [resolveAuthority, bind_of_ok habsent, whenever, if_pos rfl, lift_ok_bind,
      persistAuthority_example]
  rw [resolve_crash target_example, files_empty, hpersisted,
    resolveIn_of_loadAuthority (of_persistAuthority persistAuthority_example).1, if_pos rfl] at h
  rcases hload : loadEventChain exampleAuthority examplePersisted with _ | event
  · rw [hload] at h
    cases h
  · exact absurd (fileExists_examplePersisted.symm.trans (exists_of_loadEventChain hload))
      (by decide)

/-- After both files have been written, calling again returns what they say. -/
theorem resolve_recovers_iff_afterOrigin :
    (resolve 1 examplePrepared "workspace:w" (encode exampleInput)
      (crash 1 examplePrepared "workspace:w" (encode exampleInput) ∅ .afterOrigin)).1 =
        .ok (project exampleAuthority exampleOrigin) := by
  have hiff := resolve_recovers_iff .afterOrigin resolve_example resolve_example
  simpa using hiff.mpr (.inl (by simp))

end Example

end Codeclew.Publication
