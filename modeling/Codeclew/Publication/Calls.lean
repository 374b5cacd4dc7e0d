import Codeclew.Publication.Append

/-!
# Calls on publications

A call works in the directory of one publication and leaves the others alone. Before it returns, it
has read the ledger back, so what it returns is what the next reader finds, whatever the clock said
(`loadEventChain_of_calls`).
-/

namespace Codeclew

namespace Publication

open Json Program FileTree

variable [Sha256]

/-! ## Calls -/

/-- A call with the reading of the clock at its time. -/
inductive Call where
  | resolve (now : ℕ) (prepared : Prepared) (workspaceId : String) (source : Bytes)
  | beginNext (now : ℕ) (workspaceId publicationId expectedLedgerHead : String)
  | recordPublished (now : ℕ)
      (workspaceId publicationId expectedLedgerHead alias_ candidateOid : String)
  | recordFailure (now : ℕ) (workspaceId publicationId expectedLedgerHead alias_ : String)
      (errorCode : ErrorCode)

namespace Call

def run : Call → Program FileTree ClewError WorkspacePublicationProjection
  | .resolve now prepared workspaceId source =>
    Publication.resolve now prepared workspaceId source
  | .beginNext now workspaceId publicationId expectedLedgerHead =>
    Publication.beginNext now workspaceId publicationId expectedLedgerHead
  | .recordPublished now workspaceId publicationId expectedLedgerHead alias_ candidateOid =>
    Publication.recordPublished now workspaceId publicationId expectedLedgerHead alias_ candidateOid
  | .recordFailure now workspaceId publicationId expectedLedgerHead alias_ errorCode =>
    Publication.recordFailure now workspaceId publicationId expectedLedgerHead alias_ errorCode

/-- The directory a call works in, and what it does there. -/
def plan : Call → Except ClewError (String × Files.Steps WorkspacePublicationProjection)
  | .resolve now prepared workspaceId source => do
    let input ← parseInput source
    let after ← prepared.retained workspaceId input.preparationId input.afterWorkspaceId
      input.afterWorkspaceAuthorityDigest
    let authority ← buildAuthority after input
    let path ← publicationDirectory workspaceId authority.publicationId
    return (path, resolveIn now authority (prepared.bound workspaceId authority.preparationId
      authority.afterWorkspaceId authority.afterWorkspaceAuthorityDigest))
  | .beginNext now workspaceId publicationId expectedLedgerHead => do
    let path ← publicationDirectory workspaceId publicationId
    return (path, transitionIn workspaceId publicationId expectedLedgerHead (startNext now))
  | .recordPublished now workspaceId publicationId expectedLedgerHead alias_ candidateOid => do
    let path ← publicationDirectory workspaceId publicationId
    return (path, transitionIn workspaceId publicationId expectedLedgerHead
      (complete now alias_ candidateOid))
  | .recordFailure now workspaceId publicationId expectedLedgerHead alias_ errorCode => do
    let path ← publicationDirectory workspaceId publicationId
    return (path, transitionIn workspaceId publicationId expectedLedgerHead
      (failActive now alias_ errorCode))

/-- The directory a call works in. -/
def directory (call : Call) : Except ClewError String := call.plan.map Prod.fst

/-- A call is its plan carried out. -/
theorem run_eq (call : Call) :
    call.run = lift call.plan >>= fun plan ↦ within plan.1 plan.2 := by
  have hpath {α : Type} (x : Except ClewError String) (f : String → Files.Steps α) :
      (lift x >>= fun path ↦ within path (f path))
        = (lift (x >>= fun path ↦ .ok (path, f path)) : Program FileTree ClewError _) >>=
          fun plan ↦ within plan.1 plan.2 := by
    rcases x with _ | _ <;> rfl
  cases call with
  | resolve now prepared workspaceId source =>
    rw [run, Publication.resolve, plan]
    rcases parseInput source with _ | input
    · rfl
    rcases hafter : prepared.retained workspaceId input.preparationId input.afterWorkspaceId
      input.afterWorkspaceAuthorityDigest with _ | after
    · rw [lift_ok_bind, ok_bind, hafter]
      rfl
    rcases hauthority : buildAuthority after input with _ | authority
    · rw [lift_ok_bind, ok_bind, hafter, lift_ok_bind, ok_bind, hauthority]
      rfl
    rw [lift_ok_bind, ok_bind, hafter, lift_ok_bind, ok_bind, hauthority, lift_ok_bind, ok_bind]
    exact hpath _ _
  | beginNext => exact hpath _ _
  | recordPublished => exact hpath _ _
  | recordFailure => exact hpath _ _

end Call

/-! ## Appending leaves the authority alone -/

variable {d d' : Directory}

theorem loadAuthority_congr (h : d["authority.json"]? = d'["authority.json"]?) :
    loadAuthority d = loadAuthority d' := by
  rw [loadAuthority, loadAuthority, Directory.readFile, Directory.readFile, Directory.openFile,
    Directory.openFile, h]

theorem keeps_appendEvent (event : WorkspacePublicationEvent) (d : Directory) :
    Keeps (Files.Grown "ledger.jsonl" d) (appendEvent event) := by
  refine Spec.bind (.lift fun _ ↦ id) fun hash ↦ Spec.pre ?_ fun _ h ↦ h.2
  refine Spec.bind (.lift fun _ ↦ id) fun bytes ↦ Spec.pre ?_ fun _ h ↦ h.2
  refine Spec.bind Files.keeps_openAppend fun length ↦ ?_
  refine Spec.bind (.require fun _ h _ ↦ h) fun _ ↦ Spec.pre ?_ fun _ h ↦ h.2
  exact Files.keeps_appendBytes _

/-! ## What a call returns can be read back -/

/-- Reading a publication gives `projection`. -/
def Reads (d : Directory) (projection : WorkspacePublicationProjection) : Prop :=
  ∃ authority event, loadAuthority d = .ok authority ∧ loadEventChain authority d = .ok event ∧
    projection = project authority event

variable {projection : WorkspacePublicationProjection}

theorem reads_of_transitionIn {workspaceId publicationId expectedLedgerHead : String}
    {build : Build} (h : transitionIn workspaceId publicationId expectedLedgerHead build d
      = (.ok projection, d')) : Reads d' projection := by
  obtain ⟨authority, hauthority, h⟩ := Files.inspect_bind_eq_ok.mp h
  obtain ⟨-, h⟩ := require_bind_eq_ok.mp h
  obtain ⟨current, hcurrent, h⟩ := Files.inspect_bind_eq_ok.mp h
  obtain ⟨-, h⟩ := require_bind_eq_ok.mp h
  obtain ⟨next, -, h⟩ := lift_bind_eq_ok.mp h
  split at h
  · obtain ⟨hprojection, rfl⟩ := Prod.mk.inj h
    exact ⟨authority, current, hauthority, hcurrent, (Except.ok.inj hprojection).symm⟩
  · obtain ⟨_, d₁, happend, h⟩ := bind_eq_ok.mp h
    obtain ⟨event, hevent, h⟩ := Files.inspect_bind_eq_ok.mp h
    obtain ⟨hprojection, rfl⟩ := Prod.mk.inj h
    have hgrown := (keeps_appendEvent next d).of_ok happend (.refl _ _)
    refine ⟨authority, event, ?_, hevent, (Except.ok.inj hprojection).symm⟩
    rw [← hauthority]
    exact loadAuthority_congr (hgrown.others _ (by decide))

variable {authority : WorkspacePublicationAuthority}

theorem loadAuthority_of_readFile {d : Directory} (hvalid : validateAuthority authority = .ok ())
    (hread : d.readFile "authority.json" maxWorkspacePublicationAuthorityBytes
      = .ok (encode authority)) : loadAuthority d = .ok authority := by
  rw [loadAuthority, hread, ok_bind, decode_encode (by decide)]
  simp [hvalid]

/-- A persisted authority is the one that is loaded, and nothing else is written. -/
theorem of_persistAuthority (h : persistAuthority authority d = (.ok (), d')) :
    loadAuthority d' = .ok authority ∧
      ∀ other, other ≠ "authority.json" → d'[other]? = d[other]? := by
  obtain ⟨_, hvalid, h⟩ := lift_bind_eq_ok.mp h
  obtain ⟨hsize, h⟩ := require_bind_eq_ok.mp h
  rcases hfile : d["authority.json"]? with _ | file
  · have hcreate : Files.atomicCreate "authority.json" (encode authority) d
        = (.ok true, d.insert "authority.json" ⟨encode authority, default⟩) := by
      rw [Files.atomicCreate, hfile]
    rw [bind_of_ok hcreate] at h
    obtain rfl := (Prod.mk.inj h).2
    refine ⟨loadAuthority_of_readFile hvalid (Directory.readFile_eq_ok_iff.mpr
      ⟨_, Std.ExtTreeMap.getElem?_insert_self, rfl, hsize⟩), fun other hne ↦ ?_⟩
    rw [Std.ExtTreeMap.getElem?_insert, if_neg (by simpa using hne.symm)]
  · have hcreate : Files.atomicCreate "authority.json" (encode authority) d = (.ok false, d) := by
      rw [Files.atomicCreate, hfile]
    rw [bind_of_ok hcreate, whenever, if_pos rfl] at h
    obtain ⟨existing, hread, h⟩ := Files.inspect_bind_eq_ok.mp h
    rw [require] at h
    split at h
    · next heq =>
      obtain rfl := (Prod.mk.inj h).2
      exact ⟨loadAuthority_of_readFile hvalid (hread.trans (by rw [heq])), fun _ _ ↦ rfl⟩
    · cases h

/-- A call that makes the transition to an event that may come next. -/
theorem Call.run_of_next {call : Call} {path : String} {build : Build} {tree : FileTree}
    {current next : WorkspacePublicationEvent} {hash : String} {bytes : Bytes}
    (hplan : call.plan = .ok (path, transitionIn authority.workspaceId authority.publicationId
      current.eventHash build))
    (hauthority : loadAuthority (files tree path) = .ok authority)
    (hcurrent : loadEventChain authority (files tree path) = .ok current)
    (hbuild : build authority current = .ok next)
    (hne : next ≠ current) (hsealed : Sealed authority { next with eventHash := hash })
    (hbytes : canonical { next with eventHash := hash } = .ok bytes) (hten : 10 ∉ bytes)
    (hsize : ((files tree path).bytesOf "ledger.jsonl").length + (bytes.length + 1)
      ≤ maxWorkspacePublicationLedgerBytes)
    (hvalid : validateTransition authority (some current) { next with eventHash := hash }
      = .ok ()) :
    ∃ tree', call.run tree = (.ok (project authority { next with eventHash := hash }), tree') ∧
      loadAuthority (files tree' path) = .ok authority ∧
      loadEventChain authority (files tree' path) = .ok { next with eventHash := hash } ∧
      (files tree' path).bytesOf "ledger.jsonl" =
        (files tree path).bytesOf "ledger.jsonl" ++ (bytes ++ [10]) := by
  obtain ⟨d', happend, hother, hledger⟩ :=
    appendEvent_apply ((eventHash_with next hash).symm.trans hsealed.hash) hbytes _ hsize
  have hload : loadEventChain authority d' = .ok { next with eventHash := hash } := by
    refine loadEventChain_of_append hcurrent hsealed hbytes hten hledger ?_ hvalid
    simpa [hledger] using hsize
  have hrun : transitionIn authority.workspaceId authority.publicationId current.eventHash build
      (files tree path) = (.ok (project authority { next with eventHash := hash }), d') := by
    rw [transitionIn, Files.inspect_bind_of_ok hauthority, require_bind, if_pos ⟨rfl, rfl⟩,
      Files.inspect_bind_of_ok hcurrent, require_bind, if_pos rfl, hbuild, lift_ok_bind,
      if_neg hne, bind_of_ok happend, Files.inspect_bind_of_ok hload]
    rfl
  have hfiles : files (Std.ExtTreeMap.insert tree path d') path = d' := by simp [files]
  refine ⟨Std.ExtTreeMap.insert tree path d', ?_, ?_⟩
  · rw [Call.run_eq, hplan, lift_ok_bind, within_apply]
    dsimp only
    rw [hrun]
  · rw [hfiles]
    exact ⟨(loadAuthority_congr (hother _ (by decide))).trans hauthority, hload, hledger⟩

variable {now : ℕ} {fresh : Except ClewError Unit}

/-- Resolving a publication that is there reads its ledger. -/
theorem resolveIn_of_loadAuthority {sought : WorkspacePublicationAuthority}
    (ha : loadAuthority d = .ok authority) :
    resolveIn now sought fresh d = (if authority = sought then
      (loadEventChain authority d).map (project authority)
      else .error (binding "workspace publication identity already has different authority"),
      d) := by
  have hpresent : Files.fileExists "authority.json" d = (.ok true, d) := by
    obtain ⟨bytes, hread, -⟩ := bind_eq_ok_iff.mp ha
    obtain ⟨file, hfile, -⟩ := Directory.readFile_eq_ok_iff.mp hread
    have hmem : "authority.json" ∈ d := by
      rw [Std.ExtTreeMap.mem_iff_isSome_getElem?, hfile]
      rfl
    rw [Files.fileExists, Files.inspect, Directory.fileExists,
      Std.ExtTreeMap.contains_iff_mem.mpr hmem]
  rw [resolveIn, bind_of_ok hpresent, if_pos rfl, Files.inspect_bind_of_ok ha, require_bind]
  split
  · rw [bind_apply, Files.inspect]
    rcases loadEventChain authority d with _ | _ <;> rfl
  · rfl

/-- Resolving leaves an authority and a ledger that can be read. For a publication that is new, it
writes the authority and, if there is no ledger, one with the first event. -/
theorem of_resolveIn (h : resolveIn now authority fresh d = (.ok projection, d')) :
    loadAuthority d' = .ok authority ∧
      (∃ event, loadEventChain authority d' = .ok event ∧ projection = project authority event) ∧
      (d.fileExists "authority.json" = false → fresh = .ok () ∧
        ∃ d₁, persistAuthority authority d = (.ok (), d₁) ∧
          whenever (d₁.fileExists "ledger.jsonl" = false)
            (appendEvent (originEvent now authority)) d₁ = (.ok (), d')) := by
  obtain ⟨present, hpresent, h⟩ := Files.inspect_bind_eq_ok.mp h
  obtain rfl := Except.ok.inj hpresent
  split at h
  · next hpresent =>
    obtain ⟨existing, hexisting, h⟩ := Files.inspect_bind_eq_ok.mp h
    obtain ⟨rfl, hrest⟩ := require_bind_eq_ok.mp h
    obtain ⟨current, hcurrent, hrest⟩ := Files.inspect_bind_eq_ok.mp hrest
    obtain ⟨hprojection, rfl⟩ := Prod.mk.inj hrest
    refine ⟨hexisting, ⟨current, hcurrent, (Except.ok.inj hprojection).symm⟩, fun hnew ↦ ?_⟩
    exact absurd (hpresent.symm.trans hnew) (by decide)
  · obtain ⟨_, hfresh, h⟩ := lift_bind_eq_ok.mp h
    obtain ⟨_, d₁, hpersist, h⟩ := bind_eq_ok.mp h
    obtain ⟨ledger, hledger, h⟩ := Files.inspect_bind_eq_ok.mp h
    obtain rfl := Except.ok.inj hledger
    obtain ⟨_, d₂, happend, h⟩ := bind_eq_ok.mp h
    obtain ⟨event, hevent, h⟩ := Files.inspect_bind_eq_ok.mp h
    obtain ⟨hprojection, rfl⟩ := Prod.mk.inj h
    have hkeeps : Keeps (Files.Grown "ledger.jsonl" d₁) (whenever
        (d₁.fileExists "ledger.jsonl" = false) (appendEvent (originEvent now authority))) :=
      .whenever (fun _ ↦ keeps_appendEvent _ d₁) fun _ _ ↦ id
    have hgrown := hkeeps.of_ok happend (.refl _ _)
    refine ⟨?_, ⟨event, hevent, (Except.ok.inj hprojection).symm⟩, fun _ ↦
      ⟨hfresh, d₁, hpersist, happend⟩⟩
    rw [← (of_persistAuthority hpersist).1]
    exact loadAuthority_congr (hgrown.others _ (by decide))

variable {path : String}

/-- A call resolves a publication or makes a transition in it, to no new event once everything is
published. -/
theorem Call.plan_cases {call : Call} {steps : Files.Steps WorkspacePublicationProjection}
    (h : call.plan = .ok (path, steps)) :
    (∃ now sought fresh, steps = resolveIn now sought fresh) ∨
      ∃ workspaceId publicationId head build,
        steps = transitionIn workspaceId publicationId head build ∧
        ∀ authority event next, event.status = .publishedAll →
          build authority event = .ok next → next = event := by
  cases call with
  | resolve =>
    obtain ⟨_, -, h⟩ := bind_eq_ok_iff.mp h
    obtain ⟨_, -, h⟩ := bind_eq_ok_iff.mp h
    obtain ⟨_, -, h⟩ := bind_eq_ok_iff.mp h
    obtain ⟨_, -, h⟩ := bind_eq_ok_iff.mp h
    obtain ⟨-, rfl⟩ := Prod.mk.inj (Except.ok.inj h)
    exact .inl ⟨_, _, _, rfl⟩
  | beginNext =>
    obtain ⟨_, -, h⟩ := bind_eq_ok_iff.mp h
    obtain ⟨-, rfl⟩ := Prod.mk.inj (Except.ok.inj h)
    refine .inr ⟨_, _, _, _, rfl, fun _ event next hall hnext ↦ ?_⟩
    simp only [startNext, hall, Except.ok.injEq] at hnext
    exact hnext.symm
  | recordPublished | recordFailure =>
    obtain ⟨_, -, h⟩ := bind_eq_ok_iff.mp h
    obtain ⟨-, rfl⟩ := Prod.mk.inj (Except.ok.inj h)
    refine .inr ⟨_, _, _, _, rfl, fun _ event next hall hnext ↦ ?_⟩
    simp [complete, failActive, hall] at hnext

/-- A call that returned, seen from its directory. -/
theorem Call.reads_of_run {call : Call} {tree tree' : FileTree}
    (h : call.run tree = (.ok projection, tree')) :
    ∃ path, call.directory = .ok path ∧ Reads (files tree' path) projection := by
  rw [Call.run_eq] at h
  obtain ⟨⟨path, steps⟩, hplan, h⟩ := lift_bind_eq_ok.mp h
  refine ⟨path, by rw [Call.directory, hplan]; rfl, ?_⟩
  obtain ⟨hfst, rfl⟩ := Prod.mk.inj ((within_apply _ _ _).symm.trans h)
  have hsteps : steps (files tree path) = (.ok projection,
      files (tree.insert path (steps (files tree path)).2) path) := Prod.ext hfst (by simp [files])
  rcases Call.plan_cases hplan with ⟨_, _, _, rfl⟩ | ⟨_, _, _, _, rfl, -⟩
  · obtain ⟨hauthority, ⟨event, hevent, heq⟩, -⟩ := of_resolveIn hsteps
    exact ⟨_, event, hauthority, hevent, heq⟩
  · exact reads_of_transitionIn hsteps

/-- A call leaves the other directories alone. -/
theorem Call.files_run_of_ne (call : Call) (h : call.directory ≠ .ok path) (tree : FileTree) :
    files (call.run tree).2 path = files tree path := by
  rw [Call.run_eq]
  rcases hplan : call.plan with _ | ⟨other, steps⟩
  · rfl
  · rw [lift_ok_bind]
    refine files_within_of_ne (fun heq ↦ h ?_) steps tree
    rw [Call.directory, hplan, heq]
    rfl

theorem files_collect_of_ne {calls : List Call} (h : ∀ call ∈ calls, call.directory ≠ .ok path)
    (tree : FileTree) :
    files (collect calls Call.run tree).2 path = files tree path := by
  have hkeeps : Keeps (fun t ↦ files t path = files tree path) (collect calls Call.run) := by
    refine Spec.collect fun call hcall ↦ Keeps.of_run fun t ht ↦ ?_
    exact (call.files_run_of_ne (h call hcall) t).trans ht
  exact hkeeps.run rfl

/-- However the clock goes: after calls that all returned, the ledger can be loaded in the directory
of each of them, and gives what the last call there has returned. -/
theorem loadEventChain_of_calls (earlier later : List Call) {call : Call} {tree tree' : FileTree}
    {projections : List WorkspacePublicationProjection}
    (h : collect (earlier ++ call :: later) Call.run tree = (.ok projections, tree'))
    (hlast : ∀ other ∈ later, other.directory ≠ call.directory) :
    ∃ path authority event, call.directory = .ok path ∧
      loadAuthority (files tree' path) = .ok authority ∧
      loadEventChain authority (files tree' path) = .ok event ∧
      projections[earlier.length]? = some (project authority event) := by
  obtain ⟨ps, u, qs, hearlier, hrest, rfl⟩ := collect_append_eq_ok.mp h
  obtain ⟨projection, v, hcall, hrest⟩ := bind_eq_ok.mp hrest
  obtain ⟨rs, t, hlater, hend⟩ := bind_eq_ok.mp hrest
  obtain ⟨hqs, rfl⟩ := Prod.mk.inj hend
  obtain ⟨path, hpath, authority, event, hauthority, hevent, rfl⟩ := Call.reads_of_run hcall
  have hsame : files t path = files v path := by
    have hfiles := files_collect_of_ne (fun other hother ↦ hpath ▸ hlast other hother) v
    rwa [hlater] at hfiles
  refine ⟨path, authority, event, hpath, hsame ▸ hauthority, hsame ▸ hevent, ?_⟩
  rw [← Except.ok.inj hqs, ← length_of_collect_eq_ok hearlier, List.getElem?_append_right le_rfl,
    Nat.sub_self]
  rfl

end Publication

namespace Publication

open FileTree Json Program

section Example

attribute [local instance] Sha256.standard

/-! ## A publication of two members -/

def exampleDigest : String := "sha256:" ++ String.ofList (List.replicate 64 '0')

def exampleOid (c : Char) : String := String.ofList (List.replicate 40 c)

def exampleMember (alias_ : String) (c : Char) : WorkspacePublicationMemberAuthority :=
  ⟨alias_, "session:" ++ alias_, "run:" ++ alias_, "refs/heads/main", exampleOid '0', exampleOid c,
    exampleDigest, false, []⟩

def exampleAuthority : WorkspacePublicationAuthority :=
  ⟨workspacePublicationAuthoritySchema,
    "workspace-publication:sha256:c92eb9225a483a1d01a4cf722437d10b906db9d3781f8b4b21382231ea044666",
    "sha256:7db9bca00103247a7254e82d249a646c0d1cbe3253362e9516562b75c093f0b2", "workspace:w",
    exampleDigest, exampleDigest, "preparation:p", "after:a", exampleDigest, "ROLL_FORWARD_ONLY",
    [exampleMember "api" '1', exampleMember "web" '2']⟩

def exampleOrigin : WorkspacePublicationEvent :=
  { originEvent 1 exampleAuthority with
    eventHash := "sha256:6169364bcc82f8d78c68ed553e8b1b93feff163ca98b20423dae4d29adba2447" }

def exampleDirectory : Directory :=
  (Directory.append ∅ "authority.json" (encode exampleAuthority)).append "ledger.jsonl"
    ((Format.toJson exampleOrigin).bytes ++ [10])

def examplePath : String :=
  "workspaces/w/publications/" ++ (stripPrefix "workspace-publication:sha256:"
    exampleAuthority.publicationId).getD ""

def exampleTree : FileTree := Std.ExtTreeMap.insert ∅ examplePath exampleDirectory

/-- The first member is begun. -/
def exampleCall : Call :=
  .beginNext 2 exampleAuthority.workspaceId exampleAuthority.publicationId exampleOrigin.eventHash

/-- What it appends. -/
def exampleNext : WorkspacePublicationEvent :=
  { nextEvent 2 exampleOrigin .publishing [] (some "api") none with
    eventHash := "sha256:260daf00818994297d13f87fcb1304b72ed807366fc150751c8fd980c8382b4a" }

/-- The first member is published. -/
def exampleReport : Call :=
  .recordPublished 5 exampleAuthority.workspaceId exampleAuthority.publicationId
    exampleNext.eventHash "api" (exampleOid '1')

def examplePublished : WorkspacePublicationEvent :=
  { nextEvent 5 exampleNext .partiallyPublished [⟨"api", exampleOid '1'⟩] none none with
    eventHash := "sha256:6a45dd1813ff1c23efa47c6f7418bdb41192ee6be15f92e82bba9baf9d9979b2" }

theorem loadAuthority_example : loadAuthority exampleDirectory = .ok exampleAuthority := by
  have hbytes : exampleDirectory.bytesOf "authority.json" = encode exampleAuthority := by
    rw [exampleDirectory, Directory.bytesOf, Directory.getElem?_append_of_ne (by decide),
      ← Directory.bytesOf, Directory.bytesOf_append]
    rfl
  have hne : encode exampleAuthority ≠ [] := bytes_ne_nil (Codec.valid_toJson _)
  have hsize : (encode exampleAuthority).length ≤ maxWorkspacePublicationAuthorityBytes := by
    decide +kernel
  refine loadAuthority_of_readFile (by decide +kernel) ?_
  rw [← hbytes] at hne hsize ⊢
  exact Directory.readFile_of_bytesOf hne hsize

theorem bytesOf_exampleDirectory : exampleDirectory.bytesOf "ledger.jsonl"
    = (Format.toJson exampleOrigin).bytes ++ [10] := by
  rw [exampleDirectory, Directory.bytesOf_append, Directory.bytesOf,
    Directory.getElem?_append_of_ne (by decide)]
  rfl

theorem loadEventChain_example {d : Directory}
    (hledger : d.bytesOf "ledger.jsonl" = (Format.toJson exampleOrigin).bytes ++ [10]) :
    loadEventChain exampleAuthority d = .ok exampleOrigin := by
  have hsealed : Sealed exampleAuthority exampleOrigin := ⟨rfl, rfl, rfl, by decide +kernel⟩
  have hsize : ((Format.toJson exampleOrigin).bytes ++ [10]).length
      ≤ maxWorkspacePublicationLedgerBytes := by decide +kernel
  exact loadEventChain_of_line hsealed (canonical_eq_ok_iff.mpr ⟨by decide, rfl⟩)
    (by decide +kernel)
    hledger (hledger ▸ hsize) (by decide)

theorem files_exampleTree : files exampleTree examplePath = exampleDirectory := by
  simp [files, exampleTree]

theorem publicationDirectory_example : publicationDirectory exampleAuthority.workspaceId
    exampleAuthority.publicationId = .ok examplePath := by decide

theorem plan_exampleCall : exampleCall.plan = .ok (examplePath, transitionIn
    exampleAuthority.workspaceId exampleAuthority.publicationId exampleOrigin.eventHash
    (startNext 2)) := by
  rw [exampleCall, Call.plan, publicationDirectory_example]
  rfl

theorem plan_exampleReport : exampleReport.plan = .ok (examplePath, transitionIn
    exampleAuthority.workspaceId exampleAuthority.publicationId exampleNext.eventHash
    (complete 5 "api" (exampleOid '1'))) := by
  rw [exampleReport, Call.plan, publicationDirectory_example]
  rfl

theorem run_exampleCall :
    ∃ tree, exampleCall.run exampleTree = (.ok (project exampleAuthority exampleNext), tree) ∧
      loadAuthority (files tree examplePath) = .ok exampleAuthority ∧
      loadEventChain exampleAuthority (files tree examplePath) = .ok exampleNext ∧
      (files tree examplePath).bytesOf "ledger.jsonl" =
        (Format.toJson exampleOrigin).bytes ++ [10] ++
          ((Format.toJson exampleNext).bytes ++ [10]) := by
  have hledger : (files exampleTree examplePath).bytesOf "ledger.jsonl" =
      (Format.toJson exampleOrigin).bytes ++ [10] := files_exampleTree ▸ bytesOf_exampleDirectory
  have hbuild : startNext 2 exampleAuthority exampleOrigin
      = .ok (nextEvent 2 exampleOrigin .publishing [] (some "api") none) := rfl
  have hne : nextEvent 2 exampleOrigin .publishing [] (some "api") none ≠ exampleOrigin :=
    fun h ↦ by cases congrArg WorkspacePublicationEvent.status h
  have hsealed : Sealed exampleAuthority exampleNext := ⟨rfl, rfl, rfl, by decide +kernel⟩
  have hbytes : canonical exampleNext = .ok (Format.toJson exampleNext).bytes :=
    canonical_eq_ok_iff.mpr ⟨by decide, rfl⟩
  have hsize : ((Format.toJson exampleOrigin).bytes ++ [10]).length +
      ((Format.toJson exampleNext).bytes.length + 1) ≤ maxWorkspacePublicationLedgerBytes := by
    decide +kernel
  have hvalid : validateTransition exampleAuthority (some exampleOrigin) exampleNext = .ok () := by
    decide
  rw [← hledger] at hsize ⊢
  exact Call.run_of_next plan_exampleCall (files_exampleTree ▸ loadAuthority_example)
    (loadEventChain_example hledger) hbuild hne hsealed hbytes (by decide +kernel) hsize hvalid

/-- The first member is begun and published, and the clock goes on between the calls. -/
theorem loadEventChain_of_recordPublished : ∃ projections tree',
    collect [exampleCall, exampleReport] Call.run exampleTree = (.ok projections, tree') ∧
    ∃ path authority event, exampleReport.directory = .ok path ∧
      loadAuthority (files tree' path) = .ok authority ∧
      loadEventChain authority (files tree' path) = .ok event ∧
      projections[1]? = some (project authority event) := by
  obtain ⟨tree, hcall, hauthority, hevent, hledger⟩ := run_exampleCall
  have hbuild : complete 5 "api" (exampleOid '1') exampleAuthority exampleNext
      = .ok (nextEvent 5 exampleNext .partiallyPublished [⟨"api", exampleOid '1'⟩] none none) := rfl
  have hne : nextEvent 5 exampleNext .partiallyPublished [⟨"api", exampleOid '1'⟩] none none ≠
      exampleNext := fun h ↦ by cases congrArg WorkspacePublicationEvent.status h
  have hsealed : Sealed exampleAuthority examplePublished := ⟨rfl, rfl, rfl, by decide +kernel⟩
  have hbytes : canonical examplePublished = .ok (Format.toJson examplePublished).bytes :=
    canonical_eq_ok_iff.mpr ⟨by decide, rfl⟩
  have hsize : ((Format.toJson exampleOrigin).bytes ++ [10] ++
      ((Format.toJson exampleNext).bytes ++ [10])).length +
      ((Format.toJson examplePublished).bytes.length + 1)
        ≤ maxWorkspacePublicationLedgerBytes := by
    decide +kernel
  have hvalid : validateTransition exampleAuthority (some exampleNext) examplePublished =
      .ok () := by
    decide
  rw [← hledger] at hsize
  obtain ⟨tree', hreport, -⟩ := Call.run_of_next plan_exampleReport hauthority hevent hbuild hne
    hsealed hbytes (by decide +kernel) hsize hvalid
  have hcollect : collect [exampleCall, exampleReport] Call.run exampleTree =
      (.ok [project exampleAuthority exampleNext, project exampleAuthority examplePublished],
        tree') := by
    rw [collect, bind_of_ok hcall, collect, bind_of_ok (bind_of_ok hreport _)]
    rfl
  exact ⟨_, tree', hcollect, loadEventChain_of_calls [exampleCall] [] hcollect (by simp)⟩

end Example

end Publication

end Codeclew
