import Codeclew.Association
import Codeclew.Publication.Calls

/-!
# Members are published in order

The order of the members is sealed in the authority. Whatever is called, with a fresh head of the
ledger or a stale one, an accepted ledger says that a prefix of the members is completed, each with
its sealed commit, and that the active member is the one after them; the prefix only grows, and when
it is everything the ledger is closed.
-/

namespace Codeclew

open List

namespace Publication

open Json Program FileTree

/-- A member as it is recorded when it is published. -/
def sealedMember (member : WorkspacePublicationMemberAuthority) : PublishedWorkspaceMember :=
  ⟨member.alias_, member.candidateOid⟩

/-! ## One event -/

/-- An event in the sealed order. -/
structure InOrder (authority : WorkspacePublicationAuthority) (event : WorkspacePublicationEvent) :
    Prop where
  completed : event.completed <+: authority.members.map sealedMember
  active : event.status = .publishing → ∃ member,
    authority.members[event.completed.length]? = some member ∧
      event.activeAlias = some member.alias_
  publishedAll : event.status = .publishedAll ↔
    event.completed = authority.members.map sealedMember

variable {authority : WorkspacePublicationAuthority}

theorem prefix_completed {completed : List PublishedWorkspaceMember}
    (hlength : completed.length ≤ authority.members.length)
    (h : completed.zipIdx.any (fun member ↦ authority.members[member.2]?.all fun expected ↦
      expected.alias_ ≠ member.1.alias_ ∨ expected.candidateOid ≠ member.1.candidateOid) = false) :
    completed <+: authority.members.map sealedMember := by
  refine prefix_iff_getElem.mpr ⟨by simpa using hlength, fun i hi ↦ ?_⟩
  have hmem : (completed[i], i) ∈ completed.zipIdx := by
    simp [mem_zipIdx_iff_getElem?]
  have hcheck := any_eq_false.mp h _ hmem
  have hbound : i < authority.members.length := hi.trans_le hlength
  simp only [List.getElem?_eq_getElem hbound, Option.all_some, decide_eq_true_eq, not_or,
    not_not] at hcheck
  rw [getElem_map, sealedMember, hcheck.1, hcheck.2]

/-- What the checks of an event by itself and of its status give. -/
theorem of_validateTransition {previous : Option WorkspacePublicationEvent}
    {current : WorkspacePublicationEvent}
    (h : validateTransition authority previous current = .ok ()) :
    current.completed <+: authority.members.map sealedMember ∧
      match previous with
      | none => isOrigin current = true
      | some previous => follows authority previous current = true := by
  unfold validateTransition at h
  split at h
  · cases h
  · next hchecks =>
    rw [not_or, not_or, Bool.not_eq_true] at hchecks
    refine ⟨prefix_completed (not_lt.mp hchecks.2.1) hchecks.2.2, ?_⟩
    rcases previous with _ | previous
    · dsimp only at h ⊢
      split at h
      · assumption
      · cases h
    · dsimp only at h ⊢
      split at h
      · cases h
      · split at h
        · assumption
        · cases h

variable {previous current : WorkspacePublicationEvent}

/-- What a status says about the event before it. -/
theorem of_follows (h : follows authority previous current = true) :
    previous.status ≠ .publishedAll ∧ current.status ≠ .preparedAll ∧
      ((current.status = .publishing ∧ previous.status ≠ .publishing ∧
          current.completed = previous.completed ∧
          current.activeAlias = authority.members[previous.completed.length]?.map (·.alias_)) ∨
        (current.status = .recoveryRequired ∧ previous.status = .publishing ∧
          current.completed = previous.completed) ∨
        (current.status ≠ .publishing ∧ previous.completed <+: current.completed ∧
          (current.status = .publishedAll ↔
            current.completed.length = authority.members.length))) := by
  -- completing a member, and with the last one the whole
  have hcomplete : ∀ {all : Bool}, (decide (previous.status = .publishing) &&
      decide (current.completed.length = previous.completed.length + 1) &&
      decide (current.completed.take previous.completed.length = previous.completed) &&
      current.completed.getLast?.any (fun member ↦ some member.alias_ = previous.activeAlias) &&
      current.activeAlias.isNone && current.lastErrorCode.isNone &&
      decide (all = decide (current.completed.length = authority.members.length))) = true →
      previous.status = .publishing ∧ previous.completed <+: current.completed ∧
        (all = true ↔ current.completed.length = authority.members.length) := by
    intro all hall
    simp only [Bool.and_eq_true, decide_eq_true_eq] at hall
    obtain ⟨⟨⟨⟨⟨⟨hprevious, -⟩, htake⟩, -⟩, -⟩, -⟩, rfl⟩ := hall
    refine ⟨hprevious, ?_, by simp⟩
    rw [← htake]
    exact take_prefix _ _
  rw [follows] at h
  rcases hstatus : current.status <;> simp only [hstatus] at h
  · cases h
  · simp only [Bool.and_eq_true, Bool.or_eq_true, decide_eq_true_eq] at h
    obtain ⟨⟨⟨hprevious, hcompleted⟩, hactive⟩, -⟩ := h
    refine ⟨?_, nofun, .inl ⟨rfl, ?_, hcompleted, hactive⟩⟩
    · rintro heq
      simp [heq] at hprevious
    · rintro heq
      simp [heq] at hprevious
  · obtain ⟨hprevious, hinit, hall⟩ := hcomplete h
    refine ⟨by simp [hprevious], nofun, .inr (.inr ⟨nofun, hinit, ?_⟩)⟩
    simpa using hall
  · simp only [Bool.and_eq_true, decide_eq_true_eq] at h
    obtain ⟨⟨⟨hprevious, hcompleted⟩, -⟩, -⟩ := h
    exact ⟨by simp [hprevious], nofun, .inr (.inl ⟨rfl, hprevious, hcompleted⟩)⟩
  · obtain ⟨hprevious, hinit, hall⟩ := hcomplete h
    refine ⟨by simp [hprevious], nofun, .inr (.inr ⟨nofun, hinit, ?_⟩)⟩
    simpa using hall

theorem InOrder.of_isOrigin {current : WorkspacePublicationEvent} (h : isOrigin current = true)
    (hmembers : authority.members ≠ []) : InOrder authority current := by
  simp only [isOrigin, Bool.and_eq_true, decide_eq_true_eq, List.isEmpty_iff] at h
  obtain ⟨⟨⟨⟨⟨-, -⟩, hstatus⟩, hcompleted⟩, -⟩, -⟩ := h
  refine ⟨by simp [hcompleted], by simp [hstatus], ?_⟩
  simpa [hstatus, hcompleted] using hmembers

variable {event : WorkspacePublicationEvent}

/-- Not everything is completed, so there is a next member. -/
theorem InOrder.exists_next (h : InOrder authority event) (hstatus : event.status ≠ .publishedAll) :
    ∃ member, authority.members[event.completed.length]? = some member := by
  have hlength : event.completed.length < authority.members.length := by
    refine lt_of_le_of_ne (by simpa using h.completed.length_le) fun heq ↦ hstatus ?_
    exact h.publishedAll.mpr (h.completed.eq_of_length (by simpa using heq))
  exact ⟨_, List.getElem?_eq_getElem hlength⟩

/-- The order is kept by every event that may follow, and what was completed stays so. -/
theorem InOrder.of_follows (hprevious : InOrder authority previous)
    (hcompleted : current.completed <+: authority.members.map sealedMember)
    (h : follows authority previous current = true) :
    InOrder authority current ∧ previous.completed <+: current.completed := by
  obtain ⟨hopen, -, ⟨hstatus, -, heq, hactive⟩ | ⟨hstatus, -, heq⟩ | ⟨hnot, hinit, hall⟩⟩ :=
    Publication.of_follows h
  · obtain ⟨member, hmember⟩ := hprevious.exists_next hopen
    refine ⟨⟨hcompleted, fun _ ↦ ⟨member, heq ▸ hmember, ?_⟩, ?_⟩, heq ▸ prefix_rfl⟩
    · rw [hactive, hmember]
      rfl
    · rw [heq, ← hprevious.publishedAll, hstatus]
      exact ⟨nofun, fun hall ↦ absurd hall hopen⟩
  · refine ⟨⟨hcompleted, by simp [hstatus], ?_⟩, heq ▸ prefix_rfl⟩
    rw [heq, ← hprevious.publishedAll, hstatus]
    exact ⟨nofun, fun hall ↦ absurd hall hopen⟩
  · refine ⟨⟨hcompleted, fun hpublishing ↦ absurd hpublishing hnot, ?_⟩, hinit⟩
    rw [hall]
    exact ⟨fun hlength ↦ hcompleted.eq_of_length (by simpa using hlength),
      fun heq ↦ by simpa using congrArg List.length heq⟩

/-! ## A chain of events -/

variable [Sha256]

theorem InOrder.of_loadEvents (hmembers : authority.members ≠ []) {lines : List Bytes}
    {previous : Option WorkspacePublicationEvent} {last : WorkspacePublicationEvent}
    (hprevious : ∀ event ∈ previous, InOrder authority event)
    (h : loadEvents authority lines previous = .ok (some last)) :
    InOrder authority last ∧ ∀ event ∈ previous, event.completed <+: last.completed := by
  induction lines generalizing previous with
  | nil =>
    obtain rfl : previous = some last := Except.ok.inj h
    exact ⟨hprevious last rfl, by simp⟩
  | cons line lines ih =>
    obtain ⟨event, -, hchecked⟩ := bind_eq_ok_iff.mp h
    obtain ⟨_, hvalid, hrest⟩ := bind_eq_ok_iff.mp hchecked
    obtain ⟨hcompleted, hcase⟩ := of_validateTransition hvalid
    rcases previous with _ | previous
    · obtain ⟨hlast, -⟩ := ih (by simpa using InOrder.of_isOrigin hcase hmembers) hrest
      exact ⟨hlast, nofun⟩
    · obtain ⟨hevent, hinit⟩ := (hprevious previous rfl).of_follows hcompleted hcase
      obtain ⟨hlast, hgrown⟩ := ih (by simpa using hevent) hrest
      refine ⟨hlast, fun _ hmem ↦ ?_⟩
      obtain rfl := Option.mem_some_iff.mp hmem
      exact hinit.trans (hgrown event rfl)

variable {d : Directory}

theorem two_le_of_loadAuthority (h : loadAuthority d = .ok authority) :
    2 ≤ authority.members.length ∧ (authority.members.map (·.alias_)).Nodup := by
  obtain ⟨bytes, -, h⟩ := bind_eq_ok_iff.mp h
  split at h
  · cases h
  · split at h
    · cases h
    · obtain ⟨_, hvalid, h⟩ := bind_eq_ok_iff.mp h
      obtain rfl := Except.ok.inj h
      rw [validateAuthority] at hvalid
      split at hvalid
      · next hall => exact ⟨hall.2.2.1, hall.2.2.2.2.2.2.2.2.2.1⟩
      · cases hvalid

theorem InOrder.of_loadEventChain (hmembers : authority.members ≠ [])
    (h : loadEventChain authority d = .ok event) :
    InOrder authority event := by
  obtain ⟨bytes, -, -, hload⟩ := loadEventChain_eq_ok_iff.mp h
  exact (InOrder.of_loadEvents hmembers (by simp) hload).1

/-- A ledger that has grown and still loads has completed more, or as much. -/
theorem completed_prefix_of_grown {d d' : Directory} {event event' : WorkspacePublicationEvent}
    (hmembers : authority.members ≠ []) (hgrown : Files.Grown "ledger.jsonl" d d')
    (h : loadEventChain authority d = .ok event) (h' : loadEventChain authority d' = .ok event') :
    event.completed <+: event'.completed := by
  have hevent := InOrder.of_loadEventChain hmembers h
  obtain ⟨bytes, hread, hlast, hload⟩ := loadEventChain_eq_ok_iff.mp h
  obtain ⟨bytes', hread', -, hload'⟩ := loadEventChain_eq_ok_iff.mp h'
  obtain ⟨more, hmore⟩ := hgrown.bytes
  rw [Directory.bytesOf_of_readFile hread, Directory.bytesOf_of_readFile hread'] at hmore
  rw [← hmore, lines_append hlast, loadEvents_append, hload, ok_bind] at hload'
  exact (InOrder.of_loadEvents hmembers (by simpa using hevent) hload').2 event rfl

/-! ## Calls -/

theorem keeps_transitionIn (workspaceId publicationId expectedLedgerHead : String) (build : Build)
    (d : Directory) : Keeps (Files.Grown "ledger.jsonl" d)
      (transitionIn workspaceId publicationId expectedLedgerHead build) := by
  refine Spec.bind (Files.keeps_inspect _) fun authority ↦ ?_
  refine Spec.bind (.require fun _ h _ ↦ h) fun _ ↦ Spec.pre ?_ fun _ h ↦ h.2
  refine Spec.bind (Files.keeps_inspect _) fun current ↦ ?_
  refine Spec.bind (.require fun _ h _ ↦ h) fun _ ↦ Spec.pre ?_ fun _ h ↦ h.2
  refine Spec.bind (.lift fun _ ↦ id) fun next ↦ Spec.pre ?_ fun _ h ↦ h.2
  split
  · exact .pure fun _ ↦ id
  · exact Spec.bind (keeps_appendEvent next d) fun _ ↦
      Spec.bind (Files.keeps_inspect _) fun _ ↦ .pure fun _ ↦ id

/-- A transition that has nothing to do leaves everything as it is. -/
theorem transitionIn_snd_of_idle {workspaceId publicationId expectedLedgerHead : String}
    {build : Build} (ha : loadAuthority d = .ok authority)
    (he : loadEventChain authority d = .ok event)
    (hidle : ∀ next, build authority event = .ok next → next = event) :
    (transitionIn workspaceId publicationId expectedLedgerHead build d).2 = d := by
  rw [transitionIn, Files.inspect_bind_of_ok ha, require_bind]
  split
  · rw [Files.inspect_bind_of_ok he, require_bind]
    split
    · rcases hbuild : build authority event with _ | next
      · rfl
      · rw [lift_ok_bind, if_pos (hidle next hbuild)]
        rfl
    · rfl
  · rfl

theorem Call.steps_of_loadAuthority {call : Call} {path : String}
    {steps : Files.Steps WorkspacePublicationProjection} (hplan : call.plan = .ok (path, steps))
    (ha : loadAuthority d = .ok authority) :
    Files.Grown "ledger.jsonl" d (steps d).2 ∧
      ∀ event, loadEventChain authority d = .ok event → event.status = .publishedAll →
        (steps d).2 = d := by
  rcases Call.plan_cases hplan with ⟨_, _, _, rfl⟩ | ⟨_, _, _, _, rfl, hidle⟩
  · rw [resolveIn_of_loadAuthority ha]
    exact ⟨.refl _ _, fun _ _ _ ↦ rfl⟩
  · exact ⟨(keeps_transitionIn _ _ _ _ d).run (.refl _ _), fun event he hstatus ↦
      transitionIn_snd_of_idle ha he fun next ↦ hidle _ event next hstatus⟩

/-! ## Runs of calls -/

/-- The directories after calls that succeeded or failed. -/
def afterCalls (calls : List Call) (tree : FileTree) : FileTree :=
  calls.foldl (fun tree call ↦ (call.run tree).2) tree

theorem afterCalls_append (calls more : List Call) (tree : FileTree) :
    afterCalls (calls ++ more) tree = afterCalls more (afterCalls calls tree) :=
  foldl_append

variable {path : String}

variable {tree : FileTree}

/-- What a call makes of a publication: its authority stays, its ledger grows, and not even that
once everything is published. -/
theorem Call.files_run (call : Call) (ha : loadAuthority (files tree path) = .ok authority) :
    Files.Grown "ledger.jsonl" (files tree path) (files (call.run tree).2 path) ∧
      ∀ event, loadEventChain authority (files tree path) = .ok event →
        event.status = .publishedAll → files (call.run tree).2 path = files tree path := by
  by_cases hpath : call.directory = .ok path
  · rw [Call.run_eq]
    rcases hplan : call.plan with _ | ⟨other, steps⟩
    · exact ⟨.refl _ _, fun _ _ _ ↦ rfl⟩
    · obtain rfl : other = path := by
        rw [Call.directory, hplan] at hpath
        exact Except.ok.inj hpath
      rw [lift_ok_bind, files_within_self]
      exact Call.steps_of_loadAuthority hplan ha
  · rw [call.files_run_of_ne hpath]
    exact ⟨.refl _ _, fun _ _ _ ↦ rfl⟩

theorem loadAuthority_of_grown {d d' : Directory} (h : Files.Grown "ledger.jsonl" d d')
    (ha : loadAuthority d = .ok authority) : loadAuthority d' = .ok authority :=
  (loadAuthority_congr (h.others _ (by decide))).trans ha

theorem grown_afterCalls (calls : List Call)
    (ha : loadAuthority (files tree path) = .ok authority) :
    Files.Grown "ledger.jsonl" (files tree path) (files (afterCalls calls tree) path) := by
  induction calls generalizing tree with
  | nil => exact .refl _ _
  | cons call calls ih =>
    have hcall := (call.files_run ha).1
    exact hcall.trans (ih (loadAuthority_of_grown hcall ha))

theorem afterCalls_of_publishedAll (calls : List Call)
    (ha : loadAuthority (files tree path) = .ok authority)
    (he : loadEventChain authority (files tree path) = .ok event)
    (hstatus : event.status = .publishedAll) :
    files (afterCalls calls tree) path = files tree path := by
  induction calls generalizing tree with
  | nil => rfl
  | cons call calls ih =>
    have hsame := (call.files_run ha).2 event he hstatus
    exact (ih (hsame ▸ ha) (hsame ▸ he)).trans hsame

omit [Sha256] in
theorem InOrder.nodup (h : InOrder authority event)
    (hnodup : (authority.members.map (·.alias_)).Nodup) :
    (event.completed.map (·.alias_)).Nodup := by
  refine List.Nodup.sublist (h.completed.map _).sublist ?_
  rw [map_map]
  exact hnodup

/-- Whatever is called, in whatever order and with whatever expected heads: the completed members
are a prefix of the sealed ones and the active one is the next; nobody is published twice or with
two commits, and nobody is dropped; everything is published exactly if everybody is completed, and
then the ledger takes no more events. -/
theorem published_in_sealed_order {tree : FileTree}
    (ha : loadAuthority (files tree path) = .ok authority) (calls more : List Call)
    {projection : WorkspacePublicationProjection}
    (h : Reads (files (afterCalls calls tree) path) projection) :
    projection.completed <+: authority.members.map sealedMember ∧
      (projection.status = .publishing → ∃ member,
        authority.members[projection.completed.length]? = some member ∧
          projection.activeAlias = some member.alias_) ∧
      (projection.completed.map (·.alias_)).Nodup ∧
      (projection.status = .publishedAll ↔
        projection.completed = authority.members.map sealedMember) ∧
      (∀ later, Reads (files (afterCalls (calls ++ more) tree) path) later →
        projection.completed <+: later.completed ∧
          ∀ member ∈ projection.completed, ∀ member' ∈ later.completed,
            member.alias_ = member'.alias_ → member = member') ∧
      (projection.status = .publishedAll →
        files (afterCalls (calls ++ more) tree) path = files (afterCalls calls tree) path) := by
  obtain ⟨hlength, hnodup⟩ := two_le_of_loadAuthority ha
  have hmembers : authority.members ≠ [] := by
    rintro hnil
    simp [hnil] at hlength
  have hearlier := loadAuthority_of_grown (grown_afterCalls calls ha) ha
  obtain ⟨_, event, ha', he, rfl⟩ := h
  obtain rfl := Except.ok.inj (hearlier.symm.trans ha')
  have horder := InOrder.of_loadEventChain hmembers he
  refine ⟨horder.completed, horder.active, horder.nodup hnodup, horder.publishedAll, ?_, ?_⟩
  · rintro _ ⟨_, event', ha'', he', rfl⟩
    rw [afterCalls_append] at ha'' he'
    have hgrown := grown_afterCalls more hearlier
    obtain rfl := Except.ok.inj ((loadAuthority_of_grown hgrown hearlier).symm.trans ha'')
    have hinit := completed_prefix_of_grown hmembers hgrown he he'
    refine ⟨hinit, fun member hmember member' hmember' halias ↦ ?_⟩
    have hnodup' := (InOrder.of_loadEventChain hmembers he').nodup hnodup
    exact inj_on_of_nodup_map hnodup' (hinit.subset hmember) hmember' halias
  · intro hstatus
    rw [afterCalls_append]
    exact afterCalls_of_publishedAll more hearlier he hstatus

/-! ## The next member -/

def okOrCorrupt {α : Type} (message : String) : Option α → Except ClewError α
  | none => .error (corrupt message)
  | some a => .ok a

/-- The member to publish now; none if all are published. -/
def activeMember (authority : WorkspacePublicationAuthority)
    (projection : WorkspacePublicationProjection) :
    Except ClewError (Option WorkspacePublicationMemberAuthority) :=
  if projection.publicationId ≠ authority.publicationId ∨
      projection.authorityDigest ≠ authority.authorityDigest then
    .error (binding "publication projection differs from authority")
  else if projection.status = .publishedAll then .ok none
  else do
    let alias_ ← (if projection.status = .publishing then
      okOrCorrupt "publishing projection has no active member" projection.activeAlias
    else okOrCorrupt "publication has no remaining member"
      (authority.members[projection.completed.length]?.map (·.alias_)))
    okOrCorrupt "publication active member is unknown"
      ((Association.find (·.alias_) alias_ authority.members).map some)

/-- Whatever is called, the member to publish now is the one after the completed ones, and there is
one until everything is published. -/
theorem activeMember_afterCalls (ha : loadAuthority (files tree path) = .ok authority)
    (calls : List Call) {projection : WorkspacePublicationProjection}
    (h : Reads (files (afterCalls calls tree) path) projection) :
    activeMember authority projection = .ok authority.members[projection.completed.length]? ∧
      (authority.members[projection.completed.length]? = none ↔
        projection.status = .publishedAll) := by
  obtain ⟨hlength, hnodup⟩ := two_le_of_loadAuthority ha
  obtain ⟨_, event, ha', he, rfl⟩ := h
  obtain rfl := Except.ok.inj
    ((loadAuthority_of_grown (grown_afterCalls calls ha) ha).symm.trans ha')
  have horder := InOrder.of_loadEventChain (ne_nil_of_length_pos (by omega)) he
  simp only [activeMember, project]
  by_cases hall : event.status = .publishedAll
  · simp [hall, horder.publishedAll.mp hall]
  · obtain ⟨next, hnext⟩ := horder.exists_next hall
    -- the aliases are distinct, so the search by alias finds the member itself
    have hfind := (Association.find_eq_some_iff hnodup).mpr ⟨mem_of_getElem? hnext, rfl⟩
    by_cases hstatus : event.status = .publishing
    · obtain ⟨_, hmember, hactive⟩ := horder.active hstatus
      obtain rfl := Option.some.inj (hnext.symm.trans hmember)
      simp [hstatus, hactive, hnext, okOrCorrupt, ok_bind, hfind]
    · simp [hall, hstatus, hnext, okOrCorrupt, ok_bind, hfind]

end Publication

namespace Publication

open FileTree

section Example

attribute [local instance] Sha256.standard

theorem loadAuthority_exampleTree :
    loadAuthority (files exampleTree examplePath) = .ok exampleAuthority :=
  files_exampleTree ▸ loadAuthority_example

theorem reads_exampleCall : Reads (files (afterCalls [exampleCall] exampleTree) examplePath)
    (project exampleAuthority exampleNext) := by
  obtain ⟨tree, hrun, hauthority, hevent, -⟩ := run_exampleCall
  have hafter : afterCalls [exampleCall] exampleTree = tree := by
    rw [afterCalls, List.foldl, hrun]
    rfl
  rw [hafter]
  exact ⟨_, _, hauthority, hevent, rfl⟩

/-- The first of two members is begun, twice and both times with the head before it. -/
theorem published_in_sealed_order_example : ∃ projection,
    loadAuthority (files exampleTree examplePath) = .ok exampleAuthority ∧
      Reads (files (afterCalls [exampleCall] exampleTree) examplePath) projection ∧
      projection.completed <+: exampleAuthority.members.map sealedMember ∧
      ∀ later, Reads (files (afterCalls [exampleCall, exampleCall] exampleTree) examplePath) later →
        projection.completed <+: later.completed := by
  have horder := published_in_sealed_order loadAuthority_exampleTree [exampleCall] [exampleCall]
    reads_exampleCall
  exact ⟨_, loadAuthority_exampleTree, reads_exampleCall, horder.1,
    fun later hlater ↦ (horder.2.2.2.2.1 later hlater).1⟩

/-- The first member is begun, and is the one to publish. -/
theorem activeMember_example :
    Reads (files (afterCalls [exampleCall] exampleTree) examplePath)
      (project exampleAuthority exampleNext) ∧
    activeMember exampleAuthority (project exampleAuthority exampleNext)
      = .ok exampleAuthority.members[0]? :=
  ⟨reads_exampleCall, (activeMember_afterCalls loadAuthority_exampleTree [exampleCall]
    reads_exampleCall).1⟩

end Example

end Publication

end Codeclew
