import Codeclew.Documentation.Updates
import Codeclew.Latest

/-!
# The order in which updates arrive

The targets of the coordinator do not depend on how events are submitted. A run is any number of
calls of `enqueue`, each with a batch of its own and cut off after any number of writes.

The invariant of a run (`Coordinated`) ties the files to the set of events that the targets account
for: the targets are the latest of that set. A call that is cut off before the targets are written
leaves the set as it was, and any other call adds its batch to it. Nothing else is needed, because
what is latest does not depend on an order.
-/

namespace Codeclew.Updates

open Json Std Latest List Program ExtTreeMap

/-! ## Sizes

What is written can be read: the documents are far below the bound on records. -/

section Sizes

theorem utf8Size_of_isAlphanum {c : Char} (h : c.isAlphanum = true) : c.utf8Size = 1 := by
  have hle : c ≤ 'z' := by
    simp only [Char.isAlphanum, Char.isAlpha, Char.isUpper, Char.isLower, Char.isDigit,
      Bool.or_eq_true, Bool.and_eq_true, decide_eq_true_eq] at h
    rcases h with (⟨-, h⟩ | ⟨-, h⟩) | ⟨-, h⟩
    · exact UInt32.le_trans h (by decide)
    · exact h
    · exact UInt32.le_trans h (by decide)
  exact utf8Size_of_le hle (by decide)

theorem utf8Length_of_validId {id : String} (h : Agent.validId id = true) :
    utf8Length (chars id) ≤ 100 := by
  simp only [Agent.validId, Bool.and_eq_true, decide_eq_true_eq, all_eq_true, Bool.or_eq_true,
    beq_iff_eq] at h
  obtain ⟨⟨hlength, -⟩, hchars⟩ := h
  rw [utf8Length_of_ascii]
  · exact hlength
  · intro c hc
    obtain (halpha | rfl) | rfl := hchars c hc
    · exact utf8Size_of_isAlphanum halpha
    · rfl
    · rfl

theorem utf8Length_of_reference {s : String} (h : reference s = true) :
    utf8Length (chars s) ≤ 256 := by
  simp only [reference, Bool.and_eq_true, decide_eq_true_eq] at h
  exact h.1.1.2

theorem size_event_le {e : Event} (h : validate e = .ok ()) : e.json.size ≤ 16384 := by
  obtain ⟨hschema, hid, hservice, hrepository, href, hrevision, -, htag⟩ := ensure_eq_ok_iff.mp h
  have hids : ∀ {id : String}, Agent.validId id = true → stringSize id ≤ 1202 := by
    intro id hid
    have hlength := utf8Length_of_validId hid
    have hle := stringSize_le id
    omega
  have hrefs : ∀ {s : String}, reference s = true → stringSize s ≤ 3074 := by
    intro s hs
    have hlength := utf8Length_of_reference hs
    have hle := stringSize_le s
    omega
  have htagSize : ((e.tag.map Json.str).getD .null).size ≤ 3074 := by
    rcases hsome : e.tag with _ | tag
    · exact (show Json.null.size = 4 from rfl).trans_le (by norm_num)
    · rw [Option.map_some, Option.getD_some, size_str]
      exact hrefs (htag tag hsome).1
  have hrevisionSize : stringSize e.revision ≤ 482 := by
    have hlength := utf8Length_of_isLowerHex hrevision
    have hle := stringSize_le e.revision
    omega
  have hschemaSize : stringSize e.schema = 41 := by
    rw [hschema]
    decide
  have hnames : stringSize "id" = 4 ∧ stringSize "repositoryId" = 14 ∧ stringSize "revision" = 10 ∧
      stringSize "schema" = 8 ∧ stringSize "sequence" = 10 ∧ stringSize "service" = 9 ∧
      stringSize "sourceRef" = 11 ∧ stringSize "tag" = 5 := by decide
  obtain ⟨hn1, hn2, hn3, hn4, hn5, hn6, hn7, hn8⟩ := hnames
  have hidSize := hids hid
  have hserviceSize := hids hservice
  have hrepositorySize := hids hrepository
  have hrefSize := hrefs href
  have hsequenceSize := size_toNat_le e.sequence
  simp only [Event.json, size_obj, map_cons, map_nil, sum_cons, sum_nil,
    length_cons, length_nil, size_str, hn1, hn2, hn3, hn4, hn5, hn6, hn7, hn8, hschemaSize]
  omega

theorem size_state_le {s : State} (hschema : s.schema = stateSchema) (hsize : s.targets.size ≤ 1024)
    (hvalid : ∀ target ∈ s.targets.toList, Agent.validId target.1 = true ∧
      validate target.2 = .ok ()) : s.json.bytes.length ≤ maxRecord := by
  have hmember : ∀ m ∈ s.targets.toList.map fun entry ↦ (entry.1, entry.2.json),
      stringSize m.1 + 1 + m.2.size ≤ 20000 := by
    intro m hm
    obtain ⟨entry, hentry, rfl⟩ := mem_map.mp hm
    obtain ⟨hid, hevent⟩ := hvalid entry hentry
    have hname := utf8Length_of_validId hid
    have hle := stringSize_le entry.1
    have hsize := size_event_le hevent
    dsimp only
    omega
  have hsum := sum_le_card_nsmul _ 20000 (forall_mem_map.mpr hmember)
  have hschemaSize : stringSize s.schema = 41 := by
    rw [hschema]
    decide
  have hnames : stringSize "schema" = 8 ∧ stringSize "targets" = 9 := by decide
  rw [length_map, length_map, length_toList, smul_eq_mul] at hsum
  rw [length_bytes, maxRecord, State.json, size_obj, map_cons, map_cons, map_nil,
    sum_cons, sum_cons, sum_nil, size_str, size_obj, hschemaSize, hnames.1, hnames.2,
    length_map, length_toList]
  simp only [length_cons, length_nil]
  omega

end Sizes

/-! ## What is submitted -/

/-- The coordinator's policy accepts an event. -/
def PolicyAccepted (root : Root) (e : Event) : Prop :=
  validate e = .ok () ∧ ∃ service policy, root.services[e.service]? = some service ∧
    root.policies[e.service]? = some policy ∧ e.repositoryId = service.repositoryId ∧
      policy.repositoryId = e.repositoryId ∧ e.sourceRef ∈ policy.acceptedRefs

/-- Events that a root accepts, of which no two share an id, or a service and a sequence. -/
structure Submission (root : Root) (events : Set Event) : Prop where
  policies : policies root = .ok root.policies
  services : services root = .ok root.services
  accepted : ∀ e ∈ events, PolicyAccepted root e
  ids : ∀ e ∈ events, ∀ f ∈ events, e.id = f.id → e = f
  sequences : ∀ e ∈ events, ∀ f ∈ events, e.service = f.service → e.sequence = f.sequence → e = f

/-- The targets on the disk. -/
def Root.targets (root : Root) (service : String) : Option Event :=
  root.state.bind fun s ↦ s.targets[service]?

section Runs

variable [YamlDocuments]

/-- The reader gives events back, and states with these events as targets. -/
structure ReadsBack (events : Set Event) : Prop where
  event : ∀ e ∈ events, YamlDocuments.readEvent e = some e
  state : ∀ s : State, s.schema = stateSchema →
    (∀ (service : String) (e : Event), s.targets[service]? = some e → e ∈ events) →
      YamlDocuments.readState s = some s

/-- A run from a root: calls with any batches of the events, each on a machine that does any number
of writes. With the root it reaches, and the events of the calls that returned. -/
inductive Run (events : Set Event) (start : Root) : List Event → Root → Prop
  | start : Run events start [] start
  | returned {accepted : List Event} {root : Root} {machine : Machine Root}
      {report : List Row × State} (h : Run events start accepted root) (batch : List Event)
      (hbatch : ∀ e ∈ batch, e ∈ events) (writes : ℕ)
      (hcall : enqueue batch ⟨root, writes⟩ = (.ok report, machine)) :
      Run events start (accepted ++ batch) machine.disk
  | failed {accepted : List Event} {root : Root} {machine : Machine Root} {error : ClewError}
      (h : Run events start accepted root) (batch : List Event) (hbatch : ∀ e ∈ batch, e ∈ events)
      (writes : ℕ) (hcall : enqueue batch ⟨root, writes⟩ = (.error error, machine)) :
      Run events start accepted machine.disk

/-- The invariant of a run: the catalogue is untouched, the files of events are theirs, and the
targets are the latest of the events that they account for. -/
structure Coordinated (start : Root) (events counted : Set Event) (root : Root) : Prop where
  policies : root.policies = start.policies
  services : root.services = start.services
  externals : root.externalServices = start.externalServices
  files : ∀ (id : String) (e : Event), root.events[id]? = some e → e ∈ events ∧ e.id = id
  schema : ∀ s ∈ root.state, s.schema = stateSchema
  latest : IsLatest Event.service (·.sequence.toNat) counted root.targets
  counted : counted ⊆ events

variable {start root : Root} {events counted : Set Event}

omit [YamlDocuments] in
theorem coordinated_start (hevents : start.events = ∅) (hstate : start.state = none) :
    Coordinated start events ∅ start where
  policies := rfl
  services := rfl
  externals := rfl
  files := by simp [hevents]
  schema := by simp [hstate]
  latest := by
    have hnone : start.targets = fun _ ↦ none := by
      funext service
      rw [Root.targets, hstate]
      rfl
    rw [hnone]
    exact isLatest_empty
  counted := Set.empty_subset _

/-! ## Reading the state -/

/-- The state on the disk. -/
def Root.current (root : Root) : State := root.state.getD ⟨stateSchema, ∅⟩

omit [YamlDocuments] in
theorem Root.current_targets (root : Root) (service : String) :
    root.current.targets[service]? = root.targets service := by
  rw [Root.current, Root.targets]
  rcases root.state with _ | s
  · exact ExtTreeMap.getElem?_empty
  · rfl

omit [YamlDocuments] in
theorem size_le_size_of_mem_imp {α β : Type} {m : ExtTreeMap String α} {m' : ExtTreeMap String β}
    (h : ∀ k ∈ m, k ∈ m') : m.size ≤ m'.size := by
  rw [← length_keys, ← length_keys]
  refine (nodup_keys.subperm fun k hk ↦ ?_).length_le
  exact mem_keys.mpr (h k (mem_keys.mp hk))

omit [YamlDocuments] in
theorem of_records {α : Type} {rows rows' : ExtTreeMap String α} (h : records rows = .ok rows') :
    rows.size ≤ maxRecords ∧ rows' = rows := by
  obtain ⟨⟨-, hsize⟩, hok⟩ := ensure_bind_eq_ok_iff.mp h
  exact ⟨hsize, (Except.ok.inj hok).symm⟩

omit [YamlDocuments] in
theorem Submission.size_services (h : Submission start events) :
    start.services.size ≤ maxRecords := by
  obtain ⟨rows, hrows, -⟩ := bind_eq_ok_iff.mp h.services
  exact (of_records hrows).1

/-- **The state passes its own validation.** -/
theorem Coordinated.state_eq_ok (h : Coordinated start events counted root)
    (hsubmission : Submission start events) (hread : ReadsBack events) :
    state root = .ok root.current := by
  have htargets : ∀ service e, root.targets service = some e → e ∈ events ∧
      e.service = service := by
    intro service e he
    obtain ⟨hmem, hservice⟩ := h.latest.mem service e he
    exact ⟨h.counted hmem, hservice⟩
  have hcurrent := root.current_targets
  rw [Root.current] at hcurrent ⊢
  rw [state]
  rcases hstate : root.state with _ | s
  · rfl
  · simp only [hstate, Option.getD_some] at hcurrent ⊢
    have hschema := h.schema s hstate
    have hvalid : ∀ target ∈ s.targets.toList, Agent.validId target.1 = true ∧
        validate target.2 = .ok () ∧ target.1 = target.2.service := by
      rintro ⟨service, e⟩ htarget
      have hsome := mem_toList_iff_getElem?_eq_some.mp htarget
      obtain ⟨hmem, rfl⟩ := htargets service e ((hcurrent service).symm.trans hsome)
      obtain ⟨hvalid, -⟩ := hsubmission.accepted e hmem
      obtain ⟨-, -, hservice, -⟩ := ensure_eq_ok_iff.mp hvalid
      exact ⟨hservice, hvalid, rfl⟩
    have hsize : s.targets.size ≤ 1024 := by
      refine (size_le_size_of_mem_imp fun service hservice ↦ ?_).trans hsubmission.size_services
      obtain ⟨e, he⟩ := Option.isSome_iff_exists.mp (mem_iff_isSome_getElem?.mp hservice)
      obtain ⟨hmem, rfl⟩ := htargets service e ((hcurrent service).symm.trans he)
      obtain ⟨-, registered, _, hregistered, -⟩ := hsubmission.accepted e hmem
      exact mem_iff_isSome_getElem?.mpr (Option.isSome_iff_exists.mpr ⟨_, hregistered⟩)
    have hbytes := size_state_le hschema hsize fun target htarget ↦
      ⟨(hvalid target htarget).1, (hvalid target htarget).2.1⟩
    have hback : YamlDocuments.readState s = some s :=
      hread.state s hschema fun service e he ↦
        (htargets service e ((hcurrent service).symm.trans he)).1
    have hdocument : readDocument s.json (YamlDocuments.readState s) = .ok s := by
      rw [hback]
      exact ensure_bind_eq_ok_iff.mpr ⟨hbytes, rfl⟩
    rw [hdocument, ok_bind, checkState, ensure_bind_eq_ok_iff]
    refine ⟨⟨hschema, hsize⟩, bind_eq_ok_iff.mpr ⟨(), forM_eq_ok fun target htarget ↦ ?_, rfl⟩⟩
    obtain ⟨-, hevent, hservice⟩ := hvalid target htarget
    rw [hevent, ok_bind]
    exact ensure_eq_ok_iff.mpr hservice

/-! ## Planning -/

section Plan

variable (h : Coordinated start events counted root) (hsubmission : Submission start events)
include h hsubmission

variable {seen : ExtTreeMap String Event}

theorem Coordinated.checkEvent_eq_ok (hread : ReadsBack events)
    (hseen : ∀ (id : String) (e : Event), seen[id]? = some e → e ∈ events ∧ e.id = id) {e : Event}
    (he : e ∈ events) :
    checkEvent root root.policies root.services seen e = .ok (seen.insert e.id e) := by
  obtain ⟨hvalid, service, policy, hservice, hpolicy, horigin⟩ := hsubmission.accepted e he
  have hstored : checkStored root e = .ok () := by
    rw [checkStored]
    rcases hsaved : root.events[e.id]? with _ | saved
    · rfl
    · obtain ⟨hmem, hid⟩ := h.files e.id saved hsaved
      obtain rfl := hsubmission.ids saved hmem e he hid
      have hbytes : saved.json.bytes.length ≤ maxRecord := by
        rw [length_bytes]
        exact (size_event_le hvalid).trans (by decide)
      have hdocument : readDocument saved.json (YamlDocuments.readEvent saved) = .ok saved := by
        rw [hread.event saved hmem]
        exact ensure_bind_eq_ok_iff.mpr ⟨hbytes, rfl⟩
      simp only [hdocument, ok_bind]
      exact ensure_eq_ok_iff.mpr trivial
  have hlookupService : lookup root.services e.service
      "revision event service is unregistered" = .ok service := by
    rw [lookup, h.services, hservice]
  have hlookupPolicy : lookup root.policies e.service
      "configure accepted refs before accepting events" = .ok policy := by
    rw [lookup, h.policies, hpolicy]
  rw [checkEvent, hvalid, ok_bind, hlookupService, ok_bind, hlookupPolicy, ok_bind,
    ensure_bind_eq_ok_iff]
  refine ⟨horigin, ?_⟩
  rw [hstored, ok_bind, ensure_bind_eq_ok_iff]
  refine ⟨fun old hold ↦ ?_, rfl⟩
  obtain ⟨hmem, hid⟩ := hseen e.id old hold
  exact hsubmission.ids old hmem e he hid

theorem Coordinated.exists_checked (hread : ReadsBack events) {batch : List Event}
    (hbatch : ∀ e ∈ batch, e ∈ events)
    (hseen : ∀ (id : String) (e : Event), seen[id]? = some e → e ∈ events ∧ e.id = id) :
    ∃ seen', batch.foldlM (checkEvent root root.policies root.services) seen = .ok seen' := by
  induction batch generalizing seen with
  | nil => exact ⟨seen, rfl⟩
  | cons e batch ih =>
    obtain ⟨he, hbatch⟩ := forall_mem_cons.mp hbatch
    rw [foldlM_cons, h.checkEvent_eq_ok hsubmission hread hseen he, ok_bind]
    refine ih hbatch fun id f hf ↦ ?_
    rw [ExtTreeMap.getElem?_insert] at hf
    split_ifs at hf with hid
    · obtain rfl := Option.some.inj hf
      exact ⟨he, LawfulEqCmp.compare_eq_iff_eq.mp hid⟩
    · exact hseen id f hf

end Plan

omit [YamlDocuments] in
theorem getElem?_insert_eq_update (m : ExtTreeMap String Event) (service : String) (e : Event) :
    (fun k ↦ (m.insert service e)[k]?) = Function.update (fun k ↦ m[k]?) service (some e) := by
  funext k
  rw [ExtTreeMap.getElem?_insert, Function.update_apply]
  exact if_congr (LawfulEqCmp.compare_eq_iff_eq.trans eq_comm) rfl rfl

variable {progress : ExtTreeMap String Event × List Row}

omit [YamlDocuments] in
/-- **One event** moves the targets on to the latest of one event more. -/
theorem exists_advance (hsequences : ∀ e ∈ events, ∀ f ∈ events, e.service = f.service →
      e.sequence = f.sequence → e = f) (hcounted : counted ⊆ events)
    (hlatest : IsLatest Event.service (·.sequence.toNat) counted fun service ↦
      progress.1[service]?) {e : Event} (he : e ∈ events) :
    ∃ progress', advance progress e = .ok progress' ∧
      IsLatest Event.service (·.sequence.toNat) (insert e counted) fun service ↦
        progress'.1[service]? := by
  have hreplace : (∀ old ∈ progress.1[e.service]?, old.sequence.toNat ≤ e.sequence.toNat) →
      IsLatest Event.service (·.sequence.toNat) (insert e counted) fun service ↦
        (progress.1.insert e.service e)[service]? := by
    intro hle
    rw [getElem?_insert_eq_update]
    exact hlatest.insert_update hle
  rw [advance, statusOf]
  rcases hold : progress.1[e.service]? with _ | old
  · exact ⟨_, rfl, hreplace (by simp [hold])⟩
  · obtain ⟨hmem, hservice⟩ := hlatest.mem e.service old hold
    dsimp only
    split_ifs with hlt heq
    · exact ⟨_, rfl, hlatest.insert_of_le hold (UInt64.le_iff_toNat_le.mp (UInt64.le_of_lt hlt))⟩
    · obtain rfl := hsequences old (hcounted hmem) e he hservice heq.symm
      rw [ensure, if_pos rfl]
      exact ⟨_, rfl, hlatest.insert_of_le hold le_rfl⟩
    · refine ⟨_, rfl, hreplace fun other hother ↦ ?_⟩
      obtain rfl := Option.some.inj (hold.symm.trans hother)
      exact UInt64.le_iff_toNat_le.mp (UInt64.not_lt.mp hlt)

variable {batch : List Event}

omit [YamlDocuments] in
theorem exists_advanced (hsequences : ∀ e ∈ events, ∀ f ∈ events, e.service = f.service →
      e.sequence = f.sequence → e = f) (hcounted : counted ⊆ events)
    (hlatest : IsLatest Event.service (·.sequence.toNat) counted fun service ↦
      progress.1[service]?) (hbatch : ∀ e ∈ batch, e ∈ events) :
    ∃ progress', batch.foldlM advance progress = .ok progress' ∧
      IsLatest Event.service (·.sequence.toNat) (counted ∪ {e | e ∈ batch}) fun service ↦
        progress'.1[service]? := by
  induction batch generalizing progress counted with
  | nil => exact ⟨progress, rfl, by simpa using hlatest⟩
  | cons e batch ih =>
    obtain ⟨he, hbatch⟩ := forall_mem_cons.mp hbatch
    obtain ⟨next, hnext, hlatest'⟩ := exists_advance hsequences hcounted hlatest he
    obtain ⟨last, hlast, hlatest''⟩ := ih (Set.insert_subset he hcounted) hlatest' hbatch
    refine ⟨last, by rw [foldlM_cons, hnext, ok_bind, hlast], ?_⟩
    have hsets : counted ∪ {f | f ∈ e :: batch} = insert e counted ∪ {f | f ∈ batch} := by
      ext f
      simp only [Set.mem_union, Set.mem_ofPred_eq, mem_cons, Set.mem_insert_iff]
      exact or_left_comm.trans or_assoc.symm
    rwa [hsets]

/-- **What a call plans to write**: the latest of what was counted and of the batch. -/
theorem Coordinated.exists_plan (h : Coordinated start events counted root)
    (hsubmission : Submission start events) (hread : ReadsBack events)
    (hbatch : ∀ e ∈ batch, e ∈ events) :
    ∃ planned rows, plan root batch = .ok (planned, rows) ∧ planned.schema = stateSchema ∧
      IsLatest Event.service (·.sequence.toNat) (counted ∪ {e | e ∈ batch}) fun service ↦
        planned.targets[service]? := by
  have hpolicies : Updates.policies root = .ok root.policies := by
    have hstart := hsubmission.policies
    rw [Updates.policies] at hstart ⊢
    rwa [h.policies]
  have hservices : Updates.services root = .ok root.services := by
    have hstart := hsubmission.services
    rw [Updates.services] at hstart ⊢
    rwa [h.services, h.externals]
  have hnone : ∀ (id : String) (e : Event), (∅ : ExtTreeMap String Event)[id]? = some e →
      e ∈ events ∧ e.id = id := by simp
  obtain ⟨seen, hseen⟩ := h.exists_checked hsubmission hread hbatch hnone
  have hcurrent : IsLatest Event.service (·.sequence.toNat) counted fun service ↦
      (root.current.targets, ([] : List Row)).1[service]? := by
    simpa only [root.current_targets] using h.latest
  obtain ⟨⟨targets, rows⟩, hadvanced, hlatest⟩ :=
    exists_advanced hsubmission.sequences h.counted hcurrent hbatch
  have hschema : root.current.schema = stateSchema := by
    rw [Root.current]
    rcases hstate : root.state with _ | s
    · rfl
    · exact h.schema s hstate
  refine ⟨{ root.current with targets }, rows, ?_, hschema, hlatest⟩
  rw [plan, hpolicies, ok_bind, hservices, ok_bind, h.state_eq_ok hsubmission hread, ok_bind, hseen]
  change (batch.foldlM advance (root.current.targets, []) >>= _) = _
  rw [hadvanced]
  rfl

/-! ## One call -/

omit [YamlDocuments] in
theorem Coordinated.withEvents (h : Coordinated start events counted root)
    (hbatch : ∀ e ∈ batch, e ∈ events) :
    Coordinated start events counted (batch.foldl (fun root e ↦ root.withEvent e) root) := by
  induction batch generalizing root with
  | nil => exact h
  | cons e batch ih =>
    obtain ⟨he, hbatch⟩ := forall_mem_cons.mp hbatch
    refine ih ⟨h.policies, h.services, h.externals, fun id f hf ↦ ?_, h.schema, h.latest,
      h.counted⟩ hbatch
    change (root.events.insert e.id e)[id]? = some f at hf
    rw [ExtTreeMap.getElem?_insert] at hf
    split_ifs at hf with hid
    · obtain rfl := Option.some.inj hf
      exact ⟨he, LawfulEqCmp.compare_eq_iff_eq.mp hid⟩
    · exact h.files id f hf

omit [YamlDocuments] in
theorem Coordinated.withState {planned : State} (h : Coordinated start events counted root)
    (hbatch : ∀ e ∈ batch, e ∈ events) (hschema : planned.schema = stateSchema)
    (hlatest : IsLatest Event.service (·.sequence.toNat) (counted ∪ {e | e ∈ batch}) fun service ↦
      planned.targets[service]?) :
    Coordinated start events (counted ∪ {e | e ∈ batch}) (root.withState planned) where
  policies := h.policies
  services := h.services
  externals := h.externals
  files := h.files
  schema _ hs := Option.some.inj hs ▸ hschema
  latest := hlatest
  counted := Set.union_subset h.counted hbatch

/-- **One call**: with enough writes it returns and the targets account for the batch; otherwise it
fails and they are what they were. -/
theorem Coordinated.enqueue (h : Coordinated start events counted root)
    (hsubmission : Submission start events) (hread : ReadsBack events)
    (hbatch : ∀ e ∈ batch, e ∈ events) (writes : ℕ) :
    (batch.length < writes ∧ ∃ report machine,
      Updates.enqueue batch ⟨root, writes⟩ = (.ok report, machine) ∧
        Coordinated start events (counted ∪ {e | e ∈ batch}) machine.disk) ∨
    (writes ≤ batch.length ∧ ∃ error machine,
      Updates.enqueue batch ⟨root, writes⟩ = (.error error, machine) ∧
        Coordinated start events counted machine.disk) := by
  obtain ⟨planned, rows, hplan, hschema, hlatest⟩ := h.exists_plan hsubmission hread hbatch
  have hplanned : (Machine.read fun root ↦ plan root batch) ⟨root, writes⟩ =
      (.ok (planned, rows), ⟨root, writes⟩) := by
    rw [Machine.read, Program.inspect, hplan]
  have hfiles :=
    Machine.each_write (fun e root ↦ Root.withEvent root e) Agent.ioError batch root writes
  rw [Updates.enqueue, bind_of_ok hplanned]
  dsimp only
  split_ifs at hfiles with hlength
  · rw [bind_of_ok hfiles]
    rcases hrest : writes - batch.length with _ | rest
    · exact Or.inr ⟨by omega, _, _, rfl, h.withEvents hbatch⟩
    · let written := (batch.foldl (fun root e ↦ root.withEvent e) root).withState planned
      have hdone : Coordinated start events (counted ∪ {e | e ∈ batch}) written :=
        (h.withEvents hbatch).withState hbatch hschema hlatest
      have hwrite : Machine.write (·.withState planned) Agent.ioError
          ⟨batch.foldl (fun root e ↦ root.withEvent e) root, rest + 1⟩ =
            (.ok (), ⟨written, rest⟩) := rfl
      have hfinal :
          Machine.read state ⟨written, rest⟩ = (.ok written.current, ⟨written, rest⟩) := by
        rw [Machine.read, Program.inspect, hdone.state_eq_ok hsubmission hread]
      refine Or.inl ⟨by omega, (rows, written.current), ⟨written, rest⟩, ?_, hdone⟩
      rw [bind_of_ok hwrite, bind_of_ok hfinal]
      rfl
  · rw [bind_of_error hfiles]
    refine Or.inr ⟨by omega, _, _, rfl, ?_⟩
    exact h.withEvents fun e he ↦ hbatch e (mem_of_mem_take he)

/-! ## Runs -/

/-- **The invariant of runs**: the targets account for all events of the calls that returned. -/
theorem Run.exists_coordinated {accepted : List Event} (hrun : Run events start accepted root)
    (hsubmission : Submission start events) (hread : ReadsBack events)
    (hevents : start.events = ∅) (hstate : start.state = none) :
    ∃ counted, Coordinated start events counted root ∧ ∀ e ∈ accepted, e ∈ counted := by
  induction hrun with
  | start => exact ⟨∅, coordinated_start hevents hstate, by simp⟩
  | @returned accepted root machine report _ batch hbatch writes hcall ih =>
    obtain ⟨counted, h, haccepted⟩ := ih
    obtain ⟨-, report', machine', hcall', h'⟩ | ⟨-, error, machine', hcall', -⟩ :=
      h.enqueue hsubmission hread hbatch writes
    · obtain ⟨-, rfl⟩ := Prod.mk.inj (hcall.symm.trans hcall')
      refine ⟨_, h', fun e he ↦ ?_⟩
      obtain he | he := mem_append.mp he
      · exact Or.inl (haccepted e he)
      · exact Or.inr he
    · cases (Prod.mk.inj (hcall.symm.trans hcall')).1
  | @failed accepted root machine error _ batch hbatch writes hcall ih =>
    obtain ⟨counted, h, haccepted⟩ := ih
    obtain ⟨-, report', machine', hcall', h'⟩ | ⟨-, error, machine', hcall', h'⟩ :=
      h.enqueue hsubmission hread hbatch writes
    · cases (Prod.mk.inj (hcall.symm.trans hcall')).1
    · obtain ⟨-, rfl⟩ := Prod.mk.inj (hcall.symm.trans hcall')
      exact ⟨counted, h', haccepted⟩

/-- **Targets do not depend on the order of arrival.** In every run the state passes its validation,
no call lowers a target or takes it away, and a call that is not cut off returns. Once every event
was in a call that returned, the target of a service is its event with the highest sequence. -/
theorem targets_of_run (events : Set Event) (start : Root) (hsubmission : Submission start events)
    (hread : ReadsBack events) (hevents : start.events = ∅) (hstate : start.state = none)
    (accepted : List Event) (root : Root) (hrun : Run events start accepted root) :
    (state root = .ok root.current) ∧
    (∀ batch : List Event, (∀ e ∈ batch, e ∈ events) →
      ∀ (writes : ℕ) (service : String) (e : Event), root.targets service = some e →
        ∃ e', (enqueue batch ⟨root, writes⟩).2.disk.targets service = some e' ∧
          e.sequence ≤ e'.sequence) ∧
    (∀ batch : List Event, (∀ e ∈ batch, e ∈ events) → ∀ writes, batch.length < writes →
      ∃ report, (enqueue batch ⟨root, writes⟩).1 = .ok report) ∧
    ((∀ e ∈ events, e ∈ accepted) → ∀ (service : String) (e : Event),
      root.targets service = some e ↔ e ∈ events ∧ e.service = service ∧
        ∀ f ∈ events, f.service = service → f.sequence ≤ e.sequence) := by
  obtain ⟨counted, h, haccepted⟩ := hrun.exists_coordinated hsubmission hread hevents hstate
  refine ⟨h.state_eq_ok hsubmission hread, fun batch hbatch writes service e he ↦ ?_,
    fun batch hbatch writes hwrites ↦ ?_, fun hall service e ↦ ?_⟩
  · obtain ⟨-, report, machine, hcall, h'⟩ | ⟨-, error, machine, hcall, h'⟩ :=
      h.enqueue hsubmission hread hbatch writes
    · obtain ⟨e', he', hle⟩ := h.latest.rank_le h'.latest Set.subset_union_left he
      exact ⟨e', by rw [hcall, he'], UInt64.le_iff_toNat_le.mpr hle⟩
    · obtain ⟨e', he', hle⟩ := h.latest.rank_le h'.latest subset_rfl he
      exact ⟨e', by rw [hcall, he'], UInt64.le_iff_toNat_le.mpr hle⟩
  · obtain ⟨-, report, machine, hcall, -⟩ | ⟨hle, -⟩ := h.enqueue hsubmission hread hbatch writes
    · exact ⟨report, by rw [hcall]⟩
    · omega
  · obtain rfl : counted = events :=
      h.counted.antisymm fun f hf ↦ haccepted f (hall f hf)
    have hinj : ∀ a ∈ counted, ∀ b ∈ counted, a.service = b.service →
        a.sequence.toNat = b.sequence.toNat → a = b := fun a ha b hb hservice hsequence ↦
      hsubmission.sequences a ha b hb hservice (UInt64.toNat_inj.mp hsequence)
    simpa only [UInt64.le_iff_toNat_le] using h.latest.eq_some_iff hinj

/-- **Redelivery is harmless.** Events of calls that returned change no target when they come again,
in any selection and order, whether the call returns or is cut off. -/
theorem targets_of_redelivery {accepted : List Event} (hsubmission : Submission start events)
    (hread : ReadsBack events) (hevents : start.events = ∅) (hstate : start.state = none)
    (hrun : Run events start accepted root) (hbatch : ∀ e ∈ batch, e ∈ accepted) (writes : ℕ)
    (service : String) :
    (enqueue batch ⟨root, writes⟩).2.disk.targets service = root.targets service := by
  obtain ⟨counted, h, haccepted⟩ := hrun.exists_coordinated hsubmission hread hevents hstate
  have hcounted : {e | e ∈ batch} ⊆ counted := fun e he ↦ haccepted e (hbatch e he)
  -- the targets are determined by what was counted
  have hsame : ∀ root', Coordinated start events counted root' →
      root'.targets service = root.targets service := by
    intro root' h'
    have hinj : ∀ a ∈ counted, ∀ b ∈ counted, a.service = b.service →
        a.sequence.toNat = b.sequence.toNat → a = b := fun a ha b hb hservice hsequence ↦
      hsubmission.sequences a (h.counted ha) b (h.counted hb) hservice
        (UInt64.toNat_inj.mp hsequence)
    exact Option.ext fun e ↦
      (h'.latest.eq_some_iff hinj).trans (h.latest.eq_some_iff hinj).symm
  obtain ⟨-, _, _, hcall, h'⟩ | ⟨-, _, _, hcall, h'⟩ :=
    h.enqueue hsubmission hread (hcounted.trans h.counted) writes
  · rw [hcall]
    exact hsame _ (Set.union_eq_left.mpr hcounted ▸ h')
  · rw [hcall]
    exact hsame _ h'

end Runs

/-! ## Two revisions of a service -/

section Example

/-- A reader that takes every document. -/
@[reducible] def YamlDocuments.exact : YamlDocuments := ⟨some, some⟩

attribute [local instance] YamlDocuments.exact

def ordersRoot : Root where
  policies := ExtTreeMap.ofList [("orders", (⟨policySchema, "orders", "shop", ["main"]⟩ : Policy))]
  services := ExtTreeMap.ofList [("orders", (⟨"orders", "shop", .ok ()⟩ : Service))]
  externalServices := .ok ["carrier"]
  events := ∅
  state := none

def ordersEvent (id : String) (sequence : UInt64) : Event where
  schema := eventSchema
  id := id
  service := "orders"
  repositoryId := "shop"
  sourceRef := "main"
  revision := "aaaaaaaaaaaaaaaaaaaaaaaaaaaaaaaaaaaaaaaa"
  sequence := sequence
  tag := none

theorem submission_orders :
    Submission ordersRoot {ordersEvent "first" 1, ordersEvent "second" 2} := by
  have hpolicies : records ordersRoot.policies = .ok ordersRoot.policies :=
    ensure_bind_eq_ok_iff.mpr ⟨by decide, rfl⟩
  have hservices : records ordersRoot.services = .ok ordersRoot.services :=
    ensure_bind_eq_ok_iff.mpr ⟨by decide, rfl⟩
  refine ⟨?_, ?_, ?_, ?_, ?_⟩
  · rw [policies, hpolicies, ok_bind]
    exact ensure_bind_eq_ok_iff.mpr ⟨by decide, rfl⟩
  · have hrows : ordersRoot.services.toList = [("orders", ⟨"orders", "shop", .ok ()⟩)] := rfl
    rw [services, hservices, ok_bind, hrows]
    exact check_bind_eq_ok_iff.mpr ⟨rfl, bind_eq_ok_iff.mpr ⟨["carrier"], rfl,
      ensure_bind_eq_ok_iff.mpr ⟨by decide, rfl⟩⟩⟩
  · rintro e (rfl | rfl) <;>
      exact ⟨by decide, _, _, rfl, rfl, rfl, rfl, by decide⟩
  · rintro e (rfl | rfl) f (rfl | rfl) <;> decide
  · rintro e (rfl | rfl) f (rfl | rfl) <;> decide

theorem targets_of_run_orders :
    ∃ accepted root, Run {ordersEvent "first" 1, ordersEvent "second" 2} ordersRoot accepted root ∧
      root.targets "orders" = some (ordersEvent "second" 2) := by
  have hread : ReadsBack {ordersEvent "first" 1, ordersEvent "second" 2} :=
    ⟨fun _ _ ↦ rfl, fun _ _ _ ↦ rfl⟩
  have hbatch : ∀ e ∈ [ordersEvent "second" 2, ordersEvent "first" 1],
      e ∈ ({ordersEvent "first" 1, ordersEvent "second" 2} : Set Event) := by
    simp
  -- the later revision arrives first
  obtain ⟨-, -, hreturns, -⟩ := targets_of_run _ _ submission_orders hread rfl rfl _ _ .start
  obtain ⟨report, hreport⟩ := hreturns _ hbatch 3 (by decide)
  have hcall : enqueue [ordersEvent "second" 2, ordersEvent "first" 1] ⟨ordersRoot, 3⟩ =
      (.ok report,
        (enqueue [ordersEvent "second" 2, ordersEvent "first" 1] ⟨ordersRoot, 3⟩).2) := by
    rw [← hreport]
  have hrun := Run.start.returned _ hbatch 3 hcall
  obtain ⟨-, -, -, htargets⟩ := targets_of_run _ _ submission_orders hread rfl rfl _ _ hrun
  refine ⟨_, _, hrun, (htargets ?_ _ _).mpr ⟨by simp, rfl, ?_⟩⟩
  · simp
  · rintro f (rfl | rfl) - <;> decide

theorem targets_of_redelivery_orders : ∃ report machine,
    enqueue [ordersEvent "second" 2] ⟨ordersRoot, 2⟩ = (.ok report, machine) ∧
      ∀ writes service, (enqueue [ordersEvent "second" 2] ⟨machine.disk, writes⟩).2.disk.targets
        service = machine.disk.targets service := by
  have hread : ReadsBack {ordersEvent "first" 1, ordersEvent "second" 2} :=
    ⟨fun _ _ ↦ rfl, fun _ _ _ ↦ rfl⟩
  have hbatch : ∀ e ∈ [ordersEvent "second" 2],
      e ∈ ({ordersEvent "first" 1, ordersEvent "second" 2} : Set Event) := by simp
  obtain ⟨-, report, machine, hcall, -⟩ | ⟨hle, -⟩ :=
    (coordinated_start rfl rfl).enqueue submission_orders hread hbatch 2
  · exact ⟨report, machine, hcall, targets_of_redelivery submission_orders hread rfl rfl
      (Run.start.returned _ hbatch 2 hcall) (by simp)⟩
  · simp at hle

end Example

end Codeclew.Updates
