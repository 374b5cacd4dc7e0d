import Codeclew.Mission.Ledger

/-!
# The latest binding of a session

`record` appends a binding unless it has been recorded before, at any time; the inspection reports
for each session the last binding that was appended. So a binding that is recorded again after
another one is not the one that is reported (`latestBindings_iff`).
-/

namespace Codeclew

open Json Program
open List hiding beq_eq_decide
open Std (ExtTreeMap)

namespace Mission

/-! ## Reading events -/

theorem eventName_injOn {m n : ℕ} (hm : m < 2 ^ 64) (hn : n < 2 ^ 64)
    (h : eventName m = eventName n) : m = n := by
  have hpad : (Cas.pad20 m).toList = (Cas.pad20 n).toList := by
    have hlists := congrArg String.toList h
    rw [eventName, eventName, String.toList_append, String.toList_append] at hlists
    exact append_cancel_right hlists
  have hm' : m.toUInt64.toNat = m := Nat.mod_eq_of_lt hm
  have hn' : n.toUInt64.toNat = n := Nat.mod_eq_of_lt hn
  rw [← hm', ← hn'] at hpad
  have hdigits := congrArg (Nat.ofDigitChars 10 · 0) hpad
  simp only [Cas.ofDigitChars_pad20] at hdigits
  omega

theorem stripPrefix_eventName {n : ℕ} (hn : n < 2 ^ 64) :
    (stripPrefix ".tmp-" (eventName n)).isNone = true := by
  have hn' : n.toUInt64.toNat = n := Nat.mod_eq_of_lt hn
  rw [stripPrefix, if_neg]
  · rfl
  · rintro ⟨rest, hrest⟩
    have hlength := Cas.length_toList_pad20 n.toUInt64
    have hdigit : ∀ c ∈ (Cas.pad20 n).toList, c.isDigit := fun c hc ↦
      Cas.isDigit_of_mem_pad20 (n := n.toUInt64) (hn'.symm ▸ hc)
    rw [hn'] at hlength
    rw [eventName, chars_eq_toList, chars_eq_toList, String.toList_append] at hrest
    rcases hpad : (Cas.pad20 n).toList with _ | ⟨c, cs⟩
    · simp [hpad] at hlength
    · have hc := hdigit c (by simp [hpad])
      rw [hpad] at hrest
      obtain rfl : '.' = c := (List.cons.inj hrest).1
      exact absurd hc (by decide)

/-- The files of events, each under its name. -/
def Holds (d : Directory) (events : List MissionEvent) : Prop :=
  ∀ i event, events[i]? = some event → ∃ bytes,
    d.readFile (eventName i) maxMissionEventBytes = .ok bytes ∧ canonical event = .ok bytes

variable {bytes : Bytes} {d : Directory} {event : MissionEvent} {events : List MissionEvent}

theorem Holds.concat (h : Holds d events)
    (hread : d.readFile (eventName events.length) maxMissionEventBytes = .ok bytes)
    (hbytes : canonical event = .ok bytes) : Holds d (events ++ [event]) := by
  intro i e hi
  rcases lt_trichotomy i events.length with hlt | rfl | hgt
  · rw [List.getElem?_append_left hlt] at hi
    exact h i e hi
  · rw [List.getElem?_concat_length, Option.some.injEq] at hi
    exact ⟨bytes, hread, hi ▸ hbytes⟩
  · rw [List.getElem?_eq_none (by simpa using hgt)] at hi
    cases hi

/-- Two events with one file are one event. -/
theorem canonical_inj {event event' : MissionEvent} (h : canonical event = .ok bytes)
    (h' : canonical event' = .ok bytes) : event = event' :=
  Option.some.inj ((fromSlice_of_canonical (by decide) h).symm.trans
    (fromSlice_of_canonical (by decide) h'))

section

variable [Sha256] {missionId : String}

theorem of_readEvents {d : Directory} {names : List String} {prior events : List MissionEvent}
    (hprior : Holds d prior) (h : readEvents missionId d names prior = .ok events) :
    Holds d events ∧ prior.length ≤ events.length ∧
      names = (List.range' prior.length (events.length - prior.length)).map eventName := by
  induction names generalizing prior with
  | nil =>
    obtain rfl := Except.ok.inj h
    exact ⟨hprior, le_rfl, by simp⟩
  | cons name names ih =>
    rw [readEvents] at h
    split at h
    · cases h
    · next hname =>
      obtain ⟨bytes, hread, h⟩ := bind_eq_ok_iff.mp h
      split at h
      · cases h
      · next event _ =>
        obtain ⟨written, hwritten, h⟩ := bind_eq_ok_iff.mp h
        split at h
        · cases h
        · next heq =>
          obtain ⟨_, _, h⟩ := bind_eq_ok_iff.mp h
          rw [not_not] at hname heq
          obtain ⟨hholds, hlength, hnames⟩ :=
            ih (hprior.concat (hname ▸ hread) (heq ▸ hwritten)) h
          rw [length_append, length_singleton] at hlength hnames
          refine ⟨hholds, by omega, ?_⟩
          obtain ⟨k, hk⟩ : ∃ k, events.length - prior.length = k + 1 :=
            ⟨events.length - prior.length - 1, by omega⟩
          rw [hk, List.range'_succ, map_cons, hname, hnames]
          congr 3
          omega

/-- What loading the events says about their files. -/
theorem of_loadEvents {d : Directory} {events : List MissionEvent}
    (h : loadEvents missionId d = .ok events) :
    Holds d events ∧ events.length ≤ maxMissionEvents ∧ ∀ name,
      (name ∈ d ∧ (stripPrefix ".tmp-" name).isNone = true) ↔
        ∃ i < events.length, eventName i = name := by
  rw [loadEvents] at h
  split at h
  · cases h
  · next hnames =>
    obtain ⟨hholds, -, heq⟩ := of_readEvents (show Holds d [] by simp [Holds]) h
    rw [length_nil, Nat.sub_zero, ← range_eq_range'] at heq
    refine ⟨hholds, ?_, fun name ↦ ?_⟩
    · have hlength := congrArg List.length heq
      rw [length_map, length_range] at hlength
      rw [← hlength]
      exact not_lt.mp (not_or.mp hnames).2
    · have hmem := congrArg (name ∈ ·) heq
      simpa [Directory.entries, and_comm] using hmem

end

/-! ## Appending an event -/

theorem writeManagedJsonCreateNew_apply {α : Type} [Format α] {name : String} {value : α}
    (hbytes : canonical value = .ok bytes) (hnew : d[name]? = none) :
    writeManagedJsonCreateNew name value d = (.ok (), d.insert name ⟨bytes, default⟩) := by
  have hcreate : Files.createFile name d = (.ok (), d.insert name ⟨[], default⟩) := by
    rw [Files.createFile, hnew]
  rw [writeManagedJsonCreateNew, bind_of_ok hcreate, hbytes, lift_ok_bind, Files.appendBytes,
    modify_apply, Directory.append, ExtTreeMap.getElem?_insert_self]
  refine congrArg (Prod.mk _) (Std.ExtTreeMap.ext_getElem? fun other ↦ ?_)
  simp only [ExtTreeMap.getElem?_insert, nil_append]
  split <;> rfl

theorem of_writeManagedJsonCreateNew {α : Type} [Format α] {name : String} {value : α}
    {d d' : Directory} (h : writeManagedJsonCreateNew name value d = (.ok (), d')) :
    ∃ bytes, canonical value = .ok bytes ∧ d'.bytesOf name = bytes ∧
      ∀ other, other ≠ name → d'[other]? = d[other]? := by
  rcases hfile : d[name]? with _ | file
  · rcases hbytes : canonical value with e | bytes
    · rw [writeManagedJsonCreateNew, bind_apply, Files.createFile, hfile, hbytes] at h
      cases h
    · rw [writeManagedJsonCreateNew_apply hbytes hfile] at h
      obtain rfl := (Prod.mk.inj h).2
      refine ⟨bytes, rfl, ?_, fun other hne ↦ ?_⟩
      · rw [Directory.bytesOf, ExtTreeMap.getElem?_insert_self]
        rfl
      · rw [ExtTreeMap.getElem?_insert, if_neg (by simpa using hne.symm)]
  · rw [writeManagedJsonCreateNew, bind_apply, Files.createFile, hfile] at h
    cases h

variable {missionId : String}

/-- A directory of events to which the next event was added and that is still a directory of events
has that event at the end. -/
theorem eq_concat_of_add [Sha256] {d d' : Directory} {events events' : List MissionEvent}
    (h : loadEvents missionId d = .ok events) (h' : loadEvents missionId d' = .ok events')
    (hbytes : canonical event = .ok bytes) (hnew : d'.bytesOf (eventName events.length) = bytes)
    (hold : ∀ other, other ≠ eventName events.length → d'[other]? = d[other]?) :
    events' = events ++ [event] := by
  obtain ⟨hholds, hsize, hnames⟩ := of_loadEvents h
  obtain ⟨hholds', hsize', hnames'⟩ := of_loadEvents h'
  have hinj : ∀ {i j : ℕ}, i ≤ events'.length → j ≤ events.length →
      eventName i = eventName j → i = j := by
    intro i j hi hj
    rw [maxMissionEvents] at hsize hsize'
    exact eventName_injOn (by omega) (by omega)
  have hmem : eventName events.length ∈ d' := by
    rw [ExtTreeMap.mem_iff_isSome_getElem?]
    by_contra hnone
    rw [Option.not_isSome_iff_eq_none] at hnone
    rw [Directory.bytesOf, hnone] at hnew
    obtain ⟨hfits, hjson⟩ := canonical_eq_ok_iff.mp hbytes
    exact bytes_ne_nil (Format.valid_toJson event hfits) (hjson.symm.trans hnew.symm)
  have hlength : events'.length = events.length + 1 := by
    refine le_antisymm (not_lt.mp fun hlt ↦ ?_) ?_
    · -- one more would have been there before
      obtain ⟨hin, htmp⟩ := (hnames' (eventName (events.length + 1))).mpr ⟨_, hlt, rfl⟩
      have hne : eventName (events.length + 1) ≠ eventName events.length := fun heq ↦ by
        have := hinj hlt.le le_rfl heq
        omega
      rw [ExtTreeMap.mem_iff_isSome_getElem?, hold _ hne,
        ← ExtTreeMap.mem_iff_isSome_getElem?] at hin
      obtain ⟨i, hi, heq⟩ := (hnames _).mp ⟨hin, htmp⟩
      have := hinj hlt.le hi.le heq.symm
      omega
    · have htmp := stripPrefix_eventName (n := events.length) (by
        rw [maxMissionEvents] at hsize
        omega)
      obtain ⟨i, hi, heq⟩ := (hnames' _).mp ⟨hmem, htmp⟩
      have := hinj hi.le le_rfl heq
      omega
  refine ext_getElem (by simpa using hlength) fun i hi hi' ↦ ?_
  obtain ⟨bytes', hread', hbytes'⟩ := hholds' i _ (List.getElem?_eq_getElem hi)
  by_cases hlast : i = events.length
  · subst hlast
    rw [getElem_concat_length rfl]
    rw [Directory.bytesOf_of_readFile hread'] at hnew
    exact canonical_inj hbytes' (hnew ▸ hbytes)
  · have hlt : i < events.length := by omega
    rw [getElem_append_left hlt]
    obtain ⟨bytes'', hread, hbytes''⟩ := hholds i _ (List.getElem?_eq_getElem hlt)
    have hne : eventName i ≠ eventName events.length := fun heq ↦
      hlast (hinj (by omega) le_rfl heq)
    rw [Directory.readFile, Directory.openFile, hold _ hne, ← Directory.openFile,
      ← Directory.readFile, hread] at hread'
    exact canonical_inj hbytes' (Except.ok.inj hread' ▸ hbytes'')

/-! ## The latest bindings -/

theorem latest_concat (events : List MissionEvent) (event : MissionEvent) :
    latest (events ++ [event]) = match event.binding with
      | some binding => (latest events).insert binding.sessionId binding
      | none => latest events := by
  rw [latest, foldl_concat]
  rfl

variable {sessionId : String}

/-- A binding is kept under its session. -/
theorem sessionId_of_latest {binding : MissionBinding}
    (h : (latest events)[sessionId]? = some binding) :
    binding.sessionId = sessionId := by
  induction events using List.reverseRecOn with
  | nil => simp [latest] at h
  | append_singleton events event ih =>
    rw [latest_concat] at h
    split at h
    · rw [ExtTreeMap.getElem?_insert] at h
      split at h
      · next heq =>
        obtain rfl := Option.some.inj h
        exact Std.LawfulEqCmp.eq_of_compare heq
      · exact ih h
    · exact ih h

/-- What the inspection reports for a session. -/
theorem filter_latestBindings (loaded : LoadedMission) (sessionId : String) :
    (inspection loaded).latestBindings.filter (·.sessionId = sessionId)
      = ((latest loaded.events)[sessionId]?).toList := by
  have hfst : ∀ entry ∈ (latest loaded.events).toList, entry.2.sessionId = entry.1 := by
    rintro ⟨key, binding⟩ hmem
    exact sessionId_of_latest (Std.ExtTreeMap.mem_toList_iff_getElem?_eq_some.mp hmem)
  rw [inspection, filter_map]
  rcases hlatest : (latest loaded.events)[sessionId]? with _ | binding
  · rw [Option.toList_none, map_eq_nil_iff, filter_eq_nil_iff]
    rintro entry hmem hkey
    have hmem' : (entry.1, entry.2) ∈ (latest loaded.events).toList := hmem
    rw [ExtTreeMap.mem_toList_iff_getElem?_eq_some, ← hfst entry hmem,
      of_decide_eq_true hkey, hlatest] at hmem'
    cases hmem'
  · have hmem : (sessionId, binding) ∈ (latest loaded.events).toList :=
      ExtTreeMap.mem_toList_iff_getElem?_eq_some.mpr hlatest
    have hnodup : (latest loaded.events).toList.Nodup := by
      refine List.Nodup.of_map Prod.fst ?_
      rw [ExtTreeMap.map_fst_toList_eq_keys]
      exact ExtTreeMap.nodup_keys
    have hfilter : (latest loaded.events).toList.filter
        ((fun binding : MissionBinding ↦ decide (binding.sessionId = sessionId)) ∘ Prod.snd)
          = (latest loaded.events).toList.filter (· == (sessionId, binding)) := by
      refine filter_congr fun entry hentry ↦ ?_
      rw [Function.comp_apply, beq_eq_decide, decide_eq_decide, hfst entry hentry]
      refine ⟨fun hkey ↦ Prod.ext hkey ?_, fun heq ↦ heq ▸ rfl⟩
      have hentry' : (entry.1, entry.2) ∈ (latest loaded.events).toList := hentry
      rw [ExtTreeMap.mem_toList_iff_getElem?_eq_some, hkey, hlatest] at hentry'
      exact (Option.some.inj hentry').symm
    rw [hfilter, filter_beq, count_eq_one_of_mem hnodup hmem]
    rfl

/-! ## Calls of `record` -/

/-- A call of `record` with what it finds: the clock and the sessions at its time. -/
structure RecordCall where
  now : ℕ
  sessions : Sessions
  sessionId : String
  contextId : Option String
  planId : Option String
  runId : Option String

variable [Sha256]

namespace RecordCall

/-- The binding that a call is given to record, in a mission. -/
def binding (call : RecordCall) (loaded : LoadedMission) : Except ClewError MissionBinding :=
  requestedBinding call.sessions call.sessionId call.contextId call.planId call.runId loaded

def run [UnicodeNormalization] (missionId : String) (call : RecordCall) :
    Program MissionFiles ClewError MissionRecordResult :=
  record call.now call.sessions missionId call.sessionId call.contextId call.planId call.runId

end RecordCall

variable {contextId planId runId : Option String} {sessions : Sessions}

theorem sessionId_of_buildBinding {session : SessionAuthority} {binding : MissionBinding}
    (h : buildBinding sessions session contextId planId runId = .ok binding) :
    binding.sessionId = session.sessionId := by
  obtain ⟨context, -, h⟩ := bind_eq_ok_iff.mp h
  obtain ⟨plan, -, h⟩ := bind_eq_ok_iff.mp h
  split at h
  · cases h
  · obtain ⟨run, -, h⟩ := bind_eq_ok_iff.mp h
    split at h
    · cases h
    · cases h
    · split at h
      · cases h
      · rw [← Except.ok.inj h]
    · rw [← Except.ok.inj h]

variable {loaded : LoadedMission}

theorem sessionId_of_requestedBinding {binding : MissionBinding}
    (h : requestedBinding sessions sessionId contextId planId runId loaded = .ok binding) :
    binding.sessionId = sessionId := by
  rw [requestedBinding] at h
  split at h
  · cases h
  · next member hmember =>
    obtain ⟨session, -, h⟩ := bind_eq_ok_iff.mp h
    obtain ⟨_, hsame, h⟩ := bind_eq_ok_iff.mp h
    obtain ⟨_, _, h⟩ := bind_eq_ok_iff.mp h
    have hsession : session.sessionId = sessionId := by
      rw [requireSameMember] at hsame
      split at hsame
      · next heq =>
        have hfound := List.find?_some hmember
        rw [heq, decide_eq_true_eq] at hfound
        exact hfound
      · cases hsame
    rw [← hsession]
    exact sessionId_of_buildBinding h

variable [UnicodeNormalization]

variable {files : MissionFiles}

/-- What loading a mission reads of its events. -/
theorem loadEvents_of_load (h : load missionId files = .ok loaded) :
    loadEvents missionId files.events = .ok loaded.events := by
  obtain ⟨identity, -, h⟩ := bind_eq_ok_iff.mp h
  obtain ⟨spec, -, h⟩ := bind_eq_ok_iff.mp h
  obtain ⟨events, hevents, h⟩ := bind_eq_ok_iff.mp h
  obtain ⟨status, -, h⟩ := bind_eq_ok_iff.mp h
  rw [hevents, ← Except.ok.inj h]

omit [UnicodeNormalization] in
theorem binding_of_nextEvent {now : ℕ} {kind : MissionEventKind} {binding : Option MissionBinding}
    (h : nextEvent now missionId events kind binding = .ok event) : event.binding = binding := by
  rw [nextEvent] at h
  split at h
  · cases h
  · split at h
    · cases h
    · split at h
      · cases h
      · obtain ⟨hash, -, h⟩ := bind_eq_ok_iff.mp h
        rw [← Except.ok.inj h]

variable {call : RecordCall} {files files' : MissionFiles} {result : MissionRecordResult}

/-- What a call of `record` that returned has done. -/
theorem of_record (h : call.run missionId files = (.ok result, files')) :
    ∃ loaded loaded' binding, load missionId files = .ok loaded ∧
      load missionId files' = .ok loaded' ∧ call.binding loaded = .ok binding ∧
      (isRecorded loaded.events binding = true → loaded' = loaded) ∧
      (isRecorded loaded.events binding = false → ∃ event, event.binding = some binding ∧
        loaded'.events = loaded.events ++ [event]) := by
  obtain ⟨-, h⟩ := require_bind_eq_ok.mp h
  obtain ⟨_, -, h⟩ := lift_bind_eq_ok.mp h
  obtain ⟨loaded, hload, h⟩ := inspect_bind_eq_ok.mp h
  obtain ⟨-, h⟩ := require_bind_eq_ok.mp h
  obtain ⟨binding, hbinding, h⟩ := lift_bind_eq_ok.mp h
  split at h
  · next hrecorded =>
    obtain rfl := (Prod.mk.inj h).2
    exact ⟨loaded, loaded, binding, hload, hload, hbinding, fun _ ↦ rfl,
      fun hnot ↦ absurd (hrecorded.symm.trans hnot) (by decide)⟩
  · next hnot =>
    obtain ⟨_, files₁, happend, h⟩ := bind_eq_ok.mp h
    obtain ⟨loaded', hload', h⟩ := inspect_bind_eq_ok.mp h
    obtain rfl := (Prod.mk.inj h).2
    obtain ⟨event, hevent, happend⟩ := lift_bind_eq_ok.mp happend
    obtain ⟨_, files₂, hwrite, happend⟩ := bind_eq_ok.mp happend
    obtain rfl := (Prod.mk.inj happend).2
    refine ⟨loaded, loaded', binding, hload, hload', hbinding, fun hyes ↦ absurd hyes hnot,
      fun _ ↦ ⟨event, binding_of_nextEvent hevent, ?_⟩⟩
    obtain ⟨hok, rfl⟩ := Prod.mk.inj hwrite
    obtain ⟨bytes, hbytes, hnew, hold⟩ := of_writeManagedJsonCreateNew (Prod.ext hok rfl)
    exact eq_concat_of_add (loadEvents_of_load hload) (loadEvents_of_load hload') hbytes hnew hold

/-! ## What is reported in the end -/

/-- The bindings that an inspection reports for a session. -/
def reported (loaded : LoadedMission) (sessionId : String) : List MissionBinding :=
  (inspection loaded).latestBindings.filter (·.sessionId = sessionId)

variable {loaded loaded' : LoadedMission}

omit [Sha256] [UnicodeNormalization] in
theorem reported_of_concat {binding : MissionBinding}
    (hevents : loaded'.events = loaded.events ++ [event]) (hbinding : event.binding = some binding)
    (sessionId : String) :
    reported loaded' sessionId
      = if binding.sessionId = sessionId then [binding] else reported loaded sessionId := by
  rw [reported, reported, filter_latestBindings, filter_latestBindings, hevents, latest_concat,
    hbinding]
  dsimp only
  rw [ExtTreeMap.getElem?_insert]
  by_cases h : binding.sessionId = sessionId
  · simp [h]
  · simp [h]

/-- A call says nothing about the other sessions. -/
theorem reported_of_other (h : call.run missionId files = (.ok result, files'))
    (hother : call.sessionId ≠ sessionId) :
    ∃ loaded loaded', load missionId files = .ok loaded ∧ load missionId files' = .ok loaded' ∧
      reported loaded' sessionId = reported loaded sessionId := by
  obtain ⟨loaded, loaded', binding, hload, hload', hbinding, hsame, hnew⟩ := of_record h
  refine ⟨loaded, loaded', hload, hload', ?_⟩
  rcases hrecorded : isRecorded loaded.events binding
  · obtain ⟨event, hevent, hevents⟩ := hnew hrecorded
    rw [reported_of_concat hevents hevent, if_neg]
    rw [sessionId_of_requestedBinding hbinding]
    exact hother
  · rw [hsame hrecorded]

theorem reported_of_others {calls : List RecordCall} {results : List MissionRecordResult}
    (hload : load missionId files = .ok loaded)
    (h : collect calls (RecordCall.run missionId) files = (.ok results, files'))
    (hother : ∀ call ∈ calls, call.sessionId ≠ sessionId) :
    ∃ loaded', load missionId files' = .ok loaded' ∧
      reported loaded' sessionId = reported loaded sessionId := by
  induction calls generalizing files results loaded with
  | nil =>
    obtain rfl := (Prod.mk.inj h).2
    exact ⟨loaded, hload, rfl⟩
  | cons call calls ih =>
    obtain ⟨result, files₁, hcall, h⟩ := bind_eq_ok.mp h
    obtain ⟨results', files₂, hcalls, h⟩ := bind_eq_ok.mp h
    obtain rfl := (Prod.mk.inj h).2
    obtain ⟨loaded₀, loaded₁, hload₀, hload₁, hsame⟩ :=
      reported_of_other hcall (hother call (mem_cons_self ..))
    obtain rfl := Except.ok.inj (hload.symm.trans hload₀)
    obtain ⟨loaded', hload', hsame'⟩ :=
      ih hload₁ hcalls fun other hmem ↦ hother other (mem_cons_of_mem _ hmem)
    exact ⟨loaded', hload', hsame'.trans hsame⟩

/-- After calls that all returned, of which `call` is the last for its session: what is reported for
the session is the binding of that call exactly if it had never been recorded before, or was the one
reported already. -/
theorem latestBindings_iff {missionId : String} (earlier later : List RecordCall)
    {call : RecordCall} {files files' : MissionFiles} {results : List MissionRecordResult}
    (h : collect (earlier ++ call :: later) (RecordCall.run missionId) files
      = (.ok results, files'))
    (hlast : ∀ other ∈ later, other.sessionId ≠ call.sessionId) :
    ∃ before after binding,
      load missionId (collect earlier (RecordCall.run missionId) files).2 = .ok before ∧
      load missionId files' = .ok after ∧ call.binding before = .ok binding ∧
      (reported after call.sessionId = [binding] ↔
        isRecorded before.events binding = false ∨
          reported before call.sessionId = [binding]) := by
  obtain ⟨earlierResults, files₀, restResults, hearlier, hrest, -⟩ := collect_append_eq_ok.mp h
  obtain ⟨result, files₁, hcall, hrest⟩ := bind_eq_ok.mp hrest
  obtain ⟨laterResults, files₂, hlater, hrest⟩ := bind_eq_ok.mp hrest
  obtain rfl := (Prod.mk.inj hrest).2
  obtain ⟨before, loaded₁, binding, hbefore, hload₁, hbinding, hsame, hnew⟩ := of_record hcall
  obtain ⟨after, hafter, hothers⟩ := reported_of_others hload₁ hlater hlast
  refine ⟨before, after, binding, by rw [hearlier]; exact hbefore, hafter, hbinding, ?_⟩
  rw [hothers]
  rcases hrecorded : isRecorded before.events binding
  · obtain ⟨event, hevent, hevents⟩ := hnew hrecorded
    simp [reported_of_concat hevents hevent, sessionId_of_requestedBinding hbinding]
  · simp [hsame hrecorded]

/-! ## Missions that load -/

omit [UnicodeNormalization] in
/-- Reading the next event. -/
theorem readEvents_cons {prior : List MissionEvent} (names : List String)
    (hread : d.readFile (eventName prior.length) maxMissionEventBytes = .ok bytes)
    (hbytes : canonical event = .ok bytes) (hvalid : validateEvent missionId prior event = .ok ()) :
    readEvents missionId d (eventName prior.length :: names) prior
      = readEvents missionId d names (prior ++ [event]) := by
  rw [readEvents, if_neg (not_not.mpr rfl), hread, ok_bind]
  simp [fromSlice_of_canonical (by decide) hbytes, hbytes, hvalid]

variable {missionId component : String}

section Recording

variable {binding : MissionBinding}
  (hargs : ¬(call.contextId = none ∨ (call.planId = none ∧ call.runId ≠ none)))
  (hid : managedIdComponent missionId "mission:" = .ok component)
  (hload : load missionId files = .ok loaded) (hopen : loaded.status.lifecycle = .open)
  (hbinding : call.binding loaded = .ok binding)
include hargs hid hload hopen hbinding

/-- A call on an open mission comes to recording its binding. -/
theorem run_of_load : call.run missionId files =
    (if isRecorded loaded.events binding then pure ⟨missionRecordResultSchema, false, loaded.status⟩
    else do
      let _ ← appendEvent call.now missionId loaded.events .bound (some binding)
      let loaded ← inspect (load missionId)
      return ⟨missionRecordResultSchema, true, loaded.status⟩ : Program _ _ _) files := by
  rw [RecordCall.binding] at hbinding
  rw [RecordCall.run, record, require_bind, if_pos hargs, hid, lift_ok_bind,
    inspect_bind_of_ok hload, require_bind, if_pos hopen, hbinding, lift_ok_bind]

/-- Recording a binding again. -/
theorem record_of_recorded (hold : isRecorded loaded.events binding = true) :
    call.run missionId files
      = (.ok ⟨missionRecordResultSchema, false, loaded.status⟩, files) := by
  rw [run_of_load hargs hid hload hopen hbinding, hold, if_pos rfl]
  rfl

end Recording

end Mission

namespace Mission

section Example

attribute [local instance] Sha256.standard

/-- Normalization as far as it is needed here. -/
@[reducible] def asciiNormalization : UnicodeNormalization where
  isNfc text := (chars text).all (·.toNat < 128)

attribute [local instance] asciiNormalization

def exampleSession : SessionAuthority :=
  ⟨"session:s", "sha256:s", "repository", "base", "refs/heads/main", "base", "runtime", .release,
    .rust, ["demo"]⟩

/-- One session, with every context there could be. -/
def exampleSessions : Sessions where
  load _ := .ok exampleSession
  loadForCleanup _ := .ok exampleSession
  freshness _ := .ok "FRESH"
  loadContext _ id := .ok ⟨id, "sha256:e", "sha256:" ++ id⟩
  loadPlan _ _ := .error (invalid "plan is missing")
  loadRun _ := .error (invalid "run is missing")

def exampleCall (contextId : String) : RecordCall :=
  ⟨1, exampleSessions, "session:s", some contextId, none, none⟩

def exampleBinding (contextId : String) : MissionBinding :=
  ⟨"session:s", some ⟨contextId, "sha256:" ++ contextId, "sha256:e"⟩, none, none⟩

def exampleSpec : ChangeSpec :=
  ⟨changeSpecSchema, "intent", [⟨"R", "requirement"⟩], [], [⟨"A", "criterion"⟩], ⟨[]⟩⟩

def exampleIdentity : MissionIdentity :=
  ⟨missionIdentitySchema, "mission:m",
    "sha256:2ec45435c544ca8962b84e0d76654b88d388e5d4534afeb8a6830c962af85bea",
    "sha256:42c898d97781109de9b4e7482bd9757fe2f91b1c23115a81505721878eb29f82",
    [memberFromSession exampleSession], 1⟩

/-- A mission is opened, then bound to one context, and then to another. -/
def exampleEvent : ℕ → MissionEvent
  | 0 => ⟨missionEventSchema, "mission:m", 0, none, .opened, none,
    "sha256:98c35f29d57273edccbe8331c94fc6dd7028157b710d9f0e3206eca97b8732be", 1⟩
  | 1 => ⟨missionEventSchema, "mission:m", 1,
    some "sha256:98c35f29d57273edccbe8331c94fc6dd7028157b710d9f0e3206eca97b8732be", .bound,
    some (exampleBinding "a"),
    "sha256:a3d618d70bd50d9ae6d5fde7075b0b5431af1870d25d03ede32bcdb44700c4c4", 1⟩
  | _ => ⟨missionEventSchema, "mission:m", 2,
    some "sha256:a3d618d70bd50d9ae6d5fde7075b0b5431af1870d25d03ede32bcdb44700c4c4", .bound,
    some (exampleBinding "b"),
    "sha256:f22f606794781ef691d5b29ae73e002c178ca1cd93271f5d4adb7c61243f540b", 1⟩

def exampleEvents (n : ℕ) : List MissionEvent := (List.range n).map exampleEvent

def exampleRoot : Directory :=
  (Directory.append ∅ "identity.json" (Format.toJson exampleIdentity).bytes).append
    "change-spec.json" (encode exampleSpec)

/-- The files of the first `n` events. -/
def exampleDirectory : ℕ → Directory
  | 0 => ∅
  | n + 1 => (exampleDirectory n).insert (eventName n)
    ⟨(Format.toJson (exampleEvent n)).bytes, default⟩

def exampleLoaded (n : ℕ) : LoadedMission where
  identity := exampleIdentity
  spec := exampleSpec
  events := exampleEvents n
  status := ((deriveStatus exampleIdentity (exampleEvents n)).toOption).getD
    ⟨"", "", "", "", "", "", 0, 0, 0, .open, ""⟩

theorem loadIdentity_example : loadIdentity "mission:m" exampleRoot = .ok exampleIdentity := by
  obtain ⟨bytes, hbytes, hread⟩ : ∃ bytes, canonical exampleIdentity = .ok bytes ∧
      exampleRoot.readFile "identity.json" maxMissionIdentityBytes = .ok bytes :=
    ⟨_, canonical_eq_ok_iff.mpr ⟨by decide, rfl⟩, by decide +kernel⟩
  rw [loadIdentity, hread]
  dsimp only
  rw [fromSlice_of_canonical (by decide) hbytes]
  decide +kernel

theorem loadSpec_example :
    loadSpec exampleIdentity.changeSpecDigest exampleRoot = .ok exampleSpec := by
  decide +kernel

theorem getElem?_exampleDirectory {i n : ℕ} (hi : i < n) (hn : n ≤ 3) :
    (exampleDirectory n)[eventName i]?
      = some ⟨(Format.toJson (exampleEvent i)).bytes, default⟩ := by
  induction n with
  | zero => omega
  | succ n ih =>
    rw [exampleDirectory, ExtTreeMap.getElem?_insert]
    by_cases heq : n = i
    · rw [heq, if_pos (by simp)]
    · rw [if_neg]
      · exact ih (by omega) (by omega)
      · intro hname
        exact heq (eventName_injOn (by omega) (by omega) (Std.LawfulEqCmp.eq_of_compare hname))

variable {n : ℕ}

theorem canonical_exampleEvent (h : n < 3) :
    canonical (exampleEvent n) = .ok (Format.toJson (exampleEvent n)).bytes := by
  have hfits : ∀ n < 3, Format.fits (exampleEvent n) = true := by decide
  exact canonical_eq_ok_iff.mpr ⟨hfits n h, rfl⟩

/-- From the `k`-th event on, when the first `k` have been read. -/
theorem readEvents_example (hn : n ≤ 3) (m : ℕ) : ∀ k, k + m = n →
    readEvents "mission:m" (exampleDirectory n) ((List.range' k m).map eventName) (exampleEvents k)
      = .ok (exampleEvents n) := by
  have hsize : ∀ i < 3, (Format.toJson (exampleEvent i)).bytes.length ≤ maxMissionEventBytes := by
    decide +kernel
  have hvalid : ∀ i < 3,
      validateEvent "mission:m" (exampleEvents i) (exampleEvent i) = .ok () := by decide +kernel
  induction m with
  | zero =>
    rintro k rfl
    rfl
  | succ m ih =>
    intro k hk
    have hlength : (exampleEvents k).length = k := by simp [exampleEvents]
    have hread : (exampleDirectory n).readFile (eventName (exampleEvents k).length)
        maxMissionEventBytes = .ok (Format.toJson (exampleEvent k)).bytes := by
      rw [hlength]
      exact Directory.readFile_eq_ok_iff.mpr
        ⟨_, getElem?_exampleDirectory (by omega) hn, rfl, hsize k (by omega)⟩
    have hstep := readEvents_cons ((List.range' (k + 1) m).map eventName) hread
      (canonical_exampleEvent (by omega)) (hvalid k (by omega))
    have hnext : exampleEvents k ++ [exampleEvent k] = exampleEvents (k + 1) := by
      simp [exampleEvents, range_succ]
    rw [hlength, hnext] at hstep
    rw [List.range'_succ, map_cons, hstep]
    exact ih (k + 1) (by omega)

theorem loadEvents_example (h : n < 3) :
    loadEvents "mission:m" (exampleDirectory (n + 1)) = .ok (exampleEvents (n + 1)) := by
  have hnames : ∀ n < 3, ((exampleDirectory (n + 1)).entries.filter
      fun name ↦ (stripPrefix ".tmp-" name).isNone) = (List.range (n + 1)).map eventName := by
    decide
  rw [loadEvents, hnames n h, if_neg, range_eq_range']
  · exact readEvents_example h (n + 1) 0 (Nat.zero_add _)
  · rw [not_or, maxMissionEvents, length_map, length_range]
    exact ⟨by simp [range_succ], by omega⟩

theorem load_example (h : n < 3) :
    load "mission:m" ⟨exampleRoot, exampleDirectory (n + 1)⟩ = .ok (exampleLoaded (n + 1)) := by
  have hstatus : ∀ n < 3, deriveStatus exampleIdentity (exampleEvents (n + 1))
      = .ok (exampleLoaded (n + 1)).status := by decide +kernel
  rw [load, loadIdentity_example, ok_bind, loadSpec_example, ok_bind, loadEvents_example h, ok_bind,
    hstatus n h]
  rfl

/-- The context that is recorded when there are `n + 1` events. -/
def exampleContext : ℕ → String
  | 0 => "a"
  | _ => "b"

theorem run_example (h : n < 2) :
    (exampleCall (exampleContext n)).run "mission:m" ⟨exampleRoot, exampleDirectory (n + 1)⟩
      = (.ok ⟨missionRecordResultSchema, true, (exampleLoaded (n + 2)).status⟩,
        ⟨exampleRoot, exampleDirectory (n + 2)⟩) := by
  have hid : managedIdComponent "mission:m" "mission:" = .ok "m" := by decide
  have hopen : ∀ n < 2, (exampleLoaded (n + 1)).status.lifecycle = .open := by decide
  have hbinding : ∀ n < 2, (exampleCall (exampleContext n)).binding (exampleLoaded (n + 1))
      = .ok (exampleBinding (exampleContext n)) := by decide
  have hnew : ∀ n < 2, isRecorded (exampleLoaded (n + 1)).events
      (exampleBinding (exampleContext n)) = false := by decide
  have hevent : ∀ n < 2, nextEvent (exampleCall (exampleContext n)).now "mission:m"
      (exampleLoaded (n + 1)).events .bound (some (exampleBinding (exampleContext n))) =
        .ok (exampleEvent (n + 1)) := by
    decide +kernel
  have hname : ∀ n < 3, (exampleDirectory n)[eventName n]? = none := by decide
  have hlength : (exampleLoaded (n + 1)).events.length = n + 1 := by
    simp [exampleLoaded, exampleEvents]
  have happend : appendEvent (exampleCall (exampleContext n)).now "mission:m"
      (exampleLoaded (n + 1)).events .bound (some (exampleBinding (exampleContext n)))
      ⟨exampleRoot, exampleDirectory (n + 1)⟩
      = (.ok (exampleEvent (n + 1)), ⟨exampleRoot, exampleDirectory (n + 2)⟩) := by
    rw [appendEvent, hevent n h, lift_ok_bind, hlength, bind_apply, zoom,
      writeManagedJsonCreateNew_apply (canonical_exampleEvent (by omega)) (hname _ (by omega))]
    rfl
  rw [run_of_load (by simp [exampleCall]) hid (load_example (by omega)) (hopen n h) (hbinding n h),
    hnew n h, if_neg (by decide), bind_of_ok happend]
  exact inspect_bind_of_ok (load_example (n := n + 1) (by omega))

/-- The contexts `a`, `b` and `a` again: all three calls return. -/
theorem collect_example : ∃ results results',
    collect [exampleCall "a", exampleCall "b"] (RecordCall.run "mission:m")
        ⟨exampleRoot, exampleDirectory 1⟩ = (.ok results, ⟨exampleRoot, exampleDirectory 3⟩) ∧
      collect [exampleCall "a", exampleCall "b", exampleCall "a"] (RecordCall.run "mission:m")
        ⟨exampleRoot, exampleDirectory 1⟩ = (.ok results', ⟨exampleRoot, exampleDirectory 3⟩) := by
  have hid : managedIdComponent "mission:m" "mission:" = .ok "m" := by decide
  have hbinding : (exampleCall "a").binding (exampleLoaded 3) = .ok (exampleBinding "a") := by
    decide
  have hfirst : (exampleCall "a").run "mission:m" ⟨exampleRoot, exampleDirectory 1⟩ = _ :=
    run_example (n := 0) (by omega)
  have hsecond : (exampleCall "b").run "mission:m" ⟨exampleRoot, exampleDirectory 2⟩ = _ :=
    run_example (n := 1) (by omega)
  have hagain := record_of_recorded (by simp [exampleCall]) hid
    (load_example (n := 2) (by omega)) (by decide) hbinding (by decide)
  exact ⟨_, _, collect_cons_of_ok hfirst (collect_cons_of_ok hsecond rfl),
    collect_cons_of_ok hfirst (collect_cons_of_ok hsecond (collect_cons_of_ok hagain rfl))⟩

/-- A context, another one, and the first again: all is recorded, and the other one is reported. -/
theorem reported_of_repeated : ∃ (missionId : String) (calls : List RecordCall) (call : RecordCall)
    (files files' : MissionFiles) (results : List MissionRecordResult)
    (before after : LoadedMission) (binding : MissionBinding),
    collect (calls ++ [call]) (RecordCall.run missionId) files = (.ok results, files') ∧
      load missionId (collect calls (RecordCall.run missionId) files).2 = .ok before ∧
      load missionId files' = .ok after ∧ call.binding before = .ok binding ∧
      reported after call.sessionId ≠ [binding] := by
  obtain ⟨results, results', htwo, hthree⟩ := collect_example
  refine ⟨"mission:m", [exampleCall "a", exampleCall "b"], exampleCall "a", _, _, results',
    exampleLoaded 3, exampleLoaded 3, exampleBinding "a", hthree, ?_,
    load_example (n := 2) (by omega), by decide, by decide⟩
  rw [htwo]
  exact load_example (n := 2) (by omega)

/-- The same calls: the binding of the last is not reported, since it was recorded before and was
not reported then. -/
theorem latestBindings_iff_of_repeated : ∃ results,
    collect [exampleCall "a", exampleCall "b", exampleCall "a"] (RecordCall.run "mission:m")
        ⟨exampleRoot, exampleDirectory 1⟩ = (.ok results, ⟨exampleRoot, exampleDirectory 3⟩) ∧
      ∃ before after binding, (exampleCall "a").binding before = .ok binding ∧
        (reported after "session:s" = [binding] ↔
          isRecorded before.events binding = false ∨ reported before "session:s" = [binding]) := by
  obtain ⟨-, results, -, hthree⟩ := collect_example
  obtain ⟨before, after, binding, -, -, hbinding, hiff⟩ :=
    latestBindings_iff [exampleCall "a", exampleCall "b"] [] hthree nofun
  exact ⟨results, hthree, before, after, binding, hbinding, hiff⟩

end Example

end Mission

end Codeclew
