import Codeclew.Adapter.Registry
import Codeclew.Triple

/-!
# Streams of adapters

What a consumer can rely on once an analysis has succeeded. The invariant of a run (`Conforms`) is
about the events that were offered to the consumer: they are shards numbered in order whose facts
increase, then at most one completion, and the check has counted all of them. Nothing in it depends
on the answers of the consumer.

So the consumer has accepted a whole stream exactly if it has refused nothing
(`analyzeGenerationInto_whole`): an adapter that ignores a refusal and goes on still succeeds, and
the consumer misses what it refused. The counters of the check are machine integers, which adds that
the shards and the facts are not too many for them.
-/

namespace Codeclew.Adapter

open Json Cas Generation List Program

/-! ## Whole streams -/

def facts (shards : List FactShard) : List FactRecord := shards.flatMap (·.facts)

/-- The events that the consumer accepted. -/
def accepted (offered : List Offer) : List AnalysisEvent :=
  (offered.filter (·.answer.isOk)).map (·.event)

/-- The shards among events. -/
def shardsOf (events : List AnalysisEvent) : List FactShard :=
  events.filterMap fun
    | .factShard shard => some shard
    | .attemptComplete _ => none

/-- Shards numbered from 0 whose facts increase and are of declared capabilities, and a completion
that counts them. -/
structure Whole (capabilities : List CapabilityUri) (complete : AnalysisAttemptComplete)
    (events : List AnalysisEvent) : Prop where
  split : ∃ shards : List FactShard, events = shards.map .factShard ++ [.attemptComplete complete] ∧
    (∀ (i : ℕ) (shard : FactShard), shards[i]? = some shard → shard.sequence.toNat = i) ∧
    (facts shards).Pairwise (·.factKey < ·.factKey) ∧
    (∀ fact ∈ facts shards, fact.domainUri ∈ capabilities) ∧
    complete.factCount.toNat = (facts shards).length

/-! ## The sink that checks -/

/-- Facts that a sink has seen: they increase up to the last key, and are of declared
capabilities. -/
structure Seen (capabilities : List CapabilityUri) (seen : List FactRecord)
    (sink : ConformanceSink) : Prop where
  allowed : sink.allowedCapabilities = some capabilities
  increasing : seen.Pairwise (·.factKey < ·.factKey)
  behind : ∀ fact ∈ seen, ∃ last ∈ sink.lastFactKey, fact.factKey ≤ last
  declared : ∀ fact ∈ seen, fact.domainUri ∈ capabilities

/-- A sink that differs from another in the last key only. -/
def SameCounts (sink sink' : ConformanceSink) : Prop :=
  sink' = { sink with lastFactKey := sink'.lastFactKey }

section Checks

variable {capabilities : List CapabilityUri} {seen : List FactRecord} {sink : ConformanceSink}

theorem SameCounts.remember {sink' : ConformanceSink} (h : SameCounts sink sink')
    (key : String) : SameCounts sink { sink' with lastFactKey := some key } := by
  rw [SameCounts] at h ⊢
  rw [h]

theorem Seen.of_append {facts : List FactRecord} (h : Seen capabilities (seen ++ facts) sink) :
    Seen capabilities seen sink where
  allowed := h.allowed
  increasing := (pairwise_append.mp h.increasing).1
  behind fact hfact := h.behind fact (mem_append_left _ hfact)
  declared fact hfact := h.declared fact (mem_append_left _ hfact)

theorem Seen.concat {fact : FactRecord} (h : Seen capabilities seen sink)
    (hlast : ∀ last ∈ sink.lastFactKey, last < fact.factKey)
    (hdeclared : fact.domainUri ∈ capabilities) :
    Seen capabilities (seen ++ [fact]) { sink with lastFactKey := some fact.factKey } := by
  have hbefore : ∀ other ∈ seen, other.factKey < fact.factKey := by
    intro other hother
    obtain ⟨last, hmem, hle⟩ := h.behind other hother
    exact hle.trans_lt (hlast last hmem)
  refine ⟨h.allowed, ?_, fun other hother ↦ ⟨fact.factKey, rfl, ?_⟩, fun other hother ↦ ?_⟩
  · exact pairwise_append.mpr ⟨h.increasing, pairwise_singleton _ _,
      fun other hother _ hfact ↦ mem_singleton.mp hfact ▸ hbefore other hother⟩
  · obtain hother | hother := mem_append.mp hother
    · exact (hbefore other hother).le
    · rw [mem_singleton.mp hother]
  · obtain hother | hother := mem_append.mp hother
    · exact h.declared other hother
    · rwa [mem_singleton.mp hother]

theorem acceptFact_spec (fact : FactRecord) :
    Program.Spec (fun s ↦ SameCounts sink s ∧ Seen capabilities seen s)
      (ConformanceSink.acceptFact fact)
      (fun _ s ↦ SameCounts sink s ∧ Seen capabilities (seen ++ [fact]) s)
      fun s ↦ SameCounts sink s ∧ Seen capabilities seen s := by
  intro s hs
  have hkeep : ∀ s', s' = s → SameCounts sink s' ∧ Seen capabilities seen s' := by
    rintro s' rfl
    exact hs
  rw [ConformanceSink.acceptFact, get_bind]
  refine Program.Spec.bind (P := (· = s)) (.require fun _ h _ ↦ hkeep _ h) (fun _ ↦
    .bind (.require fun _ h _ ↦ hkeep _ h.2) fun _ ↦
      .bind (.lift fun _ h ↦ hkeep _ h.2.2) fun _ ↦ .modify ?_) s rfl
  rintro s' ⟨-, hallowed, ⟨-, hlast⟩, rfl⟩
  exact ⟨hs.1.remember _, hs.2.concat hlast (hallowed _ hs.2.allowed)⟩

/-- The facts of a shard are checked one after the other; what was checked stays true if one of them
is refused. -/
theorem acceptFacts_spec (facts : List FactRecord) :
    Program.Spec (fun s ↦ SameCounts sink s ∧ Seen capabilities seen s)
      (Program.each facts ConformanceSink.acceptFact)
      (fun _ s ↦ SameCounts sink s ∧ Seen capabilities (seen ++ facts) s)
      fun s ↦ SameCounts sink s ∧ Seen capabilities seen s := by
  induction facts generalizing seen with
  | nil => exact .pure fun s hs ↦ by simpa using hs
  | cons fact facts ih =>
    rw [each_cons]
    refine (acceptFact_spec fact).bind fun _ ↦
      ih.weaken (fun _ ↦ id) (fun _ s hs ↦ ?_) fun s hs ↦ ?_
    · simpa using hs
    · exact ⟨hs.1, hs.2.of_append⟩

/-- What an accepted event does to a sink that has seen some facts. -/
inductive Accepted (capabilities : List CapabilityUri) (seen : List FactRecord)
    (sink : ConformanceSink) : AnalysisEvent → ConformanceSink → Prop
  | shard {shard : FactShard} {conformance : ConformanceSink} (hnone : sink.complete = none)
      (hsequence : shard.sequence = sink.nextSequence) (hfacts : shard.facts ≠ [])
      (hsame : SameCounts sink conformance)
      (hseen : Seen capabilities (seen ++ shard.facts) conformance) :
      Accepted capabilities seen sink (.factShard shard) { conformance with
        nextSequence := conformance.nextSequence + 1
        factCount := conformance.factCount + UInt64.ofNat shard.facts.length }
  | complete {complete : AnalysisAttemptComplete} (hnone : sink.complete = none) :
      Accepted capabilities seen sink (.attemptComplete complete)
        { sink with complete := some complete }

theorem accept_spec (hseen : Seen capabilities seen sink) (event : AnalysisEvent) :
    Program.Spec (· = sink) (ConformanceSink.accept event)
      (fun _ s ↦ Accepted capabilities seen sink event s)
      fun s ↦ SameCounts sink s ∧ Seen capabilities seen s := by
  have hkeep : ∀ s, s = sink → SameCounts sink s ∧ Seen capabilities seen s := by
    rintro s rfl
    exact ⟨rfl, hseen⟩
  intro s hs
  obtain rfl : s = sink := hs
  rw [ConformanceSink.accept, get_bind]
  refine Program.Spec.bind (P := (· = s)) (.require fun _ h _ ↦ hkeep _ h) (fun _ ↦ ?_) s rfl
  rintro t ⟨hopen, rfl⟩
  have hnone := Option.isNone_iff_eq_none.mp hopen
  cases event with
  | factShard shard =>
    rw [ConformanceSink.acceptOpen, ConformanceSink.acceptShard, get_bind]
    refine Program.Spec.bind (P := (· = t)) (.require fun _ h _ ↦ hkeep _ h) (fun _ ↦ ?_) t rfl
    rintro u ⟨⟨hsequence, hfacts⟩, rfl⟩
    refine Program.Spec.bind (P := (· = u)) (.pre (acceptFacts_spec shard.facts) hkeep) (fun _ ↦
      .modify fun v hv ↦ ?_) u rfl
    exact .shard hnone hsequence hfacts hv.1 hv.2
  | attemptComplete complete =>
    refine Program.Spec.bind (P := (· = t)) (.lift fun _ h ↦ hkeep _ h) (fun _ ↦
      .bind (.lift fun _ h ↦ hkeep _ h.2) fun _ ↦ .modify ?_) t rfl
    rintro u ⟨-, -, rfl⟩
    exact .complete hnone

end Checks

/-! ## What was offered -/

variable {δ : Type}

/-- The invariant of a run: the events that were offered to the consumer are these shards, and then
the completion if there is one, and the check has counted them. -/
structure Conforms (capabilities : List CapabilityUri) (shards : List FactShard)
    (sink : ForwardingAnalysisSink δ) : Prop where
  events : sink.offered.map (·.event) =
    shards.map .factShard ++ (sink.conformance.complete.map .attemptComplete).toList
  numbered : ∀ (i : ℕ) (shard : FactShard), shards[i]? = some shard →
    shard.sequence = UInt32.ofNat i
  next : sink.conformance.nextSequence = UInt32.ofNat shards.length
  count : sink.conformance.factCount = UInt64.ofNat (facts shards).length
  nonempty : ∀ shard ∈ shards, shard.facts ≠ []
  seen : Seen capabilities (facts shards) sink.conformance

theorem conforms_start (capabilities : List CapabilityUri) (downstream : δ) :
    Conforms capabilities [] ⟨.forCapabilities capabilities, downstream, []⟩ where
  events := rfl
  numbered := by simp
  next := rfl
  count := rfl
  nonempty := by simp
  seen := ⟨rfl, .nil, by simp [facts], by simp [facts]⟩

section Step

variable {capabilities : List CapabilityUri} {shards : List FactShard}
  {sink : ForwardingAnalysisSink δ} {conformance : ConformanceSink}

section

variable (h : Conforms capabilities shards sink)
include h

/-- What a refusal by the check changes does not matter. -/
theorem Conforms.of_refused (hsame : SameCounts sink.conformance conformance)
    (hseen : Seen capabilities (facts shards) conformance) :
    Conforms capabilities shards { sink with conformance } where
  events := by rw [h.events, hsame]
  numbered := h.numbered
  next := by rw [← h.next, hsame]
  count := by rw [← h.count, hsame]
  nonempty := h.nonempty
  seen := hseen

/-- A shard that the check let through is the next one, whatever the consumer answers. -/
theorem Conforms.offer_shard {shard : FactShard} (hnone : sink.conformance.complete = none)
    (hsequence : shard.sequence = sink.conformance.nextSequence) (hfacts : shard.facts ≠ [])
    (hsame : SameCounts sink.conformance conformance)
    (hseen : Seen capabilities (facts shards ++ shard.facts) conformance) (downstream : δ)
    (answer : Except ClewError Unit) :
    Conforms capabilities (shards ++ [shard]) {
      conformance := { conformance with
        nextSequence := conformance.nextSequence + 1
        factCount := conformance.factCount + UInt64.ofNat shard.facts.length }
      downstream
      offered := sink.offered ++ [⟨.factShard shard, answer⟩] } := by
  have happend : facts (shards ++ [shard]) = facts shards ++ shard.facts := by simp [facts]
  have hcomplete : conformance.complete = none := by rw [hsame, hnone]
  have hnext : conformance.nextSequence = UInt32.ofNat shards.length := by rw [hsame, h.next]
  have hcount : conformance.factCount = UInt64.ofNat (facts shards).length := by rw [hsame, h.count]
  refine ⟨?_, fun i other hother ↦ ?_, ?_, ?_, ?_, ?_⟩
  · rw [map_append, h.events, hnone, hcomplete]
    simp
  · rw [List.getElem?_append] at hother
    split_ifs at hother with hi
    · exact h.numbered i other hother
    · rw [List.getElem?_singleton] at hother
      obtain ⟨hzero, heq⟩ := Option.ite_none_right_eq_some.mp hother
      obtain rfl := Option.some.inj heq
      rw [hsequence, h.next, show i = shards.length by omega]
  · rw [hnext, length_append, UInt32.ofNat_add]
    rfl
  · rw [hcount, happend, length_append, UInt64.ofNat_add]
  · intro other hother
    obtain hother | hother := mem_append.mp hother
    · exact h.nonempty other hother
    · rwa [mem_singleton.mp hother]
  · rw [happend]
    exact ⟨hseen.allowed, hseen.increasing, hseen.behind, hseen.declared⟩

theorem Conforms.offer_complete (hnone : sink.conformance.complete = none)
    (complete : AnalysisAttemptComplete) (downstream : δ) (answer : Except ClewError Unit) :
    Conforms capabilities shards {
      conformance := { sink.conformance with complete := some complete }
      downstream
      offered := sink.offered ++ [⟨.attemptComplete complete, answer⟩] } where
  events := by
    rw [map_append, h.events, hnone]
    simp
  numbered := h.numbered
  next := h.next
  count := h.count
  nonempty := h.nonempty
  seen := ⟨h.seen.allowed, h.seen.increasing, h.seen.behind, h.seen.declared⟩

end

/-- **One call of the adapter** keeps the invariant, whatever the answers are. -/
theorem exists_conforms_accept (consume : AnalysisEvent → Program δ ClewError Unit)
    (event : AnalysisEvent) (sink : ForwardingAnalysisSink δ)
    (h : ∃ shards, Conforms capabilities shards sink) :
    ∃ shards, Conforms capabilities shards
      (ForwardingAnalysisSink.accept consume event sink).2 := by
  obtain ⟨shards, h⟩ := h
  have hchecked := accept_spec h.seen event sink.conformance rfl
  rw [ForwardingAnalysisSink.accept, bind_apply, Program.zoom]
  rcases hanswer : ConformanceSink.accept event sink.conformance with ⟨error | _, conformance⟩ <;>
    rw [hanswer] at hchecked
  · exact ⟨shards, h.of_refused hchecked.1 hchecked.2⟩
  · cases hchecked with
    | shard hnone hsequence hfacts hsame hseen =>
      exact ⟨_, h.offer_shard hnone hsequence hfacts hsame hseen _ _⟩
    | complete hnone => exact ⟨shards, h.offer_complete hnone _ _ _⟩

end Step

/-! ## A whole analysis -/

/-- The consumer refuses nothing, and the counters of the check suffice. -/
structure Kept (offered : List Offer) : Prop where
  answers : ∀ offer ∈ offered, offer.answer.isOk = true
  shards : (shardsOf (offered.map (·.event))).length ≤ 2 ^ 32
  facts : (facts (shardsOf (offered.map (·.event)))).length < 2 ^ 64

variable {offered : List Offer}

theorem accepted_of_kept (h : ∀ offer ∈ offered, offer.answer.isOk = true) :
    accepted offered = offered.map (·.event) := by
  rw [accepted, filter_eq_self.mpr h]

theorem shardsOf_append_complete (shards : List FactShard) (complete : AnalysisAttemptComplete) :
    shardsOf (shards.map .factShard ++ [.attemptComplete complete]) = shards := by
  simp [shardsOf]

theorem facts_cons (shard : FactShard) (shards : List FactShard) :
    facts (shard :: shards) = shard.facts ++ facts shards := rfl

variable {shards all : List FactShard}

theorem length_facts_le (h : shards.Sublist all) :
    (facts shards).length ≤ (facts all).length :=
  (h.flatMap _).length_le

/-- Shards that are not empty cannot be left out without facts missing. -/
theorem eq_of_sublist_of_length_facts (h : shards.Sublist all)
    (hnonempty : ∀ shard ∈ all, shard.facts ≠ [])
    (hlength : (facts shards).length = (facts all).length) : shards = all := by
  induction h with
  | slnil => rfl
  | @cons shards all shard hsub ih =>
    have hpos := length_pos_iff.mpr (hnonempty shard mem_cons_self)
    have hle := length_facts_le hsub
    rw [facts_cons, length_append] at hlength
    omega
  | @cons_cons shards all shard hsub ih =>
    rw [facts_cons, facts_cons, length_append, length_append] at hlength
    rw [ih (fun other hother ↦ hnonempty other (mem_cons_of_mem _ hother)) (by omega)]

variable {complete : AnalysisAttemptComplete}

theorem ConformanceSink.finish_eq_ok_iff {sink : ConformanceSink} : sink.finish = .ok complete ↔
      sink.complete = some complete ∧ complete.factCount = sink.factCount := by
  rw [ConformanceSink.finish]
  rcases sink.complete with _ | stored
  · simp
  · simp only [ensure_bind_eq_ok_iff]
    constructor
    · rintro ⟨hcount, hok⟩
      obtain rfl := Except.ok.inj hok
      exact ⟨rfl, hcount⟩
    · rintro ⟨hsome, hcount⟩
      obtain rfl := Option.some.inj hsome
      exact ⟨hcount, rfl⟩

/-- What a successful analysis has offered: one completion, after all shards that it counts. -/
theorem of_analyzeGenerationInto {registry : AdapterRegistry} {request : AnalyzeGenerationRequest}
    {consume : AnalysisEvent → Program δ ClewError Unit} {downstream downstream' : δ}
    (h : registry.analyzeGenerationInto request consume downstream =
      (.ok complete, downstream', offered)) :
    ∃ (registered : RegisteredAdapter) (sink : ForwardingAnalysisSink δ) (shards : List FactShard),
      registry.adapterOf request = .ok registered ∧
        Conforms registered.handshake.capabilities shards sink ∧ sink.offered = offered ∧
          sink.conformance.complete = some complete ∧
            complete.factCount = sink.conformance.factCount := by
  rw [AdapterRegistry.analyzeGenerationInto] at h
  split at h
  · cases (Prod.mk.inj h).1
  · next registered hregistered =>
    obtain ⟨hresult, hrest⟩ := Prod.mk.inj h
    obtain ⟨_, -, hfinish⟩ := bind_eq_ok_iff.mp hresult
    obtain ⟨hcomplete, hcount⟩ := ConformanceSink.finish_eq_ok_iff.mp hfinish
    obtain ⟨shards, hconforms⟩ := Interaction.run_invariant (exists_conforms_accept consume)
      (registered.analyzeGeneration request)
      ⟨[], conforms_start registered.handshake.capabilities downstream⟩
    exact ⟨registered, _, shards, hregistered, hconforms, (Prod.mk.inj hrest).2, hcomplete, hcount⟩

/-- **A stream reaches the consumer whole if the consumer refuses nothing of it**, and otherwise
never does, the counters apart: with fewer than 2 ^ 64 facts, the completion counts what is
missing. -/
theorem analyzeGenerationInto_whole (registry : AdapterRegistry)
    (request : AnalyzeGenerationRequest)
    (consume : AnalysisEvent → Program δ ClewError Unit) (downstream downstream' : δ)
    (offered : List Offer) (complete : AnalysisAttemptComplete)
    (h : registry.analyzeGenerationInto request consume downstream =
      (.ok complete, downstream', offered)) :
    ∃ registered, registry.adapterOf request = .ok registered ∧
      (Kept offered → Whole registered.handshake.capabilities complete (accepted offered)) ∧
      (Whole registered.handshake.capabilities complete (accepted offered) →
        (facts (shardsOf (offered.map (·.event)))).length < 2 ^ 64 → Kept offered) := by
  obtain ⟨registered, sink, shards, hregistered, hconforms, rfl, hcomplete, hcount⟩ :=
    of_analyzeGenerationInto h
  have hevents : sink.offered.map (·.event) =
      shards.map .factShard ++ [.attemptComplete complete] := by
    rw [hconforms.events, hcomplete]
    rfl
  have hshards : shardsOf (sink.offered.map (·.event)) = shards := by
    rw [hevents, shardsOf_append_complete]
  have htotal : complete.factCount = UInt64.ofNat (facts shards).length :=
    hcount.trans hconforms.count
  refine ⟨registered, hregistered, fun hkept ↦ ⟨shards, ?_, fun i shard hshard ↦ ?_,
    hconforms.seen.increasing, hconforms.seen.declared, ?_⟩, fun hwhole hfew ↦ ?_⟩
  · rw [accepted_of_kept hkept.answers, hevents]
  · have hi : i < 2 ^ 32 := by
      have hlength := hkept.shards
      rw [hshards] at hlength
      exact (List.getElem?_eq_some_iff.mp hshard).1.trans_le hlength
    rw [hconforms.numbered i shard hshard, UInt32.toNat_ofNat_of_lt' hi]
  · have hfew := hkept.facts
    rw [hshards] at hfew
    rw [htotal, UInt64.toNat_ofNat_of_lt' hfew]
  · rw [hshards] at hfew
    obtain ⟨kept, hkept, hnumbered, -, -, hlength⟩ := hwhole
    rw [htotal, UInt64.toNat_ofNat_of_lt' hfew] at hlength
    -- what was accepted is part of what was offered, and has all its facts
    have hsub : (accepted sink.offered).Sublist (sink.offered.map (·.event)) :=
      filter_sublist.map _
    have hall : kept = shards := by
      refine eq_of_sublist_of_length_facts ?_ hconforms.nonempty hlength.symm
      rw [← shardsOf_append_complete kept complete, ← hkept, ← hshards]
      exact hsub.filterMap _
    have hanswers : ∀ offer ∈ sink.offered, offer.answer.isOk = true := by
      refine length_filter_eq_length_iff.mp ?_
      rw [← length_map (f := Offer.event), ← accepted, hkept, hall, ← hevents, length_map]
    refine ⟨hanswers, ?_, hshards.symm ▸ hfew⟩
    rw [hshards, ← hall]
    by_contra hmany
    obtain ⟨shard, hshard⟩ : ∃ shard, kept[2 ^ 32]? = some shard :=
      ⟨_, List.getElem?_eq_getElem (not_le.mp hmany)⟩
    exact absurd (hnumbered _ shard hshard) (ne_of_lt shard.sequence.toNat_lt)

/-! ## An adapter that ignores refusals -/

section Example

def someObject : CasObject where
  schema := casObjectSchema
  objectSchema := "codeclew-receipt/1"
  digest := "sha256:aaaaaaaaaaaaaaaaaaaaaaaaaaaaaaaaaaaaaaaaaaaaaaaaaaaaaaaaaaaaaaaa"
  size := 0

def someRequest : AnalyzeGenerationRequest where
  schema := analysisRequestSchema
  attemptId := "attempt"
  generationKey := someObject.digest
  capability := analysisFacts
  compilation := {
    schema := compilationSchema
    compilationId := "main"
    languageUri := ⟨"language:kotlin", by decide⟩
    sourceRoots := [⟨"src", someObject⟩]
    generatedSourceRoots := []
    classpath := []
    toolchain := someObject
    plugins := []
    canonicalOptions := someObject
    dependencyCompilationIds := []
    operations := [] }
  derivedInputManifest := someObject
  parentGeneration := none

def someShard : FactShard :=
  ⟨0, [⟨"a", analysisFacts, someObject⟩, ⟨"b", analysisFacts, someObject⟩]⟩

def lastShard : FactShard := ⟨1, [⟨"c", analysisFacts, someObject⟩]⟩

def someComplete : AnalysisAttemptComplete := ⟨someObject.digest, someObject, 3⟩

/-- One adapter, which emits two shards and a completion and does not look at the answers. -/
def carelessRegistry : AdapterRegistry where
  adapters := [{
    handshake := {
      languages := [⟨"language:kotlin", by decide⟩]
      capabilities := [analysisFacts]
      toolchains := [⟨someObject.digest⟩] }
    analyzeGeneration _ := .call (.factShard someShard) fun _ ↦ .call (.factShard lastShard) fun _ ↦
      .call (.attemptComplete someComplete) fun _ ↦ .done (.ok ()) }]

/-- A consumer that takes everything. -/
def takeAll (_ : AnalysisEvent) : Program Unit ClewError Unit := pure ()

/-- A consumer that has no room for shards. -/
def refuseShards : AnalysisEvent → Program Unit ClewError Unit
  | .factShard _ => .fail ⟨.resourceLimit, "no space left"⟩
  | .attemptComplete _ => pure ()

theorem analyzeGenerationInto_whole_takeAll :
    ∃ registered offered, carelessRegistry.adapterOf someRequest = .ok registered ∧
      carelessRegistry.analyzeGenerationInto someRequest takeAll () =
        (.ok someComplete, (), offered) ∧
      Whole registered.handshake.capabilities someComplete (accepted offered) := by
  have hrun : carelessRegistry.analyzeGenerationInto someRequest takeAll () = (.ok someComplete, (),
      [⟨.factShard someShard, .ok ()⟩, ⟨.factShard lastShard, .ok ()⟩,
        ⟨.attemptComplete someComplete, .ok ()⟩]) := by
    decide
  obtain ⟨registered, hregistered, hwhole, -⟩ := analyzeGenerationInto_whole _ _ _ _ _ _ _ hrun
  exact ⟨registered, _, hregistered, hrun, hwhole ⟨by decide, by decide, by decide⟩⟩

/-- The analysis succeeds, with a completion that counts facts the consumer never took. -/
theorem analyzeGenerationInto_refuseShards :
    ∃ offered, carelessRegistry.analyzeGenerationInto someRequest refuseShards () =
        (.ok someComplete, (), offered) ∧
      ∀ capabilities, ¬Whole capabilities someComplete (accepted offered) := by
  refine ⟨[⟨.factShard someShard, .error ⟨.resourceLimit, "no space left"⟩⟩,
    ⟨.factShard lastShard, .error ⟨.resourceLimit, "no space left"⟩⟩,
    ⟨.attemptComplete someComplete, .ok ()⟩], by decide, ?_⟩
  rintro capabilities ⟨shards, hevents, -, -, -, hcount⟩
  have hlength := congrArg List.length hevents
  rw [show List.length _ = 1 from rfl, length_append, length_map,
    length_singleton] at hlength
  obtain rfl : shards = [] := length_eq_zero_iff.mp (by omega)
  exact absurd hcount (by decide)

end Example

end Codeclew.Adapter
