import Codeclew.AspNetCore.Boundaries
import Codeclew.Spring.Analyze
import Codeclew.Spring.Explicit

/-!
# Coverage of framework modules

Spring's report is complete only if the interpretation met no boundary. The report on an action of
ASP.NET Core has the coverage of its input, whatever is left open about the routes, so that it may
claim to be complete and list boundaries.
-/

namespace Codeclew

open Jvm Clr

namespace AspNetCore

variable [Uppercase] {facts : ClrAttributeFacts}

/-- Checked facts are reported with the coverage they come with, and with what is left open about
the routes if they are about an action. -/
theorem exists_analyze (digests : Digests ClrAttributeFacts) (h : facts.validate = .ok ()) :
    ∃ metadata, analyze digests facts = .ok metadata ∧
      metadata.derivation.coverage = facts.coverage.status ∧
      ∀ b, b ∈ metadata.boundaries ↔ b ∈ facts.boundaries ∨
        isController facts = true ∧ isAction facts = true ∧ Noted facts b := by
  refine ⟨_, by rw [analyze, h]; rfl, rfl, fun b ↦ ?_⟩
  have hgiven : b ∈ KeyedSet.ofList id facts.boundaries ↔ b ∈ facts.boundaries :=
    KeyedSet.mem_ofList_of_injOn Function.injective_id.injOn
  rw [discover, ← and_assoc]
  split
  · next haction =>
    rw [mem_actionEntries_iff (ClrAttributeFacts.length_attributes_of_validate h), hgiven,
      and_iff_right haction]
  · next haction => rw [hgiven, or_iff_left fun hnoted ↦ haction hnoted.1]

omit [Uppercase] in
/-- A complete report has no boundaries exactly if nothing is left open about the routes. -/
theorem honest_analyze_iff {metadata : AspNetCoreMetadata}
    (hstatus : facts.coverage.status = "COMPLETE" ↔ facts.boundaries = [])
    (hcoverage : metadata.derivation.coverage = facts.coverage.status)
    (hboundaries : ∀ b, b ∈ metadata.boundaries ↔ b ∈ facts.boundaries ∨
      isController facts = true ∧ isAction facts = true ∧ Noted facts b) :
    Honest facts.coverage.status facts.boundaries metadata.derivation.coverage
        metadata.boundaries ↔
      (facts.coverage.status = "COMPLETE" → isController facts = true → isAction facts = true →
        ∀ code, ¬Noted facts code) := by
  rw [Honest, hcoverage]
  constructor
  · rintro ⟨hcomplete, -⟩ hstatus hcontroller haction code hnoted
    have hmem := (hboundaries code).mpr (.inr ⟨hcontroller, haction, hnoted⟩)
    rw [(hcomplete hstatus).1] at hmem
    cases hmem
  · intro hopen
    refine ⟨fun hcomplete ↦ ⟨List.eq_nil_iff_forall_not_mem.mpr fun b hb ↦ ?_, hcomplete⟩,
      fun b hb ↦ (hboundaries b).mpr (.inl hb)⟩
    rcases (hboundaries b).mp hb with hgiven | ⟨hcontroller, haction, hnoted⟩
    · rw [hstatus.mp hcomplete] at hgiven
      cases hgiven
    · exact hopen hcomplete hcontroller haction b hnoted

end AspNetCore

section Coverage

variable [AspNetCore.Uppercase]

/-- The reports on checked facts are honest for Spring, and for ASP.NET Core if the input is not
complete, or is not about an action, or leaves nothing open about its routes. Boundaries of the
input are kept by both. -/
theorem frameworkCoverage_honest_iff (springDigests : Digests AnnotationFacts)
    (aspNetCoreDigests : Digests ClrAttributeFacts) :
    (∀ facts : AnnotationFacts, facts.validate = .ok () → ∃ metadata derivation,
      Spring.analyze springDigests facts = .ok metadata ∧ metadata.derivation = some derivation ∧
      Honest facts.coverage.status facts.boundaries derivation.coverage metadata.boundaries) ∧
    ∀ facts : ClrAttributeFacts, facts.validate = .ok () → ∃ metadata,
      AspNetCore.analyze aspNetCoreDigests facts = .ok metadata ∧
      (Honest facts.coverage.status facts.boundaries metadata.derivation.coverage
          metadata.boundaries ↔
        (facts.coverage.status = "COMPLETE" → AspNetCore.isController facts = true →
          AspNetCore.isAction facts = true → ∀ code, ¬AspNetCore.Noted facts code)) ∧
      ∀ b ∈ facts.boundaries, b ∈ metadata.boundaries := by
  constructor
  · intro facts hvalid
    exact ⟨_, _, by rw [Spring.analyze, hvalid]; rfl, rfl,
      Spring.honest_analyzeValidated facts _ _ _ rfl⟩
  · intro facts hvalid
    obtain ⟨metadata, hmetadata, hcoverage, hboundaries⟩ :=
      AspNetCore.exists_analyze aspNetCoreDigests hvalid
    exact ⟨metadata, hmetadata, AspNetCore.honest_analyze_iff
      (ClrAttributeFacts.complete_iff_of_validate hvalid) hcoverage hboundaries,
      fun b hb ↦ (hboundaries b).mpr (.inl hb)⟩

end Coverage

section Examples

attribute [local instance] AspNetCore.Uppercase.ascii

/-- A route attribute with the given template. -/
def exampleRoute (template : String) : ClrAttributeUse where
  attributeType := AspNetCore.routeAttribute
  attributeBases := []
  attributeInterfaces := [AspNetCore.routeTemplateProvider]
  constructorArguments := [.primitive (some "string") (some template)]
  namedArguments := ∅
  constructorParameters := ["template"]

/-- A method that a controller with the given accessibility routes to. -/
def exampleAction (accessibility : String) : ClrAttributeFacts where
  schema := attributeSchema
  authority := attributeAuthority
  declaration := "method:class:Orders.OrdersController#Save()V"
  method := ⟨"Save", "PUBLIC", false, false, false, [exampleRoute "save"]⟩
  containingType := ⟨"class:Orders.OrdersController", "OrdersController", accessibility, false,
    false, false, [exampleRoute "api/orders"]⟩
  overriddenAttributes := []
  boundaries := []
  coverage := ⟨"COMPLETE", attributeScope⟩

/-- Nothing is left open about the routes of a public controller. -/
theorem frameworkCoverage_honest_public :
    ∃ springDigests aspNetCoreDigests,
      (∃ metadata derivation, Spring.analyze springDigests Spring.ordersFacts = .ok metadata ∧
        metadata.derivation = some derivation ∧
        Honest "COMPLETE" [] derivation.coverage metadata.boundaries) ∧
      ∃ metadata, AspNetCore.analyze aspNetCoreDigests (exampleAction "PUBLIC") = .ok metadata ∧
        Honest "COMPLETE" [] metadata.derivation.coverage metadata.boundaries := by
  obtain ⟨hspring, haction⟩ := frameworkCoverage_honest_iff ⟨"implementation", fun _ ↦ "input"⟩
    ⟨"implementation", fun _ ↦ "input"⟩
  obtain ⟨metadata, hmetadata, hhonest, -⟩ := haction (exampleAction "PUBLIC") (by decide)
  refine ⟨_, _, hspring Spring.ordersFacts (by decide), metadata, hmetadata,
    hhonest.mpr fun _ _ _ code hnoted ↦ ?_⟩
  have hlength :
    (exampleAction "PUBLIC").containingType.attributes.length ≤ maxAttributes := by decide
  have hnone : (AspNetCore.actionEntries (exampleAction "PUBLIC") []).2 = [] := by decide
  have hmem : code ∈ (AspNetCore.actionEntries (exampleAction "PUBLIC") []).2 :=
    (AspNetCore.mem_actionEntries_iff hlength).mpr (.inr hnoted)
  rw [hnone] at hmem
  cases hmem

/-- The report on a controller that is not public claims to be complete, and names a boundary. -/
theorem aspNetCore_complete_with_boundary : (exampleAction "INTERNAL").validate = .ok () ∧
    ∀ digests, ∃ metadata,
      AspNetCore.analyze digests (exampleAction "INTERNAL") = .ok metadata ∧
      metadata.derivation.coverage = "COMPLETE" ∧
      metadata.boundaries = ["CONTROLLER_DISCOVERY_REQUIRES_CUSTOM_FEATURE_PROVIDER"] := by
  have hvalid : (exampleAction "INTERNAL").validate = .ok () := by decide
  have hfound : (AspNetCore.discover (exampleAction "INTERNAL") []).2 =
      ["CONTROLLER_DISCOVERY_REQUIRES_CUSTOM_FEATURE_PROVIDER"] := by decide
  refine ⟨hvalid, fun digests ↦ ⟨_, by rw [AspNetCore.analyze, hvalid]; rfl, rfl, hfound⟩⟩

end Examples

end Codeclew
