import Codeclew.AspNetCore.Actions

/-!
# Boundaries of an action

`Noted` says what is left open about the routes of an action, in terms of the attributes on it and
on its controller. The boundaries that are noted on the way through the selectors and the routes are
those and no others (`mem_actionEntries_iff`); in particular the number of paths of checked facts is
never too large.
-/

namespace Codeclew.AspNetCore

open Clr List

/-! ## Attributes -/

/-- The attribute provides a template. -/
def Offers (use : ClrAttributeUse) (template : String) : Prop :=
  use.implements routeTemplateProvider ∧ routeTemplate use = .ok (some template)

/-- The attribute provides templates, and the one it has cannot be seen: it is of an unknown kind,
or its template is no text, or a constructor with other arguments sets the template. -/
def HidesTemplate (use : ClrAttributeUse) : Prop :=
  use.implements routeTemplateProvider ∧ ¬use.isA acceptVerbs ∧
    (use.isA routeAttribute ∨ use.isA httpMethod →
      match use.argument "template" with
      | some value => value.asString = none
      | none => stripPrefix mvc use.attributeType = none ∧ use.constructorArguments ≠ [])

/-- The attribute provides methods, and they cannot be seen: it lists something that is no text, or
it is of no kind whose method is known. -/
def HidesMethods (use : ClrAttributeUse) : Prop :=
  use.implements httpMethodProvider ∧
    if use.isA acceptVerbs then ∃ value ∈ use.constructorArguments, value.strings = none
    else ∀ verb ∈ verbs, ¬use.isA (mvc ++ verb.1)

/-- A template that the attributes provide, or none if they provide none. -/
def TemplateOf (attributes : List ClrAttributeUse) : Option String → Prop
  | some template => ∃ use ∈ attributes, Offers use template
  | none => ∀ use ∈ attributes, ∀ template, ¬Offers use template

/-- A template of the controller and one of the action, put together. -/
def Route (facts : ClrAttributeFacts) (template : String) : Prop :=
  ∃ controller action, TemplateOf facts.containingType.attributes controller ∧
    TemplateOf (actionAttributes facts) action ∧ combine controller action = some template

/-- What is left open about the routes of an action. -/
inductive Noted (facts : ClrAttributeFacts) : String → Prop
  | accessibility (h : facts.containingType.accessibility ≠ "PUBLIC") :
      Noted facts "CONTROLLER_DISCOVERY_REQUIRES_CUSTOM_FEATURE_PROVIDER"
  | nested (h : facts.containingType.isNested = true) :
      Noted facts "NESTED_CONTROLLER_DISCOVERY_REQUIRES_REVIEW"
  | template {use : ClrAttributeUse}
      (hmem : use ∈ facts.containingType.attributes ∨ use ∈ actionAttributes facts)
      (h : HidesTemplate use) : Noted facts "CUSTOM_ROUTE_TEMPLATE_PROVIDER_REQUIRES_REVIEW"
  | conventional (hcontroller : TemplateOf facts.containingType.attributes none)
      (haction : TemplateOf (actionAttributes facts) none) :
      Noted facts "CONVENTIONAL_ROUTING_REQUIRES_RUNTIME_CONFIGURATION"
  | actionName {template : String} (hroute : Route facts template)
      (hassumed : asyncSuffixAssumed facts = true) (hnames : namesAction template = true) :
      Noted facts "ACTION_NAME_ASYNC_SUFFIX_DEFAULT_ASSUMED"
  | version {template path : String} {before after : List Char} (hroute : Route facts template)
      (hpath : replaceTokens (routeValues facts) template = some path)
      (hseen : SeenAt path.toList before after) :
      Noted facts "API_VERSION_ROUTE_SEGMENT_FORMAT_RUNTIME_CONFIGURED"
  | methods {use : ClrAttributeUse} (hmem : use ∈ actionAttributes facts) (h : HidesMethods use) :
      Noted facts "CUSTOM_HTTP_METHOD_PROVIDER_REQUIRES_REVIEW"

variable {use : ClrAttributeUse}

theorem routeTemplate_eq_error_iff :
    routeTemplate use = .error () ↔ ¬use.isA acceptVerbs ∧
      (use.isA routeAttribute ∨ use.isA httpMethod →
        match use.argument "template" with
        | some value => value.asString = none
        | none => stripPrefix mvc use.attributeType = none ∧ use.constructorArguments ≠ []) := by
  rw [routeTemplate]
  by_cases haccept : use.isA acceptVerbs
  · simp [haccept]
  · rw [if_neg haccept, and_iff_right haccept]
    by_cases hkind : use.isA routeAttribute ∨ use.isA httpMethod
    · rw [if_pos hkind, imp_iff_right hkind]
      cases use.argument "template" with
      | some value => cases hvalue : value.asString <;> simp [hvalue]
      | none => cases stripPrefix mvc use.attributeType <;> simp
    · simp [hkind]

theorem hidesTemplate_iff :
    HidesTemplate use ↔ templateOf use = .error () := by
  rw [HidesTemplate, ← routeTemplate_eq_error_iff, templateOf]
  cases use.implements routeTemplateProvider <;> simp

theorem offers_iff {template : String} :
    Offers use template ↔ templateOf use = .ok (some template) := by
  rw [Offers, templateOf]
  cases use.implements routeTemplateProvider <;> simp

theorem mapM_eq_none_iff {α β : Type} {f : α → Option β} {xs : List α} :
    xs.mapM f = none ↔ ∃ x ∈ xs, f x = none := by
  induction xs with
  | nil => simp
  | cons x xs ih =>
    cases hx : f x with
    | none => simp [mapM_cons, hx]
    | some y =>
      rw [mapM_cons, hx, exists_mem_cons_iff, ← ih]
      cases xs.mapM f <;> simp [hx]

section Selectors

variable [Uppercase]

variable {use : ClrAttributeUse}

theorem httpMethods_snd_iff :
    (httpMethods use).2 = true ↔
      if use.isA acceptVerbs then ∃ value ∈ use.constructorArguments, value.strings = none
      else ∀ verb ∈ verbs, ¬use.isA (mvc ++ verb.1) := by
  rw [httpMethods]
  split_ifs with haccept
  · rw [← mapM_eq_none_iff]
    cases use.constructorArguments.mapM ClrValue.strings <;> simp
  · have hnone : (∀ verb ∈ verbs, ¬use.isA (mvc ++ verb.1)) ↔
        verbs.find? (fun verb ↦ use.attributeType = mvc ++ verb.1) = none ∧
        verbs.find? (fun verb ↦ use.attributeBases.contains (mvc ++ verb.1)) = none := by
      simp only [List.find?_eq_none, ← forall₂_and]
      refine forall₂_congr fun verb _ ↦ ?_
      rw [ClrAttributeUse.isA, Bool.or_eq_true, not_or]
    rw [hnone]
    cases verbs.find? fun verb ↦ use.attributeType = mvc ++ verb.1 with
    | some verb => simp
    | none => cases verbs.find? fun verb ↦ use.attributeBases.contains (mvc ++ verb.1) <;> simp

theorem hidesMethods_iff :
    HidesMethods use ↔ (methodsOf use).2 = true := by
  rw [HidesMethods, ← httpMethods_snd_iff, methodsOf]
  cases use.implements httpMethodProvider <;> simp

/-- An attribute that provides nothing is silent as well. -/
theorem selectUse_eq (state : Selecting) (use : ClrAttributeUse) :
    selectUse state use =
      match templateOf use with
      | .ok (some template) =>
        { state with
          templated := state.templated ++
            [⟨some template, (methodsOf use).1, (methodsOf use).2, some use.attributeType⟩] }
      | .ok none => state.silence use
      | .error _ =>
        { state.silence use with
          boundaries :=
            noteIf True "CUSTOM_ROUTE_TEMPLATE_PROVIDER_REQUIRES_REVIEW" state.boundaries } := by
  rw [selectUse]
  split
  · next h =>
    obtain ⟨hroute, hmethods⟩ : use.implements routeTemplateProvider = false ∧
        use.implements httpMethodProvider = false := by simpa using h
    simp [templateOf, methodsOf, Selecting.silence, hroute, hmethods]
  · rfl

variable {attributes : List ClrAttributeUse} {boundaries : List String}

theorem mem_boundaries_selectUse {b : String} (state : Selecting) (use : ClrAttributeUse) :
    b ∈ (selectUse state use).boundaries ↔ b ∈ state.boundaries ∨
      HidesTemplate use ∧ b = "CUSTOM_ROUTE_TEMPLATE_PROVIDER_REQUIRES_REVIEW" := by
  rw [hidesTemplate_iff, selectUse_eq]
  rcases templateOf use with _ | _ | template
  · simp [mem_noteIf]
  · simp [Selecting.silence]
  · simp

/-- A selector is collected for each template. -/
theorem exists_template_selectUse {template : Option String} (state : Selecting)
    (use : ClrAttributeUse) :
    (∃ s ∈ (selectUse state use).templated, s.template = template) ↔
      (∃ s ∈ state.templated, s.template = template) ∨ ∃ text ∈ template, Offers use text := by
  simp only [offers_iff, selectUse_eq]
  rcases templateOf use with _ | _ | found
  · simp [Selecting.silence]
  · simp [Selecting.silence]
  · simp [or_and_right, exists_or, eq_comm]

/-- Whether methods could not be found out is kept of every attribute, with a template or not. -/
def Selecting.Unknown (state : Selecting) : Prop :=
  state.silentUnknown = true ∨ ∃ s ∈ state.templated, s.unknownMethods = true

theorem unknown_selectUse (state : Selecting) (use : ClrAttributeUse) :
    (selectUse state use).Unknown ↔ state.Unknown ∨ HidesMethods use := by
  rw [hidesMethods_iff, selectUse_eq]
  rcases templateOf use with _ | _ | found
  · simp only [Selecting.Unknown, Selecting.silence, Bool.or_eq_true, or_right_comm]
  · simp only [Selecting.Unknown, Selecting.silence, Bool.or_eq_true, or_right_comm]
  · simp [Selecting.Unknown, or_and_right, exists_or, or_assoc]

theorem length_selectUse (state : Selecting) (use : ClrAttributeUse) :
    (selectUse state use).templated.length ≤ state.templated.length + 1 := by
  rw [selectUse_eq]
  rcases templateOf use with _ | _ | found <;> simp [Selecting.silence]

theorem mem_selectors_iff {b : String} :
    b ∈ (selectors attributes boundaries).2 ↔ b ∈ boundaries ∨ ∃ use ∈ attributes,
      HidesTemplate use ∧ b = "CUSTOM_ROUTE_TEMPLATE_PROVIDER_REQUIRES_REVIEW" :=
  foldl_iff (fun state : Selecting ↦ b ∈ state.boundaries) mem_boundaries_selectUse attributes _

/-- The templates of the selectors are those of the attributes. -/
theorem exists_template_selectors_iff {template : Option String} :
    (∃ s ∈ (selectors attributes boundaries).1, s.template = template) ↔
      TemplateOf attributes template := by
  have hfound (template : Option String) := foldl_iff
    (fun state : Selecting ↦ ∃ s ∈ state.templated, s.template = template)
    exists_template_selectUse attributes ⟨[], [], false, boundaries⟩
  have hsome (template : String) : (∃ s ∈ (attributes.foldl selectUse
      ⟨[], [], false, boundaries⟩).templated, s.template = some template) ↔
      ∃ use ∈ attributes, Offers use template := by simp [hfound]
  have hnone : ¬∃ s ∈ (attributes.foldl selectUse ⟨[], [], false, boundaries⟩).templated,
      s.template = none := by simp [hfound]
  rw [selectors]
  generalize attributes.foldl selectUse ⟨[], [], false, boundaries⟩ = state at hsome hnone
  by_cases hempty : state.templated = []
  · cases template <;> simp_all [TemplateOf]
  · obtain ⟨s, hs⟩ := exists_mem_of_ne_nil _ hempty
    cases template with
    | some template =>
      rw [TemplateOf, ← hsome]
      simp [hempty, Selecting.constrain]
    | none =>
      refine iff_of_false (by simpa [hempty, Selecting.constrain] using hnone) fun hoffers ↦ ?_
      obtain ⟨template, htemplate⟩ := Option.ne_none_iff_exists'.mp fun h ↦ hnone ⟨s, hs, h⟩
      obtain ⟨use, hmem, huse⟩ := (hsome template).mp ⟨s, hs, htemplate⟩
      exact hoffers use hmem template huse

theorem exists_unknown_selectors_iff :
    (∃ s ∈ (selectors attributes boundaries).1, s.unknownMethods = true) ↔
      ∃ use ∈ attributes, HidesMethods use := by
  have hunknown := foldl_iff Selecting.Unknown unknown_selectUse attributes
    ⟨[], [], false, boundaries⟩
  have hstart : ¬Selecting.Unknown ⟨[], [], false, boundaries⟩ := by simp [Selecting.Unknown]
  rw [or_iff_right hstart] at hunknown
  rw [← hunknown, selectors]
  generalize attributes.foldl selectUse ⟨[], [], false, boundaries⟩ = state
  rw [Selecting.Unknown]
  by_cases hempty : state.templated = []
  · simp [hempty]
  · obtain ⟨s, hs⟩ := List.exists_mem_of_ne_nil _ hempty
    have hany : (∃ s ∈ state.templated, state.silentUnknown = true) ↔
        state.silentUnknown = true := ⟨fun ⟨_, _, h⟩ ↦ h, fun h ↦ ⟨s, hs, h⟩⟩
    simp only [List.isEmpty_iff, hempty, if_false, List.mem_map, exists_exists_and_eq_and,
      Selecting.constrain, Bool.or_eq_true, and_or_left, exists_or, hany]
    exact or_comm

theorem selectors_ne_nil : (selectors attributes boundaries).1 ≠ [] := by
  rw [selectors]
  split <;> simp_all

theorem length_selectors_le (h : attributes.length ≤ maxAttributes) :
    (selectors attributes boundaries).1.length ≤ maxAttributes := by
  have hlength := foldl_le (fun state : Selecting ↦ state.templated.length) length_selectUse
    attributes ⟨[], [], false, boundaries⟩
  rw [selectors]
  split
  · simp [maxAttributes]
  · simp at hlength ⊢
    omega

end Selectors

/-! ## Routes -/

section Routes

variable {facts : ClrAttributeFacts} {action : Selector} {boundaries : List String}
  {controllers : List (Option Selector)}

/-- The template of a selector of the action together with that of one of the controller. -/
def Joined (controllers : List (Option Selector)) (action : Selector) (template : String) : Prop :=
  ∃ controller ∈ controllers, combine (controller.bind (·.template)) action.template = some template

variable {b : String}

theorem mem_boundaries_addRoute (state : Routing) (controller : Option Selector) :
    b ∈ (addRoute facts action state controller).boundaries ↔ b ∈ state.boundaries ∨
      ∃ template, combine (controller.bind (·.template)) action.template = some template ∧
        (asyncSuffixAssumed facts = true ∧ namesAction template = true) ∧
        b = "ACTION_NAME_ASYNC_SUFFIX_DEFAULT_ASSUMED" := by
  rw [addRoute]
  cases combine (controller.bind (·.template)) action.template with
  | none => simp
  | some template =>
    dsimp only
    cases replaceTokens (routeValues facts) template <;> simp [mem_noteIf]

theorem mem_paths_addRoute {path : String} (state : Routing) (controller : Option Selector) :
    path ∈ (addRoute facts action state controller).paths ↔ path ∈ state.paths ∨
      ∃ template, combine (controller.bind (·.template)) action.template = some template ∧
        replaceTokens (routeValues facts) template = some path := by
  rw [addRoute]
  cases combine (controller.bind (·.template)) action.template with
  | none => simp
  | some template =>
    dsimp only
    cases hpath : replaceTokens (routeValues facts) template with
    | none => simp [hpath]
    | some found =>
      simp [hpath, KeyedSet.mem_insert_of_injective Function.injective_id, or_comm, eq_comm]

theorem length_addRoute (facts : ClrAttributeFacts) (action : Selector) (state : Routing)
    (controller : Option Selector) :
    (addRoute facts action state controller).paths.length ≤ state.paths.length + 1 := by
  rw [addRoute]
  split
  · simp
  · dsimp only
    split
    · exact KeyedSet.length_insert_le id _ _
    · simp

theorem mem_boundaries_routes_iff :
    b ∈ (routes facts controllers action boundaries).boundaries ↔ b ∈ boundaries ∨
      ∃ template, Joined controllers action template ∧
        (asyncSuffixAssumed facts = true ∧ namesAction template = true) ∧
        b = "ACTION_NAME_ASYNC_SUFFIX_DEFAULT_ASSUMED" := by
  refine (foldl_iff (fun state : Routing ↦ b ∈ state.boundaries) mem_boundaries_addRoute controllers
    _).trans (or_congr_right ?_)
  constructor
  · rintro ⟨controller, hmem, template, hjoined, h⟩
    exact ⟨template, ⟨controller, hmem, hjoined⟩, h⟩
  · rintro ⟨template, ⟨controller, hmem, hjoined⟩, h⟩
    exact ⟨controller, hmem, template, hjoined, h⟩

theorem mem_paths_routes_iff {path : String} :
    path ∈ (routes facts controllers action boundaries).paths ↔
      ∃ template, Joined controllers action template ∧
        replaceTokens (routeValues facts) template = some path := by
  refine (foldl_iff (fun state : Routing ↦ path ∈ state.paths) mem_paths_addRoute controllers
    _).trans ?_
  constructor
  · rintro (h | ⟨controller, hmem, template, hjoined, h⟩)
    · cases h
    · exact ⟨template, ⟨controller, hmem, hjoined⟩, h⟩
  · rintro ⟨template, ⟨controller, hmem, hjoined⟩, h⟩
    exact .inr ⟨controller, hmem, template, hjoined, h⟩

/-! ## Entry points -/

/-- What is left open about one selector of the action. -/
inductive EntryNoted (facts : ClrAttributeFacts) (controllers : List (Option Selector))
    (action : Selector) : String → Prop
  | actionName {template : String} (hjoined : Joined controllers action template)
      (hassumed : asyncSuffixAssumed facts = true) (hnames : namesAction template = true) :
      EntryNoted facts controllers action "ACTION_NAME_ASYNC_SUFFIX_DEFAULT_ASSUMED"
  | version {template path : String} {before after : List Char}
      (hjoined : Joined controllers action template)
      (hpath : replaceTokens (routeValues facts) template = some path)
      (hseen : SeenAt path.toList before after) :
      EntryNoted facts controllers action "API_VERSION_ROUTE_SEGMENT_FORMAT_RUNTIME_CONFIGURED"
  | methods (h : action.unknownMethods = true) :
      EntryNoted facts controllers action "CUSTOM_HTTP_METHOD_PROVIDER_REQUIRES_REVIEW"

/-- There are at most as many paths as selectors of the controller. -/
theorem mem_actionEntry_iff (h : controllers.length ≤ maxPaths) :
    b ∈ (actionEntry facts controllers boundaries action).2 ↔
      b ∈ boundaries ∨ EntryNoted facts controllers action b := by
  have hlength : ¬maxPaths < (routes facts controllers action boundaries).paths.length := by
    have hpaths := foldl_le (fun state : Routing ↦ state.paths.length)
      (length_addRoute facts action) controllers ⟨[], .derived, [], boundaries⟩
    rw [← routes, length_nil] at hpaths
    omega
  have hversion : (∃ path ∈ (routes facts controllers action boundaries).paths,
      ∃ before after, SeenAt path.toList before after) ↔
      ∃ template path before after, Joined controllers action template ∧
        replaceTokens (routeValues facts) template = some path ∧
        SeenAt path.toList before after := by
    simp only [mem_paths_routes_iff]
    constructor
    · rintro ⟨path, ⟨template, hjoined, hpath⟩, before, after, hseen⟩
      exact ⟨template, path, before, after, hjoined, hpath, hseen⟩
    · rintro ⟨template, path, before, after, hjoined, hpath, hseen⟩
      exact ⟨path, ⟨template, hjoined, hpath⟩, before, after, hseen⟩
  have hmem : b ∈ (actionEntry facts controllers boundaries action).2 ↔
      (b ∈ (routes facts controllers action boundaries).boundaries ∨
        (∃ template path before after, Joined controllers action template ∧
          replaceTokens (routeValues facts) template = some path ∧
          SeenAt path.toList before after) ∧
          b = "API_VERSION_ROUTE_SEGMENT_FORMAT_RUNTIME_CONFIGURED") ∨
        action.unknownMethods = true ∧ b = "CUSTOM_HTTP_METHOD_PROVIDER_REQUIRES_REVIEW" := by
    simp only [actionEntry, mem_noteIf, expandVersions_boundary, hversion]
    simp only [expandVersions, hlength, false_and, or_false]
  rw [hmem, mem_boundaries_routes_iff]
  constructor
  · rintro (((hb | ⟨template, hjoined, ⟨hassumed, hnames⟩, rfl⟩) |
      ⟨⟨template, path, before, after, hjoined, hpath, hseen⟩, rfl⟩) | ⟨h, rfl⟩)
    · exact .inl hb
    · exact .inr (.actionName hjoined hassumed hnames)
    · exact .inr (.version hjoined hpath hseen)
    · exact .inr (.methods h)
  · rintro (hb | ⟨hjoined, hassumed, hnames⟩ | ⟨hjoined, hpath, hseen⟩ | h)
    · exact .inl (.inl (.inl hb))
    · exact .inl (.inl (.inr ⟨_, hjoined, ⟨hassumed, hnames⟩, rfl⟩))
    · exact .inl (.inr ⟨⟨_, _, _, _, hjoined, hpath, hseen⟩, rfl⟩)
    · exact .inr ⟨h, rfl⟩

theorem mem_entriesOf_iff (h : controllers.length ≤ maxPaths) {actions : List Selector} :
    b ∈ (entriesOf facts controllers actions boundaries).2 ↔
      b ∈ boundaries ∨ ∃ action ∈ actions, EntryNoted facts controllers action b := by
  induction actions generalizing boundaries with
  | nil => simp [entriesOf]
  | cons action actions ih =>
    rw [entriesOf, ih, mem_actionEntry_iff h, or_assoc, exists_mem_cons_iff]

end Routes

/-! ## Actions -/

section Actions

variable [Uppercase] {facts : ClrAttributeFacts} {boundaries : List String}

variable {attributes : List ClrAttributeUse}

omit [Uppercase] in
theorem templateOf_none_iff :
    TemplateOf attributes none ↔ ∀ template, ¬TemplateOf attributes (some template) := by
  simp only [TemplateOf, not_exists, not_and]
  exact ⟨fun h template use hmem ↦ h use hmem template, fun h use hmem template ↦
    h template use hmem⟩

/-- The routes are the templates of the selectors put together. -/
theorem route_iff {before after : List String} {template : String} :
    Route facts template ↔ ∃ action ∈ (selectors (actionAttributes facts) after).1,
      Joined ((selectors facts.containingType.attributes before).1.map some) action template := by
  constructor
  · rintro ⟨controller, action, hcontroller, haction, hjoined⟩
    obtain ⟨c, hc, rfl⟩ := exists_template_selectors_iff.mpr hcontroller
    obtain ⟨a, ha, rfl⟩ := exists_template_selectors_iff.mpr haction
    exact ⟨a, ha, some c, mem_map_of_mem hc, hjoined⟩
  · rintro ⟨a, ha, _, hc, hjoined⟩
    obtain ⟨c, hmem, rfl⟩ := mem_map.mp hc
    exact ⟨c.template, a.template, exists_template_selectors_iff.mp ⟨c, hmem, rfl⟩,
      exists_template_selectors_iff.mp ⟨a, ha, rfl⟩, hjoined⟩

theorem any_template_eq_false_iff :
    (selectors attributes boundaries).1.any (·.template.isSome) = false ↔
      TemplateOf attributes none := by
  rw [templateOf_none_iff, any_eq_false]
  constructor
  · intro h template htemplate
    obtain ⟨s, hs, hsome⟩ := exists_template_selectors_iff.mpr htemplate
    exact h s hs (by rw [hsome]; rfl)
  · intro h s hs hsome
    obtain ⟨template, htemplate⟩ := Option.isSome_iff_exists.mp hsome
    exact h template (exists_template_selectors_iff.mp ⟨s, hs, htemplate⟩)

/-- The boundaries of an action are those it starts with and what is left open about its routes. -/
theorem mem_actionEntries_iff (h : facts.containingType.attributes.length ≤ maxAttributes)
    {b : String} :
    b ∈ (actionEntries facts boundaries).2 ↔ b ∈ boundaries ∨ Noted facts b := by
  rw [actionEntries]
  simp only [List.isEmpty_iff, selectors_ne_nil, if_false]
  rw [mem_entriesOf_iff, mem_noteIf, mem_selectors_iff, mem_selectors_iff, mem_noteIf, mem_noteIf]
  · rw [Bool.not_eq_true, List.any_append, Bool.or_eq_false_iff, any_template_eq_false_iff,
      any_template_eq_false_iff]
    constructor
    · rintro ((((((hb | ⟨haccess, rfl⟩) | ⟨hnested, rfl⟩) | ⟨use, hmem, huse, rfl⟩) |
        ⟨use, hmem, huse, rfl⟩) | ⟨⟨hcontroller, haction⟩, rfl⟩) | ⟨action, haction, hnoted⟩)
      · exact .inl hb
      · exact .inr (.accessibility haccess)
      · exact .inr (.nested hnested)
      · exact .inr (.template (.inl hmem) huse)
      · exact .inr (.template (.inr hmem) huse)
      · exact .inr (.conventional hcontroller haction)
      · cases hnoted with
        | actionName hjoined hassumed hnames =>
          exact .inr (.actionName (route_iff.mpr ⟨action, haction, hjoined⟩) hassumed hnames)
        | version hjoined hpath hseen =>
          exact .inr (.version (route_iff.mpr ⟨action, haction, hjoined⟩) hpath hseen)
        | methods hunknown =>
          obtain ⟨use, hmem, huse⟩ := exists_unknown_selectors_iff.mp ⟨action, haction, hunknown⟩
          exact .inr (.methods hmem huse)
    · rintro (hb | hnoted)
      · exact .inl (.inl (.inl (.inl (.inl (.inl hb)))))
      · cases hnoted with
        | accessibility haccess =>
          exact .inl (.inl (.inl (.inl (.inl (.inr ⟨haccess, rfl⟩)))))
        | nested hnested => exact .inl (.inl (.inl (.inl (.inr ⟨hnested, rfl⟩))))
        | template hmem huse =>
          rcases hmem with hmem | hmem
          · exact .inl (.inl (.inl (.inr ⟨_, hmem, huse, rfl⟩)))
          · exact .inl (.inl (.inr ⟨_, hmem, huse, rfl⟩))
        | conventional hcontroller haction =>
          exact .inl (.inr ⟨⟨hcontroller, haction⟩, rfl⟩)
        | actionName hroute hassumed hnames =>
          obtain ⟨action, haction, hjoined⟩ := route_iff.mp hroute
          exact .inr ⟨action, haction, .actionName hjoined hassumed hnames⟩
        | version hroute hpath hseen =>
          obtain ⟨action, haction, hjoined⟩ := route_iff.mp hroute
          exact .inr ⟨action, haction, .version hjoined hpath hseen⟩
        | methods hmem huse =>
          obtain ⟨action, haction, hunknown⟩ := exists_unknown_selectors_iff.mpr ⟨_, hmem, huse⟩
          exact .inr ⟨action, haction, .methods hunknown⟩
  · rw [List.length_map]
    exact (length_selectors_le h).trans (by decide)

end Actions

end Codeclew.AspNetCore
