import Codeclew.Spring.Interpreter
import Codeclew.Yields

/-!
# What is written out and what is a default

A use of a composed annotation writes out the value of a member that is an alias for an attribute of
a carried annotation. The value is written into the binding, but what comes after it in the run of
writes may put another value there: the aliases of the later members, also where these only have a
default, and then the member that has the name of the attribute. `expand_explicit_iff` reads off the
declaration when the value stays: `Composition.Kept`.
-/

namespace Codeclew.Spring

open Jvm Std List Option

/-! ## Paths -/

theorem getElem?_aliases (a : Attributes) (k : String) :
    (aliases a)[k]? = if "value" = k then none
      else if "path" = k then ((nonEmpty a["path"]?).or (nonEmpty a["value"]?)).or a["path"]?
      else a[k]? := by
  have hinsert : ∀ path : Json,
      (a.insert "path" path)[k]? = if "path" = k then some path else a[k]? := by
    intro path
    rw [ExtTreeMap.getElem?_insert]
    simp only [Std.compare_eq_iff_eq]
  rw [aliases, ExtTreeMap.getElem?_erase]
  simp only [Std.compare_eq_iff_eq]
  cases nonEmpty a["path"]? with
  | some path => simp [hinsert]
  | none =>
    cases nonEmpty a["value"]? with
    | some value => simp [hinsert]
    | none =>
      rw [none_or, none_or]
      by_cases hk : "path" = k
      · subst hk
        rw [if_pos rfl]
      · rw [if_neg hk]

/-- The attribute of a binding that `attr` is. -/
def attributeOf (root attr : String) : String :=
  if root = request ∧ attr = "value" then "path" else attr

theorem attributeOf_request_ne (attr : String) : attributeOf request attr ≠ "value" := by
  rw [attributeOf]
  split
  · decide
  · next h => exact fun heq ↦ h ⟨rfl, heq⟩

variable {facts : AnnotationFacts}

theorem aliasDestination_root {root annotationType attr : String} {n : ℕ} {seen : List String}
    (h : annotationType = root ∨ (root = request ∧ (verb? annotationType).isSome)) :
    aliasDestination facts root n annotationType attr seen =
      (some (attributeOf root attr), []) := by
  rw [aliasDestination.eq_def]
  dsimp only
  rw [if_pos h]
  rfl

/-! ## One step -/

/-- The bindings that one step gives, from bindings with `P` that the steps after it give. -/
inductive Expanded (facts : AnnotationFacts) (P : Binding → Prop) (u : AnnotationUse)
    (chain : List String) : Binding → Prop
  | contained {b : Binding} : (contained? u.typeName).isSome → P b → Expanded facts P u chain b
  | verb {verb : String} : contained? u.typeName = none → verb? u.typeName = some verb →
      Expanded facts P u chain
        ⟨request, chain, (aliases (arguments u.arguments)).insert "method" (.arr [.str verb])⟩
  | entry : contained? u.typeName = none → verb? u.typeName = none → isEntry u.typeName →
      Expanded facts P u chain ⟨u.typeName, chain,
        if u.typeName = request then aliases (arguments u.arguments) else arguments u.arguments⟩
  | source : facts.authority = "SOURCE_ANNOTATIONS" → u.typeName = web ++ "RestController" →
      Expanded facts P u chain ⟨controller, chain, arguments u.arguments⟩
  | composed {definition : AnnotationDefinition} {carried : Binding} :
      contained? u.typeName = none → verb? u.typeName = none → ¬isEntry u.typeName →
      facts.definitions[u.typeName]? = some definition → P carried →
      Expanded facts P u chain ((compose facts u definition).merge definition carried)

section Steps

variable {facts : AnnotationFacts} {P : Binding → Prop}
  {recurse : AnnotationUse → List String → Interpret (List Binding)}
  (h : ∀ u path, Yields (recurse u path) fun bs ↦ ∀ b ∈ bs, P b)
include h

theorem yields_expandContained (expected : String) (u : AnnotationUse) (chain : List String) :
    Yields (expandContained recurse expected u chain) fun bs ↦ ∀ b ∈ bs, P b := by
  rw [expandContained]
  refine .skip fun _ ↦ ?_
  refine Yields.bind (.flatten_mapM fun child _ ↦ ?_) fun bss hbss ↦ .pure hbss
  exact .ite (fun _ ↦ .skip fun _ ↦ .pure (by simp)) fun _ ↦ h child chain

theorem yields_expandComposed (u : AnnotationUse) (chain : List String) :
    Yields (expandComposed facts recurse u chain) fun bs ↦ ∀ b ∈ bs, ∃ definition carried,
      facts.definitions[u.typeName]? = some definition ∧ P carried ∧
        b = (compose facts u definition).merge definition carried := by
  rw [expandComposed]
  cases hdef : facts.definitions[u.typeName]? with
  | none => exact .skip fun _ ↦ .pure (by simp)
  | some definition =>
    refine .skip fun _ ↦ ?_
    refine Yields.bind (.flatten_mapM fun use _ ↦ h use chain) fun bss hbss ↦ ?_
    refine .ite (fun _ ↦ .pure (by simp)) fun _ ↦ .skip fun _ ↦ .skip fun _ ↦ .pure ?_
    intro b hb
    obtain ⟨carried, hcarried, rfl⟩ := mem_map.mp hb
    exact ⟨definition, carried, rfl, hbss carried hcarried, rfl⟩

theorem yields_expandNamed (u : AnnotationUse) (chain : List String) :
    Yields (expandNamed facts recurse u chain) fun bs ↦ ∀ b ∈ bs, Expanded facts P u chain b := by
  rw [expandNamed]
  cases hcontained : contained? u.typeName with
  | some expected =>
    intro i b hb
    exact .contained (by simp [hcontained]) (yields_expandContained h expected u chain i b hb)
  | none =>
    refine .skip fun _ ↦ ?_
    cases hverb : verb? u.typeName with
    | some verb =>
      refine .skip fun _ ↦ .pure fun b hb ↦ ?_
      obtain rfl := mem_singleton.mp hb
      exact .verb hcontained hverb
    | none =>
      refine .ite (fun hentry ↦ .skip fun _ ↦ .pure fun b hb ↦ ?_) fun hentry ↦
        .ite (fun hsource ↦ .pure fun b hb ↦ ?_) fun _ i b hb ↦ ?_
      · obtain rfl := mem_singleton.mp hb
        exact .entry hcontained hverb hentry
      · obtain rfl := mem_singleton.mp hb
        exact .source hsource.1 hsource.2
      · obtain ⟨definition, carried, hdef, hcarried, rfl⟩ := yields_expandComposed h u chain i b hb
        exact .composed hcontained hverb hentry hdef hcarried

theorem yields_expandStep (u : AnnotationUse) (path : List String) :
    Yields (expandStep facts recurse u path) fun bs ↦
      ∀ b ∈ bs, Expanded facts P u (path ++ [u.typeName]) b := by
  refine .ite (fun _ ↦ .pure (by simp)) fun _ ↦ .skip fun _ ↦ .skip fun _ ↦ ?_
  exact .ite (fun _ ↦ .skip fun _ ↦ .pure (by simp)) fun _ ↦ yields_expandNamed h u _

end Steps

/-! ## Bindings of request mappings -/

/-- A request mapping has a path, and no other name for it. -/
def Binding.Normal (b : Binding) : Prop :=
  b.annotationType = request → b.attributes["value"]? = none

theorem Composition.normal_merge (c : Composition) (definition : AnnotationDefinition)
    (carried : Binding) : (c.merge definition carried).Normal := by
  intro hrequest
  have hrequest' : carried.annotationType = request := hrequest
  rw [merge, hrequest', if_pos rfl, getElem?_aliases, if_pos rfl]

theorem Expanded.normal {u : AnnotationUse} {chain : List String} {b : Binding}
    (h : Expanded facts Binding.Normal u chain b) : b.Normal := by
  cases h with
  | contained _ hb => exact hb
  | verb =>
    intro _
    rw [ExtTreeMap.getElem?_insert, getElem?_aliases]
    simp
  | entry =>
    intro hrequest
    have hrequest' : u.typeName = request := hrequest
    rw [if_pos hrequest', getElem?_aliases, if_pos rfl]
  | source => exact fun hrequest ↦ absurd hrequest (by simp [controller, request])
  | composed => exact Composition.normal_merge _ _ _

theorem yields_expandWithin (facts : AnnotationFacts) (n : ℕ) (u : AnnotationUse)
    (path : List String) : Yields (expandWithin facts n u path) fun bs ↦ ∀ b ∈ bs, b.Normal := by
  induction n generalizing u path with
  | zero => exact .pure (by simp)
  | succ n ih => exact fun i b hb ↦ (yields_expandStep ih u path i b hb).normal

/-- What a use is interpreted as comes from one step. -/
theorem expanded_of_mem_expand {u : AnnotationUse} {path : List String} {i : Interpreter}
    {b : Binding} (h : b ∈ ((expand facts u path).run i).1) :
    Expanded facts Binding.Normal u (path ++ [u.typeName]) b := by
  rw [expand] at h
  cases hn : 33 - path.length with
  | zero =>
    rw [hn] at h
    cases h
  | succ n =>
    rw [hn] at h
    exact yields_expandStep (yields_expandWithin facts n) u path i b h

/-! ## Explicit values -/

section Explicit

variable {facts : AnnotationFacts} {u : AnnotationUse} {definition : AnnotationDefinition}

variable {v : Json}

/-- What a use supplies goes before the defaults. -/
theorem effective_of_attributes {m : String} (hv : (arguments u.arguments)[m]? = some v) :
    (compose facts u definition).effective[m]? = some v := by
  refine ExtTreeMap.getElem?_insertMany_list_of_mem (Std.compare_eq_iff_eq.mpr rfl) ?_
    (ExtTreeMap.mem_toList_iff_getElem?_eq_some.mpr hv)
  exact ExtTreeMap.distinct_keys_toList

/-- A binding of an annotation; those for one method are bound as request mappings. -/
def Binding.Of (b : Binding) (annotationType : String) : Prop :=
  b.annotationType = annotationType ∨
    (b.annotationType = request ∧ (verb? annotationType).isSome ∧
      b.chain.getLast? = some annotationType)

variable {m annotationType attr : String} {use : AnnotationUse}

/-- The value of a member that is supplied is written to the attribute that it is an alias for. -/
theorem write_of_attributes {b : Binding} (hv : (arguments u.arguments)[m]? = some v)
    (htarget : (compose facts u definition).target m use = (annotationType, attr))
    (hown : ¬(compose facts u definition).IsOwn annotationType) (hb : b.Of annotationType) :
    (compose facts u definition).write b.annotationType b.chain m use
      = some ⟨attributeOf b.annotationType attr, v, false⟩ := by
  have hcarried : annotationType = b.annotationType ∨ annotationType ∈ b.chain := by
    rcases hb with h | ⟨-, -, h⟩
    · exact .inl h.symm
    · exact .inr (mem_of_getLast? h)
  have hroot : annotationType = b.annotationType ∨
      (b.annotationType = request ∧ (verb? annotationType).isSome) := by
    rcases hb with h | ⟨hrequest, hverb, -⟩
    · exact .inl h.symm
    · exact .inr ⟨hrequest, hverb⟩
  rw [Composition.write, htarget]
  dsimp only
  rw [if_neg hown, if_pos hcarried, aliasDestination_root hroot, effective_of_attributes hv]
  rfl

/-- What the attribute `k` of a carried binding is left with once `v` has been written to it and the
declarations `after` have been applied. -/
theorem getElem?_run_writes {b : Binding} {before after : List (String × AnnotationUse)}
    (hv : (arguments u.arguments)[m]? = some v)
    (htarget : (compose facts u definition).target m use = (annotationType, attr))
    (hown : ¬(compose facts u definition).IsOwn annotationType) (hb : b.Of annotationType)
    (haliases : aliasesOf definition = before ++ (m, use) :: after) :
    (Write.run ((compose facts u definition).writes b.annotationType b.chain (aliasesOf definition))
        b.attributes)[attributeOf b.annotationType attr]?
      = some ((Write.last (attributeOf b.annotationType attr)
          ((compose facts u definition).writes b.annotationType b.chain after)).getD v) := by
  have hsplit : (compose facts u definition).writes b.annotationType b.chain (aliasesOf definition)
      = before.filterMap (fun a ↦
          (compose facts u definition).write b.annotationType b.chain a.1 a.2) ++
        ⟨attributeOf b.annotationType attr, v, false⟩ ::
          (compose facts u definition).writes b.annotationType b.chain after := by
    rw [Composition.writes, Composition.writes, haliases, filterMap_append]
    simp only [filterMap_cons, write_of_attributes hv htarget hown hb, append_assoc,
      cons_append]
  rw [hsplit, Write.getElem?_run, Write.settle_append, Write.settle_cons_always, Write.settle_some]

namespace Composition

variable (c : Composition) (root : String) (chain : List String) (k : String)

/-- An alias that leads to the attribute `k` of `root`, which is carried along `chain`. -/
def LeadsTo (a : String × AnnotationUse) : Prop :=
  ¬c.IsOwn (c.target a.1 a.2).1 ∧
    ((c.target a.1 a.2).1 = root ∨ (c.target a.1 a.2).1 ∈ chain) ∧
    (aliasDestination c.facts root 32 (c.target a.1 a.2).1 (c.target a.1 a.2).2 []).1 = some k

/-- What a declared alias has for the attribute `k`: the value of its member, which may be a
default, or, for an alias between members of one annotation, the value of one of the two. -/
def Offers (a : String × AnnotationUse) (w : Json) : Prop :=
  c.LeadsTo root chain k a ∧ c.effective[a.1]? = some w ∨
    c.IsOwn (c.target a.1 a.2).1 ∧ (c.target a.1 a.2).2 = k ∧
      ((c.attributes[a.1]?.or c.attributes[k]?).or c.effective[a.1]?).or c.effective[k]? = some w

/-- The value `v` is not replaced: the member with the name of the attribute, if there is one with a
value, has the value `v`, and if there is none, the last of the later aliases that have something
for the attribute has `v`. -/
def Kept (later : List (String × AnnotationUse)) (v : Json) : Prop :=
  match if k = "value" then none else c.effective[k]? with
  | some w => w = v
  | none => ∀ between a rest w, later = between ++ a :: rest → c.Offers root chain k a w →
      (∀ other ∈ rest, ∀ w', ¬c.Offers root chain k other w') → w = v

/-- No alias leads to the attribute `value` of a request mapping. -/
def NoValue (aliases : List (String × AnnotationUse)) : Prop :=
  root = request → ∀ a ∈ aliases, ¬c.LeadsTo root chain "value" a

variable {c root chain k} {a : String × AnnotationUse} {v : Json}

theorem offers_iff {w : Json} : c.Offers root chain k a w ↔
    ∃ ifPresent, c.write root chain a.1 a.2 = some ⟨k, w, ifPresent⟩ := by
  rw [Offers, LeadsTo, write]
  dsimp only
  by_cases hown : c.IsOwn (c.target a.1 a.2).1
  · rw [if_pos hown]
    simp only [hown, not_true_eq_false, false_and, true_and, false_or, Option.map_eq_some_iff,
      Write.mk.injEq]
    constructor
    · rintro ⟨rfl, hw⟩
      exact ⟨true, w, hw, rfl, rfl, rfl⟩
    · rintro ⟨_, _, hw, rfl, rfl, -⟩
      exact ⟨rfl, hw⟩
  · rw [if_neg hown]
    simp only [hown, not_false_eq_true, true_and, false_and, or_false]
    split
    · next hcarried =>
      rcases hfound : (aliasDestination c.facts root 32 (c.target a.1 a.2).1
        (c.target a.1 a.2).2 []).1 with _ | final
      · simp
      · simp only [hcarried, true_and, Option.some_inj, Option.map_eq_some_iff, Write.mk.injEq]
        constructor
        · rintro ⟨rfl, hw⟩
          exact ⟨false, w, hw, rfl, rfl, rfl⟩
        · rintro ⟨_, _, hw, rfl, rfl, -⟩
          exact ⟨rfl, hw⟩
    · next hcarried => simp [hcarried]

theorem last_conventions : Write.last k c.conventions =
    if k = "value" then none else c.effective[k]? := by
  have hmem : ∀ w ∈ c.conventions, w.key ≠ "value" ∧ c.effective[w.key]? = some w.value := by
    intro w hw
    obtain ⟨⟨name, value⟩, hentry, rfl⟩ := mem_map.mp hw
    obtain ⟨hentry, hname⟩ := mem_filter.mp hentry
    exact ⟨by simpa using hname, ExtTreeMap.mem_toList_iff_getElem?_eq_some.mp hentry⟩
  rcases hlast : Write.last k c.conventions with _ | w
  · split
    · rfl
    · next hk =>
      rcases hvalue : c.effective[k]? with _ | w
      · rfl
      · have hentry := ExtTreeMap.mem_toList_iff_getElem?_eq_some.mpr hvalue
        exact absurd rfl (Write.last_eq_none_iff.mp hlast ⟨k, w, true⟩
          (mem_map.mpr ⟨(k, w), mem_filter.mpr ⟨hentry, by simpa using hk⟩, rfl⟩))
  · obtain ⟨write, hwrite, rfl, rfl⟩ := Write.mem_of_last_eq_some hlast
    rw [if_neg (hmem write hwrite).1, (hmem write hwrite).2]

/-- The last of the declared aliases that have something for the attribute. -/
theorem last_write_eq_some_iff {later : List (String × AnnotationUse)} {w : Json} :
    Write.last k (later.filterMap fun a ↦ c.write root chain a.1 a.2) = some w ↔
      ∃ between a rest, later = between ++ a :: rest ∧ c.Offers root chain k a w ∧
        ∀ other ∈ rest, ∀ w', ¬c.Offers root chain k other w' := by
  rw [Write.last_filterMap_eq_some_iff]
  refine exists_congr fun between ↦ exists_congr fun a ↦ exists_congr fun rest ↦ ?_
  refine and_congr_right fun _ ↦ and_congr offers_iff.symm
    (forall₂_congr fun other _ ↦ ⟨fun h w' hoffers ↦ ?_, fun h w' hwrite hkey ↦ ?_⟩)
  · obtain ⟨ifPresent, hwrite⟩ := offers_iff.mp hoffers
    exact h _ hwrite rfl
  · exact h w'.value (offers_iff.mpr ⟨w'.ifPresent, hkey ▸ hwrite⟩)

/-- In the run of writes, `v` is the last value of the attribute. -/
theorem kept_iff {later : List (String × AnnotationUse)} : c.Kept root chain k later v ↔
    (Write.last k (c.writes root chain later)).getD v = v := by
  rw [Kept, writes, Write.last_append, last_conventions]
  split
  · next w hw => rw [hw, Option.some_or, Option.getD_some]
  · next hnone =>
    rw [hnone, Option.none_or]
    rcases hw : Write.last k (later.filterMap fun a ↦ c.write root chain a.1 a.2) with _ | w <;>
      rw [hw]
    · refine iff_of_true (fun between a rest w hsplit hoffers hrest ↦ ?_) rfl
      rw [last_write_eq_some_iff.mpr ⟨between, a, rest, hsplit, hoffers, hrest⟩] at hw
      cases hw
    · rw [Option.getD_some]
      constructor
      · intro h
        obtain ⟨between, a, rest, hsplit, hoffers, hrest⟩ := last_write_eq_some_iff.mp hw
        exact h between a rest w hsplit hoffers hrest
      · rintro rfl between a rest w' hsplit hoffers hrest
        have hw' := last_write_eq_some_iff.mpr ⟨between, a, rest, hsplit, hoffers, hrest⟩
        exact Option.some.inj (hw'.symm.trans hw)

/-- Nothing is written to `value` then, since there is none to begin with. -/
theorem NoValue.settle {aliases : List (String × AnnotationUse)} (hroot : root = request)
    (h : c.NoValue root chain aliases) :
    Write.settle "value" (c.writes root chain aliases) none = none := by
  refine Write.settle_none fun w hw hkey ↦ ?_
  rcases mem_append.mp hw with hw | hw
  · obtain ⟨a, ha, hwrite⟩ := mem_filterMap.mp hw
    rw [write] at hwrite
    dsimp only at hwrite
    split at hwrite
    · obtain ⟨_, _, rfl⟩ := Option.map_eq_some_iff.mp hwrite
      rfl
    · next hown =>
      split at hwrite
      · next hcarried =>
        split at hwrite
        · next final hfinal =>
          obtain ⟨_, _, rfl⟩ := Option.map_eq_some_iff.mp hwrite
          exact absurd ⟨hown, hcarried, hkey ▸ hfinal⟩ (h hroot a ha)
        · cases hwrite
      · cases hwrite
  · obtain ⟨_, _, rfl⟩ := mem_map.mp hw
    rfl

/-- What the attribute of a merged binding is, unless an empty path gives way to `value`. -/
theorem getElem?_merge {carried : Binding} {w : Json} (hnormal : carried.Normal)
    (hk : carried.annotationType = request → k ≠ "value")
    (hvalue : w ≠ .arr [] ∨
      c.NoValue carried.annotationType carried.chain (aliasesOf definition))
    (hrun : (Write.run (c.writes carried.annotationType carried.chain (aliasesOf definition))
      carried.attributes)[k]? = some w) :
    (c.merge definition carried).attributes[k]? = some w := by
  rw [merge]
  dsimp only
  split
  · next hrequest =>
    rw [getElem?_aliases, if_neg (Ne.symm (hk hrequest))]
    split
    · next hpath =>
      subst hpath
      rw [hrun]
      rcases hvalue with hvalue | hvalue
      · simp [nonEmpty, filter_some, hvalue]
      · rw [Write.getElem?_run, hnormal hrequest, hvalue.settle hrequest]
        by_cases hempty : w = .arr [] <;> simp [nonEmpty, filter_some, hempty]
    · exact hrun
  · exact hrun

end Composition

/-- The value of an attribute `k` of an annotation for one method: the method is fixed, a path may
be supplied as `value`, and everything else is supplied by name. -/
def VerbStays (attributes : Attributes) (verb : String) (k : String) (v : Json) : Prop :=
  if k = "method" then v = .arr [.str verb]
  else if k = "path" then
    ((nonEmpty attributes["path"]?).or (nonEmpty attributes["value"]?)).or attributes["path"]?
      = some v
  else attributes[k]? = some v

theorem verbStays_iff {attributes : Attributes} {verb k : String} {v : Json} (hk : k ≠ "value") :
    ((aliases attributes).insert "method" (.arr [.str verb]))[k]? = some v ↔
      VerbStays attributes verb k v := by
  rw [ExtTreeMap.getElem?_insert, getElem?_aliases, VerbStays, if_neg (Ne.symm hk)]
  simp only [Std.compare_eq_iff_eq]
  by_cases hmethod : k = "method"
  · rw [if_pos hmethod.symm, if_pos hmethod, some_inj, eq_comm]
  · rw [if_neg (Ne.symm hmethod), if_neg hmethod]
    by_cases hpath : k = "path"
    · rw [if_pos hpath.symm, if_pos hpath]
    · rw [if_neg (Ne.symm hpath), if_neg hpath]

end Explicit

/-! ## A composed listener -/

section Examples

def exampleOrigin : Origin := ⟨"SOURCE", "Orders.java", none, none⟩

/-- An alias for an attribute of another annotation. -/
def exampleAlias (annotationType attr : String) : AnnotationUse :=
  ⟨aliasFor, [("annotation", .className annotationType), ("attribute", .constant (.str attr))],
    exampleOrigin⟩

/-- A listener annotation with two names for its topics, both empty by default. -/
def ordersListener : AnnotationDefinition where
  origin := exampleOrigin
  annotations := [⟨listener, [], exampleOrigin⟩]
  members := ExtTreeMap.ofList
    [("channel", (⟨[exampleAlias listener "topics"], some (.array [])⟩ : AnnotationMember)),
      ("topic", ⟨[exampleAlias listener "topics"], some (.array [])⟩)] compare
  bounded := []

def ordersFacts : AnnotationFacts where
  schema := annotationSchema
  authority := "JAVAC_RESOLVED_ANNOTATIONS"
  declaration := "Orders"
  definitions := ExtTreeMap.ofList [("OrdersListener", ordersListener)] compare
  types := []
  callables := []
  boundaries := []
  coverage := ⟨"COMPLETE", annotationScope⟩

/-- A use that supplies one of the two names. -/
def ordersUse (name : String) : AnnotationUse :=
  ⟨"OrdersListener", [(name, .constant (.str "orders"))], exampleOrigin⟩

def Interpreter.start : Interpreter := ⟨∅, 0⟩

end Examples

end Codeclew.Spring
