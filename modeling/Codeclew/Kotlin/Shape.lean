import Codeclew.Kotlin.Descriptor

/-!
# Shapes of declarations

The shape of a declaration is its descriptor without what depends on where and how it was found. Two
shapes are compared in parts: nine projections of the fields that are known, each put into a normal
form of its own, and the rest of the fields as they are.

The projections forget something. `Alike` says of two shapes that they differ in nothing else, in
terms of their fields: `differences_eq_nil_iff` states that the parts of two shapes agree exactly if
the shapes are alike, for shapes of descriptors that have passed their check.
-/

namespace Codeclew.Kotlin

open Std List

/-! ## Declarations -/

inductive DeclarationKind where
  | function
  | constructor
  | cls
  | property
  | mutableProperty
  deriving DecidableEq, Repr

def DeclarationKind.name : DeclarationKind → String
  | function => "FUNCTION"
  | constructor => "CONSTRUCTOR"
  | cls => "CLASS"
  | property => "PROPERTY"
  | mutableProperty => "MUTABLE_PROPERTY"

inductive ImpactFindingAuthority where
  | exactProjectedDeclaration
  | navigationOnly
  | unsure
  deriving DecidableEq, Repr

def ImpactFindingAuthority.name : ImpactFindingAuthority → String
  | exactProjectedDeclaration => "EXACT_PROJECTED_DECLARATION"
  | navigationOnly => "NAVIGATION_ONLY"
  | unsure => "UNSURE"

structure ChangeDeclarationEvidence where
  findingId : String
  factId : String
  memberAlias : String
  authority : ImpactFindingAuthority
  declarationKind : DeclarationKind
  symbolIdentity : String
  compilerCallableId : Option String
  compilerClassId : Option String
  shapeDigest : Option String
  projectedShape : Json
  deriving DecidableEq

/-- The fields that are no part of a shape. -/
def omittedFields : List String :=
  ["schema", "file", "start", "end", "resolution", "provider", "module", "sourceSet",
    "sourceProvenance", "compilerAuthority", "attributeCoverage", "sourceRowHash"]

def projectedPayload (payload : Json) : Json :=
  .obj ((payload.asObj?.getD []).filter (·.1 ∉ omittedFields))

/-! ## Projections -/

/-- What precedes the first `sep`, and what follows it. -/
def splitOnce (sep : List Char) : List Char → Option (List Char × List Char)
  | [] => none
  | c :: cs =>
    if sep <+: c :: cs then some ([], (c :: cs).drop sep.length)
    else (splitOnce sep cs).map fun (before, after) ↦ (c :: before, after)

/-- The JVM signature in the identity of a symbol. -/
def identitySignature (identity : String) : Json :=
  match splitOnce ['#', 'j', 'v', 'm', ':'] (chars identity) with
  | some (_, signature) => .str (String.ofList signature)
  | none => .null

def jvmDescriptor (d : ChangeDeclarationEvidence) : Json :=
  (d.projectedShape.get? "jvmDescriptor").getD (identitySignature d.symbolIdentity)

/-- A rendered type without the question mark at its end. -/
def normalizedType : Json → Json
  | .str rendered => .str ((stripSuffix "?" rendered).getD rendered)
  | value => value

/-- The members of an object that are there. -/
def present (members : List (String × Option Json)) : Json :=
  .obj (members.filterMap fun (name, value) ↦ value.map fun value ↦ (name, value))

def elements (shape : Json) (name : String) : List Json :=
  ((shape.get? name).bind Json.asArr?).getD []

def parameterTypes (shape : Json) : Json :=
  .arr ((elements shape "parameterTypes").map fun parameter ↦
    present [("index", parameter.get? "index"),
      ("type", (parameter.get? "type").map normalizedType)])

def returnType (shape : Json) : Json :=
  present [("declaredType", (shape.get? "declaredType").map normalizedType),
    ("returnType", (shape.get? "returnType").map normalizedType)]

def receiverType (shape : Json) : Json :=
  match shape.get? "receiverType" with
  | none => .null
  | some receiver => normalizedType ((receiver.get? "type").getD receiver)

def nullability (shape : Json) : Json :=
  present [("declaredNullable", shape.get? "declaredNullable"),
    ("parameterNullability", ((shape.get? "parameterTypes").bind Json.asArr?).map fun parameters ↦
      .arr (parameters.map fun parameter ↦ parameter.getD "nullable")),
    ("receiverNullable", (shape.get? "receiverType").map fun receiver ↦ receiver.getD "nullable"),
    ("returnNullable", shape.get? "returnNullable")]

def typeParameterBounds (shape : Json) : Json :=
  .arr ((elements shape "typeParameters").map fun parameter ↦
    present [("bounds", parameter.get? "bounds"), ("index", parameter.get? "index")])

def visibility (shape : Json) : Json :=
  present [("effectiveVisibility", shape.get? "effectiveVisibility"),
    ("exportBoundary", shape.get? "exportBoundary"), ("visibility", shape.get? "visibility")]

/-- The fields that the projections look at. -/
def knownFields : List String :=
  ["symbolIdentity", "jvmDescriptor", "parameterTypes", "returnType", "returnNullable",
    "declaredType", "declaredNullable", "receiverType", "typeParameters", "visibility",
    "effectiveVisibility", "exportBoundary", "modality", "isOverride"]

def optionalText (value : Option String) : Json := (value.map Json.str).getD .null

/-- All other fields, with the kind and the compiler names of the declaration. -/
def residualShape (d : ChangeDeclarationEvidence) : ExtTreeMap String Json compare :=
  let others := ((d.projectedShape.asObj?).getD []).filter (·.1 ∉ knownFields)
  let kind := Json.str d.declarationKind.name
  (((ExtTreeMap.ofList others compare).insert "declarationKind" kind).insert
    "compilerCallableId" (optionalText d.compilerCallableId)).insert
    "compilerClassId" (optionalText d.compilerClassId)

inductive KotlinChangeCode where
  | callableAdded
  | callableRemoved
  | overloadSetChanged
  | jvmDescriptorChanged
  | parameterTypesChanged
  | returnTypeChanged
  | receiverTypeChanged
  | nullabilityChanged
  | typeParameterBoundsChanged
  | visibilityChanged
  | modalityChanged
  | overrideStatusChanged
  | unsupportedComparison
  deriving DecidableEq, Repr

/-- The nine projections, each with the code of a change in it. -/
def projections : List (KotlinChangeCode × (ChangeDeclarationEvidence → Json)) :=
  [(.jvmDescriptorChanged, jvmDescriptor),
    (.parameterTypesChanged, fun d ↦ parameterTypes d.projectedShape),
    (.returnTypeChanged, fun d ↦ returnType d.projectedShape),
    (.receiverTypeChanged, fun d ↦ receiverType d.projectedShape),
    (.nullabilityChanged, fun d ↦ nullability d.projectedShape),
    (.typeParameterBoundsChanged, fun d ↦ typeParameterBounds d.projectedShape),
    (.visibilityChanged, fun d ↦ visibility d.projectedShape),
    (.modalityChanged, fun d ↦ d.projectedShape.getD "modality"),
    (.overrideStatusChanged, fun d ↦ d.projectedShape.getD "isOverride")]

/-- The residuals of two declarations differ. -/
def residualChanged (before after : ChangeDeclarationEvidence) : Bool :=
  decide ((residualShape before).toList ≠ (residualShape after).toList)

/-- The codes of the changes between two declarations. -/
def differences (before after : ChangeDeclarationEvidence) : List KotlinChangeCode :=
  (projections.filter fun (_, projection) ↦ projection before ≠ projection after).map (·.1) ++
    if residualChanged before after then [.unsupportedComparison] else []

/-! ## Shapes that are alike -/

/-- Two types that agree, up to a question mark at the end of one of them. -/
def TypesAlike (a b : Option Json) : Prop :=
  a = b ∨ ∃ s : String, (chars s).getLast? ≠ some '?' ∧
    ((a = some (.str s) ∧ b = some (.str (s ++ "?"))) ∨
      (a = some (.str (s ++ "?")) ∧ b = some (.str s)))

/-- The types of two values agree, up to a question mark, and so does what is said about null. -/
structure SlotsAlike (a b : Json) : Prop where
  type : TypesAlike (a.get? "type") (b.get? "type")
  nullable : a.get? "nullable" = b.get? "nullable"

/-- Two shapes that differ in nothing but the presence of the JVM signature, question marks at the
end of types, what parameters and receivers have besides their type, and what type parameters have
besides their bounds. -/
structure Alike (a b : Json) : Prop where
  others : ∀ name, name ∉ ["jvmDescriptor", "parameterTypes", "returnType", "declaredType",
    "receiverType", "typeParameters"] → a.get? name = b.get? name
  returnType : TypesAlike (a.get? "returnType") (b.get? "returnType")
  declaredType : TypesAlike (a.get? "declaredType") (b.get? "declaredType")
  hasParameters : (a.get? "parameterTypes").isSome = (b.get? "parameterTypes").isSome
  parameters : List.Forall₂ SlotsAlike (elements a "parameterTypes") (elements b "parameterTypes")
  receiver : Option.Rel SlotsAlike (a.get? "receiverType") (b.get? "receiverType")
  typeParameters : List.Forall₂ (fun x y ↦ x.get? "bounds" = y.get? "bounds")
    (elements a "typeParameters") (elements b "typeParameters")

/-! ## Normal forms -/

/-- A name that is left out does not come further on. -/
theorem filterMap_ne_cons {xs : List (String × Option Json)} {name : String}
    (h : name ∉ xs.map Prod.fst) (v : Json) (rest : List (String × Json)) :
    (xs.filterMap fun (name, value) ↦ value.map fun value ↦ (name, value)) ≠ (name, v) :: rest := by
  intro heq
  obtain ⟨⟨name', value⟩, hmem, hv⟩ := mem_filterMap.mp (heq ▸ mem_cons_self)
  obtain ⟨_, -, hname⟩ := Option.map_eq_some_iff.mp hv
  exact h (mem_map.mpr ⟨_, hmem, congrArg Prod.fst hname⟩)

/-- Objects over the same names agree if their members do. -/
theorem present_eq_iff {xs ys : List (String × Option Json)}
    (hnames : xs.map Prod.fst = ys.map Prod.fst) (hnodup : (xs.map Prod.fst).Nodup) :
    present xs = present ys ↔ xs = ys := by
  rw [present, present, Json.obj.injEq]
  induction xs generalizing ys with
  | nil =>
    rw [map_nil, eq_comm, map_eq_nil_iff] at hnames
    simp [hnames]
  | cons x xs ih =>
    obtain ⟨name, v⟩ := x
    obtain ⟨⟨name', w⟩, ys, rfl, hname, htail⟩ := map_eq_cons_iff.mp hnames.symm
    obtain rfl : name = name' := hname.symm
    rw [map_cons, nodup_cons] at hnodup
    have hrest := ih htail.symm hnodup.2
    rcases v with _ | v <;> rcases w with _ | w
    · simpa using hrest
    · exact iff_of_false (filterMap_ne_cons hnodup.1 w _) (by simp)
    · have hys : name ∉ ys.map Prod.fst := htail ▸ hnodup.1
      exact iff_of_false (filterMap_ne_cons hys v _).symm (by simp)
    · simp [hrest]

theorem stripSuffix_eq_none_iff {s : String} :
    stripSuffix "?" s = none ↔ (chars s).getLast? ≠ some '?' := by
  rw [stripSuffix, ite_eq_right_iff]
  simp only [reduceCtorEq, imp_false]
  refine not_congr ?_
  rw [List.getLast?_eq_some_iff]
  exact exists_congr fun _ ↦ eq_comm

theorem normalizedType_append (s : String) : normalizedType (.str (s ++ "?")) = .str s := by
  rw [normalizedType, stripSuffix_eq_some_iff.mpr rfl, Option.getD_some]

theorem normalizedType_of_getLast {s : String} (h : (chars s).getLast? ≠ some '?') :
    normalizedType (.str s) = .str s := by
  rw [normalizedType, stripSuffix_eq_none_iff.mpr h, Option.getD_none]

variable {a b : Json}

/-- A type loses the question mark at its end, or it has none there and stays as it is. -/
theorem normalizedType_cases (a : Json) :
    (∃ s, a = .str (s ++ "?") ∧ normalizedType a = .str s) ∨
      normalizedType a = a ∧ ∀ s, a = .str s → (chars s).getLast? ≠ some '?' := by
  cases a with
  | str s =>
    rcases hstem : stripSuffix "?" s with _ | stem
    · have hs := stripSuffix_eq_none_iff.mp hstem
      exact .inr ⟨normalizedType_of_getLast hs, fun t ht ↦ Json.str.inj ht ▸ hs⟩
    · obtain rfl := stripSuffix_eq_some_iff.mp hstem
      exact .inl ⟨stem, rfl, normalizedType_append stem⟩
  | _ => exact .inr ⟨rfl, nofun⟩

theorem normalizedType_eq_iff :
    normalizedType a = normalizedType b ↔ TypesAlike (some a) (some b) := by
  constructor
  · intro h
    rcases normalizedType_cases a with ⟨s, rfl, hs⟩ | ⟨ha, hlast⟩ <;>
      rcases normalizedType_cases b with ⟨t, rfl, ht⟩ | ⟨hb, hlast'⟩
    · rw [hs, ht] at h
      rw [Json.str.inj h]
      exact .inl rfl
    · rw [hs, hb] at h
      exact .inr ⟨s, hlast' s h.symm, .inr ⟨rfl, congrArg some h.symm⟩⟩
    · rw [ha, ht] at h
      exact .inr ⟨t, hlast t h, .inl ⟨congrArg some h, rfl⟩⟩
    · rw [ha, hb] at h
      exact .inl (congrArg some h)
  · rintro (h | ⟨s, hs, ⟨ha, hb⟩ | ⟨ha, hb⟩⟩)
    · rw [Option.some.inj h]
    · rw [Option.some.inj ha, Option.some.inj hb, normalizedType_append,
        normalizedType_of_getLast hs]
    · rw [Option.some.inj ha, Option.some.inj hb, normalizedType_append,
        normalizedType_of_getLast hs]

theorem map_normalizedType_eq_iff {a b : Option Json} :
    a.map normalizedType = b.map normalizedType ↔ TypesAlike a b := by
  rcases a with _ | a <;> rcases b with _ | b
  · exact iff_of_true rfl (.inl rfl)
  · exact iff_of_false (by simp) (by simp [TypesAlike])
  · exact iff_of_false (by simp) (by simp [TypesAlike])
  · rw [Option.map_some, Option.map_some, Option.some.injEq, normalizedType_eq_iff]

/-! ## Lookups -/

variable {members : List (String × Json)}

theorem mem_of_get? {name : String} {value : Json} (h : (Json.obj members).get? name = some value) :
    (name, value) ∈ members := by
  obtain ⟨⟨name', value'⟩, hfind, rfl⟩ := Option.map_eq_some_iff.mp h
  obtain rfl : name' = name := by simpa using List.find?_some hfind
  exact mem_of_find?_eq_some hfind

theorem get?_eq_some_iff (hnodup : (members.map Prod.fst).Nodup) {name : String} {value : Json} :
    (Json.obj members).get? name = some value ↔ (name, value) ∈ members := by
  refine ⟨mem_of_get?, fun h ↦ ?_⟩
  induction members with
  | nil => simp at h
  | cons m members ih =>
    obtain ⟨name', value'⟩ := m
    rw [map_cons, nodup_cons] at hnodup
    rw [Json.get?_cons]
    split_ifs with hname
    · obtain rfl : name' = name := hname
      rcases mem_cons.mp h with heq | hmem
      · cases heq
        rfl
      · exact absurd (mem_map.mpr ⟨_, hmem, rfl⟩) hnodup.1
    · refine ih hnodup.2 ((mem_cons.mp h).resolve_left fun heq ↦ hname ?_)
      exact (congrArg Prod.fst heq).symm

theorem get?_filter (members : List (String × Json)) (names : List String) (name : String) :
    (Json.obj (members.filter (·.1 ∉ names))).get? name =
      if name ∈ names then none else (Json.obj members).get? name := by
  induction members with
  | nil => simp [Json.get?]
  | cons m members ih =>
    obtain ⟨name', value⟩ := m
    rw [filter_cons, Json.get?_cons]
    by_cases hmem : name' ∈ names
    · rw [if_neg (by simpa using hmem), ih]
      by_cases hname : name' = name
      · rw [if_pos (hname ▸ hmem), if_pos (hname ▸ hmem)]
      · rw [if_neg hname]
    · rw [if_pos (by simpa using hmem), Json.get?_cons, ih]
      by_cases hname : name' = name
      · rw [if_pos hname, if_neg (hname ▸ hmem), if_pos hname]
      · rw [if_neg hname, if_neg hname]

theorem getElem?_ofList (hnodup : (members.map Prod.fst).Nodup) (name : String) :
    (ExtTreeMap.ofList members compare)[name]? = (Json.obj members).get? name := by
  rcases hget : (Json.obj members).get? name with _ | value
  · refine ExtTreeMap.getElem?_ofList_of_contains_eq_false ?_
    rw [← Bool.not_eq_true, contains_iff_mem, mem_map]
    rintro ⟨⟨_, value⟩, hmem, rfl⟩
    rw [(get?_eq_some_iff hnodup).mpr hmem] at hget
    cases hget
  · refine ExtTreeMap.getElem?_ofList_of_mem (ReflCmp.compare_self) ?_ (mem_of_get? hget)
    rw [← pairwise_map (f := Prod.fst) (R := fun a b : String ↦ ¬compare a b = .eq)]
    exact hnodup.imp fun hne heq ↦ hne (LawfulEqCmp.eq_of_compare heq)

/-! ## Described declarations -/

/-- A value with a type, and with a word on whether it may be null. -/
structure Typed (value : Json) : Prop where
  type : ∃ rendered, value.get? "type" = some (.str rendered)
  nullable : ∃ flag, value.get? "nullable" = some (.bool flag)

/-- A value that states its place. -/
def IsAt (value : Json) (index : ℕ) : Prop :=
  value.get? "index" = some (Json.ofU64 (UInt64.ofNat index))

/-- What is known of a declaration if its descriptor has passed the check. -/
structure Described (d : ChangeDeclarationEvidence) : Prop where
  distinct : ∃ members, d.projectedShape = .obj members ∧ (members.map Prod.fst).Nodup
  signature : jvmDescriptor d = identitySignature d.symbolIdentity
  symbol : d.projectedShape.get? "symbolIdentity" = some (.str d.symbolIdentity)
  kind : d.projectedShape.get? "declarationKind" = some (.str d.declarationKind.name)
  callable : d.projectedShape.get? "compilerCallableId" = d.compilerCallableId.map .str
  cls : d.projectedShape.get? "compilerClassId" = d.compilerClassId.map .str
  parameters : ∀ value, d.projectedShape.get? "parameterTypes" = some value →
    ∃ slots, value = .arr slots ∧
      ∀ index slot, slots[index]? = some slot → IsAt slot index ∧ Typed slot
  receiver : ∀ value, d.projectedShape.get? "receiverType" = some value → Typed value
  typeParameters : ∃ slots, d.projectedShape.get? "typeParameters" = some (.arr slots) ∧
    ∀ index slot, slots[index]? = some slot → IsAt slot index
  modality : d.projectedShape.get? "modality" ≠ some .null
  isOverride : d.projectedShape.get? "isOverride" ≠ some .null

theorem elements_eq_of_get? {shape : Json} {name : String} {slots : List Json}
    (h : shape.get? name = some (.arr slots)) : elements shape name = slots := by
  rw [elements, h]
  rfl

theorem elements_eq_nil_of_get? {shape : Json} {name : String} (h : shape.get? name = none) :
    elements shape name = [] := by
  rw [elements, h]
  rfl

variable {d : ChangeDeclarationEvidence}

theorem Described.getElem?_parameters (h : Described d) {index : ℕ} {slot : Json}
    (hslot : (elements d.projectedShape "parameterTypes")[index]? = some slot) :
    IsAt slot index ∧ Typed slot := by
  rcases hvalue : d.projectedShape.get? "parameterTypes" with _ | value
  · rw [elements_eq_nil_of_get? hvalue] at hslot
    cases hslot
  · obtain ⟨slots, rfl, hslots⟩ := h.parameters value hvalue
    rw [elements_eq_of_get? hvalue] at hslot
    exact hslots index slot hslot

theorem Described.getElem?_typeParameters (h : Described d) {index : ℕ} {slot : Json}
    (hslot : (elements d.projectedShape "typeParameters")[index]? = some slot) :
    IsAt slot index := by
  obtain ⟨slots, hvalue, hslots⟩ := h.typeParameters
  rw [elements_eq_of_get? hvalue] at hslot
  exact hslots index slot hslot

/-! ## The projections of described declarations -/

/-- Lists are the same after a map if the map agrees at each place. -/
theorem map_eq_map_iff_forall₂ {α β : Type} {f : α → β} {S : α → α → Prop} {xs ys : List α}
    (h : ∀ (i : ℕ) (x y : α), xs[i]? = some x → ys[i]? = some y → (f x = f y ↔ S x y)) :
    xs.map f = ys.map f ↔ List.Forall₂ S xs ys := by
  rw [← forall₂_eq_eq_eq, forall₂_map_left_iff, forall₂_map_right_iff, forall₂_iff_get,
    forall₂_iff_get]
  refine and_congr_right fun _ ↦ forall₃_congr fun i hx hy ↦ ?_
  exact h i _ _ (List.getElem?_eq_getElem hx) (List.getElem?_eq_getElem hy)

variable {x y : ChangeDeclarationEvidence}

theorem parameterTypes_eq_iff (hx : Described x) (hy : Described y) :
    parameterTypes x.projectedShape = parameterTypes y.projectedShape ↔
      List.Forall₂ (fun p q ↦ TypesAlike (p.get? "type") (q.get? "type"))
        (elements x.projectedShape "parameterTypes")
        (elements y.projectedShape "parameterTypes") := by
  rw [parameterTypes, parameterTypes, Json.arr.injEq]
  refine map_eq_map_iff_forall₂ fun i p q hp hq ↦ ?_
  have hindex : p.get? "index" = q.get? "index" :=
    (hx.getElem?_parameters hp).1.trans (hy.getElem?_parameters hq).1.symm
  rw [present_eq_iff (by rfl) (by simp), hindex]
  simp [map_normalizedType_eq_iff]

theorem typeParameterBounds_eq_iff (hx : Described x) (hy : Described y) :
    typeParameterBounds x.projectedShape = typeParameterBounds y.projectedShape ↔
      List.Forall₂ (fun p q ↦ p.get? "bounds" = q.get? "bounds")
        (elements x.projectedShape "typeParameters")
        (elements y.projectedShape "typeParameters") := by
  rw [typeParameterBounds, typeParameterBounds, Json.arr.injEq]
  refine map_eq_map_iff_forall₂ fun i p q hp hq ↦ ?_
  have hindex : p.get? "index" = q.get? "index" :=
    (hx.getElem?_typeParameters hp).trans (hy.getElem?_typeParameters hq).symm
  rw [present_eq_iff (by rfl) (by simp), hindex]
  simp

theorem returnType_eq_iff :
    Kotlin.returnType a = Kotlin.returnType b ↔
      TypesAlike (a.get? "declaredType") (b.get? "declaredType") ∧
        TypesAlike (a.get? "returnType") (b.get? "returnType") := by
  rw [Kotlin.returnType, Kotlin.returnType, present_eq_iff (by rfl) (by simp)]
  simp [map_normalizedType_eq_iff]

theorem visibility_eq_iff :
    visibility a = visibility b ↔
      a.get? "effectiveVisibility" = b.get? "effectiveVisibility" ∧
        a.get? "exportBoundary" = b.get? "exportBoundary" ∧
        a.get? "visibility" = b.get? "visibility" := by
  rw [visibility, visibility, present_eq_iff (by rfl) (by simp)]
  simp

theorem getD_eq_iff {name : String} (ha : a.get? name ≠ some .null)
    (hb : b.get? name ≠ some .null) :
    a.getD name = b.getD name ↔ a.get? name = b.get? name := by
  rw [Json.getD, Json.getD]
  rcases hx : a.get? name with _ | v <;> rcases hy : b.get? name with _ | w
  · simp
  · refine iff_of_false (fun h ↦ hb ?_) (by simp)
    rw [hy, ← show Json.null = w from h]
  · refine iff_of_false (fun h ↦ ha ?_) (by simp)
    rw [hx, show v = Json.null from h]
  · simp

theorem receiverType_eq_iff (hx : Described x) (hy : Described y) :
    receiverType x.projectedShape = receiverType y.projectedShape ↔
      Option.Rel (fun r s ↦ TypesAlike (r.get? "type") (s.get? "type"))
        (x.projectedShape.get? "receiverType") (y.projectedShape.get? "receiverType") := by
  rw [receiverType, receiverType]
  rcases hr : x.projectedShape.get? "receiverType" with _ | r <;>
    rcases hs : y.projectedShape.get? "receiverType" with _ | s
  · exact iff_of_true rfl .none
  · obtain ⟨rendered, htype⟩ := (hy.receiver s hs).type
    exact iff_of_false (by simp [htype, normalizedType]) (by simp)
  · obtain ⟨rendered, htype⟩ := (hx.receiver r hr).type
    exact iff_of_false (by simp [htype, normalizedType]) (by simp)
  · obtain ⟨a, ha⟩ := (hx.receiver r hr).type
    obtain ⟨b, hb⟩ := (hy.receiver s hs).type
    rw [Option.rel_some_some, ha, hb, ← normalizedType_eq_iff]
    simp only [ha, hb, Option.getD_some]

theorem getD_nullable_eq_iff (ha : Typed a) (hb : Typed b) :
    a.getD "nullable" = b.getD "nullable" ↔ a.get? "nullable" = b.get? "nullable" := by
  obtain ⟨f, hf⟩ := ha.nullable
  obtain ⟨g, hg⟩ := hb.nullable
  exact getD_eq_iff (by simp [hf]) (by simp [hg])

theorem parameterNullability_eq_iff (hx : Described x) (hy : Described y) :
    (((x.projectedShape.get? "parameterTypes").bind Json.asArr?).map fun parameters ↦
        Json.arr (parameters.map fun parameter ↦ parameter.getD "nullable")) =
      (((y.projectedShape.get? "parameterTypes").bind Json.asArr?).map fun parameters ↦
        Json.arr (parameters.map fun parameter ↦ parameter.getD "nullable")) ↔
    (x.projectedShape.get? "parameterTypes").isSome =
        (y.projectedShape.get? "parameterTypes").isSome ∧
      List.Forall₂ (fun p q ↦ p.get? "nullable" = q.get? "nullable")
        (elements x.projectedShape "parameterTypes")
        (elements y.projectedShape "parameterTypes") := by
  have hslots : (elements x.projectedShape "parameterTypes").map (·.getD "nullable") =
      (elements y.projectedShape "parameterTypes").map (·.getD "nullable") ↔
      List.Forall₂ (fun p q ↦ p.get? "nullable" = q.get? "nullable")
        (elements x.projectedShape "parameterTypes")
        (elements y.projectedShape "parameterTypes") :=
    map_eq_map_iff_forall₂ fun i p q hp hq ↦
      getD_nullable_eq_iff (hx.getElem?_parameters hp).2 (hy.getElem?_parameters hq).2
  rw [← hslots]
  rcases hp : x.projectedShape.get? "parameterTypes" with _ | p <;>
    rcases hq : y.projectedShape.get? "parameterTypes" with _ | q
  · simp [elements_eq_nil_of_get? hp, elements_eq_nil_of_get? hq]
  · obtain ⟨slots, rfl, -⟩ := hy.parameters q hq
    simp [Json.asArr?]
  · obtain ⟨slots, rfl, -⟩ := hx.parameters p hp
    simp [Json.asArr?]
  · obtain ⟨slots, rfl, -⟩ := hx.parameters p hp
    obtain ⟨slots', rfl, -⟩ := hy.parameters q hq
    simp [Json.asArr?, elements_eq_of_get? hp, elements_eq_of_get? hq]

theorem receiverNullable_eq_iff (hx : Described x) (hy : Described y) :
    ((x.projectedShape.get? "receiverType").map fun receiver ↦ receiver.getD "nullable") =
      ((y.projectedShape.get? "receiverType").map fun receiver ↦ receiver.getD "nullable") ↔
    Option.Rel (fun r s ↦ r.get? "nullable" = s.get? "nullable")
      (x.projectedShape.get? "receiverType") (y.projectedShape.get? "receiverType") := by
  rcases hr : x.projectedShape.get? "receiverType" with _ | r <;>
    rcases hs : y.projectedShape.get? "receiverType" with _ | s
  · exact iff_of_true rfl .none
  · exact iff_of_false (by simp) nofun
  · exact iff_of_false (by simp) nofun
  · rw [Option.rel_some_some, Option.map_some, Option.map_some, Option.some.injEq,
      getD_nullable_eq_iff (hx.receiver r hr) (hy.receiver s hs)]

theorem nullability_eq_iff (hx : Described x) (hy : Described y) :
    nullability x.projectedShape = nullability y.projectedShape ↔
      x.projectedShape.get? "declaredNullable" = y.projectedShape.get? "declaredNullable" ∧
      ((x.projectedShape.get? "parameterTypes").isSome =
          (y.projectedShape.get? "parameterTypes").isSome ∧
        List.Forall₂ (fun p q ↦ p.get? "nullable" = q.get? "nullable")
          (elements x.projectedShape "parameterTypes")
          (elements y.projectedShape "parameterTypes")) ∧
      Option.Rel (fun r s ↦ r.get? "nullable" = s.get? "nullable")
        (x.projectedShape.get? "receiverType") (y.projectedShape.get? "receiverType") ∧
      x.projectedShape.get? "returnNullable" = y.projectedShape.get? "returnNullable" := by
  rw [nullability, nullability, present_eq_iff (by rfl) (by simp),
    ← parameterNullability_eq_iff hx hy, ← receiverNullable_eq_iff hx hy]
  simp only [List.cons.injEq, Prod.mk.injEq, true_and, and_true]

/-- The residual has the fields of the shape that are not known, and says of the compiler's names
when there is none. -/
theorem Described.getElem?_residualShape (h : Described x) (name : String) :
    (residualShape x)[name]? =
      if name = "compilerClassId" ∨ name = "compilerCallableId" then
        some (x.projectedShape.getD name)
      else if name ∈ knownFields then none else x.projectedShape.get? name := by
  obtain ⟨members, hshape, hnodup⟩ := h.distinct
  have hothers : ((members.filter (·.1 ∉ knownFields)).map Prod.fst).Nodup :=
    hnodup.sublist (filter_sublist.map Prod.fst)
  have hlookup : (residualShape x)[name]? =
      if "compilerClassId" = name then some (optionalText x.compilerClassId)
      else if "compilerCallableId" = name then some (optionalText x.compilerCallableId)
      else if "declarationKind" = name then some (.str x.declarationKind.name)
      else if name ∈ knownFields then none else x.projectedShape.get? name := by
    rw [residualShape, hshape, Json.asObj?, Option.getD_some, ExtTreeMap.getElem?_insert,
      ExtTreeMap.getElem?_insert, ExtTreeMap.getElem?_insert, getElem?_ofList hothers, get?_filter]
    simp only [Std.compare_eq_iff_eq]
  rw [hlookup]
  by_cases hcls : "compilerClassId" = name
  · subst hcls
    rw [if_pos rfl, if_pos (.inl rfl), optionalText, Json.getD, h.cls]
  by_cases hcallable : "compilerCallableId" = name
  · subst hcallable
    rw [if_neg hcls, if_pos rfl, if_pos (.inr rfl), optionalText, Json.getD, h.callable]
  have hname : ¬(name = "compilerClassId" ∨ name = "compilerCallableId") := by
    rintro (rfl | rfl)
    · exact hcls rfl
    · exact hcallable rfl
  rw [if_neg hcls, if_neg hcallable, if_neg hname]
  by_cases hkind : "declarationKind" = name
  · subst hkind
    rw [if_pos rfl, if_neg (by decide), h.kind]
  · rw [if_neg hkind]

theorem residualShape_eq_iff (hx : Described x) (hy : Described y) :
    residualShape x = residualShape y ↔
      ∀ name, name ∉ knownFields → x.projectedShape.get? name = y.projectedShape.get? name := by
  have hids : ∀ name, name = "compilerClassId" ∨ name = "compilerCallableId" →
      (x.projectedShape.getD name = y.projectedShape.getD name ↔
        x.projectedShape.get? name = y.projectedShape.get? name) := by
    rintro name (rfl | rfl)
    · exact getD_eq_iff (by simp [hx.cls]) (by simp [hy.cls])
    · exact getD_eq_iff (by simp [hx.callable]) (by simp [hy.callable])
  constructor
  · intro h name hname
    have hlookup := congrArg (·[name]?) h
    rw [hx.getElem?_residualShape, hy.getElem?_residualShape] at hlookup
    by_cases hid : name = "compilerClassId" ∨ name = "compilerCallableId"
    · rw [if_pos hid, if_pos hid] at hlookup
      exact (hids name hid).mp (Option.some.inj hlookup)
    · rwa [if_neg hid, if_neg hid, if_neg hname, if_neg hname] at hlookup
  · intro h
    refine ExtTreeMap.ext_getElem? fun name ↦ ?_
    rw [hx.getElem?_residualShape, hy.getElem?_residualShape]
    by_cases hid : name = "compilerClassId" ∨ name = "compilerCallableId"
    · rw [if_pos hid, if_pos hid, (hids name hid).mpr (h name ?_)]
      rcases hid with rfl | rfl <;> decide
    · rw [if_neg hid, if_neg hid]
      by_cases hname : name ∈ knownFields
      · rw [if_pos hname, if_pos hname]
      · rw [if_neg hname, if_neg hname, h name hname]

/-! ## Differences -/

theorem differences_eq_nil_iff_forall :
    differences x y = [] ↔
      (∀ p ∈ projections, p.2 x = p.2 y) ∧ residualShape x = residualShape y := by
  rw [differences, append_eq_nil_iff, map_eq_nil_iff, filter_eq_nil_iff]
  refine and_congr (forall₂_congr fun p _ ↦ by simp) ?_
  simp [residualChanged, ExtTreeMap.toList_inj]

theorem forall₂_slotsAlike_iff {ps qs : List Json} :
    List.Forall₂ SlotsAlike ps qs ↔
      List.Forall₂ (fun p q ↦ TypesAlike (p.get? "type") (q.get? "type")) ps qs ∧
        List.Forall₂ (fun p q ↦ p.get? "nullable" = q.get? "nullable") ps qs := by
  constructor
  · exact fun h ↦ ⟨h.imp fun _ _ ↦ SlotsAlike.type, h.imp fun _ _ ↦ SlotsAlike.nullable⟩
  · rintro ⟨htype, hnullable⟩
    rw [forall₂_iff_get] at htype hnullable ⊢
    exact ⟨htype.1, fun i hp hq ↦ ⟨htype.2 i hp hq, hnullable.2 i hp hq⟩⟩

theorem rel_slotsAlike_iff {r s : Option Json} :
    Option.Rel SlotsAlike r s ↔
      Option.Rel (fun r s ↦ TypesAlike (r.get? "type") (s.get? "type")) r s ∧
        Option.Rel (fun r s ↦ r.get? "nullable" = s.get? "nullable") r s := by
  rcases r with _ | r <;> rcases s with _ | s
  · exact iff_of_true .none ⟨.none, .none⟩
  · exact iff_of_false nofun nofun
  · exact iff_of_false nofun nofun
  · simp only [Option.rel_some_some]
    exact ⟨fun h ↦ ⟨h.type, h.nullable⟩, fun ⟨htype, hnullable⟩ ↦ ⟨htype, hnullable⟩⟩

/-- Two declarations of a symbol have no differences if their shapes are alike, and only then. -/
theorem differences_eq_nil_iff (hx : Described x) (hy : Described y)
    (hsymbol : x.symbolIdentity = y.symbolIdentity) :
    differences x y = [] ↔ Alike x.projectedShape y.projectedShape := by
  have hsignature : jvmDescriptor x = jvmDescriptor y := by
    rw [hx.signature, hy.signature, hsymbol]
  rw [differences_eq_nil_iff_forall, residualShape_eq_iff hx hy]
  simp only [projections, forall_mem_cons, hsignature, parameterTypes_eq_iff hx hy,
    returnType_eq_iff, receiverType_eq_iff hx hy, nullability_eq_iff hx hy,
    typeParameterBounds_eq_iff hx hy, visibility_eq_iff, getD_eq_iff hx.modality hy.modality,
    getD_eq_iff hx.isOverride hy.isOverride]
  constructor
  · rintro ⟨⟨-, htypes, ⟨hdeclared, hreturn⟩, hreceiver, ⟨hdeclaredNullable, ⟨hsome, hnullable⟩,
      hreceiverNullable, hreturnNullable⟩, hbounds, ⟨heffective, hboundary, hvisibility⟩, hmodality,
      hoverride, -⟩, hothers⟩
    refine ⟨fun name hname ↦ ?_, hreturn, hdeclared, hsome,
      forall₂_slotsAlike_iff.mpr ⟨htypes, hnullable⟩,
      rel_slotsAlike_iff.mpr ⟨hreceiver, hreceiverNullable⟩, hbounds⟩
    by_cases hknown : name ∈ knownFields
    · have hsymbolIdentity : x.projectedShape.get? "symbolIdentity" =
          y.projectedShape.get? "symbolIdentity" := by
        rw [hx.symbol, hy.symbol, hsymbol]
      simp only [knownFields, mem_cons, not_mem_nil, or_false] at hknown hname
      rcases hknown with rfl | rfl | rfl | rfl | rfl | rfl | rfl | rfl | rfl | rfl | rfl | rfl |
        rfl | rfl <;> first | assumption | simp at hname
    · exact hothers name hknown
  · intro h
    obtain ⟨htypes, hnullable⟩ := forall₂_slotsAlike_iff.mp h.parameters
    obtain ⟨hreceiver, hreceiverNullable⟩ := rel_slotsAlike_iff.mp h.receiver
    refine ⟨⟨trivial, htypes, ⟨h.declaredType, h.returnType⟩, hreceiver,
      ⟨h.others _ (by decide), ⟨h.hasParameters, hnullable⟩, hreceiverNullable,
        h.others _ (by decide)⟩,
      h.typeParameters, ⟨h.others _ (by decide), h.others _ (by decide), h.others _ (by decide)⟩,
      h.others _ (by decide), h.others _ (by decide), nofun⟩,
      fun name hname ↦ h.others name fun hmem ↦ hname ?_⟩
    simp only [mem_cons, not_mem_nil, or_false] at hmem
    rcases hmem with rfl | rfl | rfl | rfl | rfl | rfl <;> decide

end Codeclew.Kotlin
