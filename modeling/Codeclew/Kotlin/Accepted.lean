import Codeclew.Kotlin.Shape

/-!
# Accepted descriptors

What a descriptor that passed its check says about the declaration that is read off it. The field
closure leaves each kind of declaration its own fields, and the checks of the kinds are about these;
`Exact.described` puts the kinds together again.
-/

namespace Codeclew.Kotlin

open List

variable {value : Json} {field s : String}

/-! ## Access -/

theorem text?_eq_some_iff : text? value field = some s ↔ value.get? field = some (.str s) := by
  rw [text?, Option.bind_eq_some_iff]
  constructor
  · rintro ⟨content, hget, hstr⟩
    cases content with
    | str t => rw [hget, Option.some.inj hstr]
    | _ => cases hstr
  · exact fun h ↦ ⟨_, h, rfl⟩

theorem filter_text?_eq_some_iff :
    (text? value field).filter (· ≠ "") = some s ↔ value.get? field = some (.str s) ∧ s ≠ "" := by
  rw [Option.filter_eq_some_iff, text?_eq_some_iff]
  simp

theorem payloadString_eq_ok_iff :
    payloadString value field = .ok s ↔ value.get? field = some (.str s) ∧ s ≠ "" := by
  rw [payloadString, ← filter_text?_eq_some_iff]
  cases (text? value field).filter (· ≠ "") <;> simp

theorem requiredString_eq_ok_iff :
    requiredString value field = .ok s ↔ value.get? field = some (.str s) ∧ s ≠ "" := by
  rw [requiredString, ← filter_text?_eq_some_iff]
  cases (text? value field).filter (· ≠ "") <;> simp

variable {content : Option Json}

theorem isBool_iff :
    isBool content = true ↔ ∃ b, content = some (.bool b) := by
  rw [isBool, Option.isSome_iff_exists]
  constructor
  · rintro ⟨b, h⟩
    obtain ⟨content, rfl, hb⟩ := Option.bind_eq_some_iff.mp h
    cases content with
    | bool c => exact ⟨c, rfl⟩
    | _ => cases hb
  · rintro ⟨b, rfl⟩
    exact ⟨b, rfl⟩

/-! ## Slots -/

theorem typed_of_validateTypedValue {typeField nullField : String}
    (h : validateTypedValue value typeField nullField = .ok ()) :
    (∃ rendered, value.get? typeField = some (.str rendered)) ∧
      ∃ flag, value.get? nullField = some (.bool flag) := by
  obtain ⟨rendered, hrendered, h⟩ := bind_eq_ok_iff.mp h
  refine ⟨⟨rendered, (requiredString_eq_ok_iff.mp hrendered).1⟩, isBool_iff.mp ?_⟩
  rw [isBool]
  rcases hflag : (value.get? nullField).bind Json.asBool? with _ | flag
  · simp only [hflag] at h
    cases h
  · rfl

theorem forEachIndexed_eq_ok_iff {check : Json → ℕ → Except ClewError Unit} {start : ℕ}
    {slots : List Json} :
    forEachIndexed check start slots = .ok () ↔
      ∀ index slot, slots[index]? = some slot → check slot (start + index) = .ok () := by
  induction slots generalizing start with
  | nil => simp [forEachIndexed]
  | cons x slots ih =>
    rw [forEachIndexed, bind_eq_ok_iff]
    constructor
    · rintro ⟨⟨⟩, hx, hslots⟩ index slot hslot
      rcases index with _ | index
      · obtain rfl : x = slot := Option.some.inj hslot
        exact hx
      · rw [Nat.add_comm index, ← Nat.add_assoc]
        exact ih.mp hslots index slot hslot
    · intro h
      refine ⟨(), h 0 x rfl, ih.mpr fun index slot hslot ↦ ?_⟩
      rw [Nat.add_assoc, Nat.add_comm 1]
      exact h (index + 1) slot hslot

variable {index : ℕ}

theorem isAt_iff :
    IsAt value index ↔ (value.get? "index").bind Json.asU64? = some (UInt64.ofNat index) := by
  rw [IsAt, Option.bind_eq_some_iff]
  constructor
  · exact fun h ↦ ⟨_, h, Json.asU64?_ofU64 _⟩
  · rintro ⟨content, hget, hcontent⟩
    rw [hget, Json.asU64?_eq_some_iff.mp hcontent]

theorem slot_of_validateParameterSlot (h : validateParameterSlot value index = .ok ()) :
    IsAt value index ∧ Typed value := by
  obtain ⟨⟨⟩, -, h⟩ := bind_eq_ok_iff.mp h
  obtain ⟨hindex, h⟩ := ensure_bind_eq_ok_iff.mp h
  obtain ⟨⟨⟩, htyped, -⟩ := bind_eq_ok_iff.mp h
  obtain ⟨htype, hnullable⟩ := typed_of_validateTypedValue htyped
  exact ⟨isAt_iff.mpr hindex, htype, hnullable⟩

theorem slot_of_validateConstructorSlot (h : validateConstructorSlot value index = .ok ()) :
    IsAt value index ∧ Typed value := by
  obtain ⟨⟨⟩, -, h⟩ := bind_eq_ok_iff.mp h
  exact slot_of_validateParameterSlot h

theorem isAt_of_validateTypeParameter (h : validateTypeParameter value index = .ok ()) :
    IsAt value index := by
  obtain ⟨⟨hindex, -⟩, -⟩ := ensure_bind_eq_ok_iff.mp h
  exact isAt_iff.mpr hindex

theorem arr_of_asArr? {slots : List Json} (h : content.bind Json.asArr? = some slots) :
    content = some (.arr slots) := by
  obtain ⟨content, rfl, hslots⟩ := Option.bind_eq_some_iff.mp h
  cases content with
  | arr xs => rw [Option.some.inj hslots]
  | _ => cases hslots

variable {kind : String}

theorem slots_of_validateParameterTypes {slot : Json → ℕ → Except ClewError Unit}
    (h : validateParameterTypes slot value kind = .ok ()) :
    ∃ slots, value.get? "parameterTypes" = some (.arr slots) ∧
      ∀ index x, slots[index]? = some x → slot x index = .ok () := by
  rw [validateParameterTypes] at h
  rcases hslots : (value.get? "parameterTypes").bind Json.asArr? with _ | slots <;>
    simp only [hslots] at h
  · cases h
  · refine ⟨slots, arr_of_asArr? hslots, fun index x hx ↦ ?_⟩
    simpa using forEachIndexed_eq_ok_iff.mp h index x hx

theorem slots_of_validateTypeParameters (h : validateTypeParameters value = .ok ()) :
    ∃ slots, value.get? "typeParameters" = some (.arr slots) ∧
      ∀ index x, slots[index]? = some x → IsAt x index := by
  rw [validateTypeParameters] at h
  rcases hslots : (value.get? "typeParameters").bind Json.asArr? with _ | slots <;>
    simp only [hslots] at h
  · cases h
  · refine ⟨slots, arr_of_asArr? hslots, fun index x hx ↦ isAt_of_validateTypeParameter ?_⟩
    simpa using forEachIndexed_eq_ok_iff.mp h index x hx

/-! ## Signatures -/

variable {c : Char}

theorem infix_of_infix_append {sep front cs : List Char} (hc : c ∉ front)
    (h : c :: sep <:+: front ++ cs) : c :: sep <:+: cs := by
  induction front with
  | nil => exact h
  | cons d front ih =>
    rw [mem_cons, not_or] at hc
    rw [cons_append, infix_cons_iff, cons_prefix_cons] at h
    exact ih hc.2 (h.resolve_left fun h ↦ hc.1 h.1)

/-- The first separator is the one that follows a text without separators, since none can begin
inside of another. -/
theorem splitOnce_append {sep front : List Char} (hc : c ∉ sep) (hfront : ¬c :: sep <:+: front)
    (rest : List Char) :
    splitOnce (c :: sep) (front ++ (c :: sep ++ rest)) = some (front, rest) := by
  induction front with
  | nil =>
    rw [nil_append, cons_append, splitOnce, ← cons_append,
      if_pos (prefix_append _ _), drop_left]
  | cons d front ih =>
    rw [infix_cons_iff, not_or] at hfront
    have hno : ¬c :: sep <+: d :: front ++ (c :: sep ++ rest) := by
      intro h
      rcases prefix_or_prefix_of_prefix h (prefix_append (d :: front) _) with
        hshort | ⟨tail, htail⟩
      · exact hfront.1 hshort
      have hover : tail <+: c :: sep ++ rest :=
        (prefix_append_right_inj (d :: front)).mp (by rwa [htail])
      rcases tail with _ | ⟨e, tail⟩
      · rw [append_nil] at htail
        exact hfront.1 (htail ▸ prefix_refl _)
      · obtain rfl : e = c := (cons_prefix_cons.mp hover).1
        rw [cons_append, List.cons.injEq] at htail
        exact hc (htail.2 ▸ by simp)
    rw [cons_append, splitOnce, ← cons_append, if_neg hno, ih hfront.2]
    rfl

theorem mem_rootName {identity : String} {root : Bool} (h : c ∈ chars identity) (hc : c ≠ '/') :
    c ∈ rootName identity root := by
  rw [rootName]
  split
  next cs hcs =>
    rw [hcs, mem_cons] at h
    split_ifs
    · exact h.resolve_left hc
    · exact mem_cons_of_mem _ (h.resolve_left hc)
  next => exact h

/-- A raw name has no colon, so no mark of a signature. -/
theorem not_infix_of_validateRawCompilerIdentity {identity label : String} {root : Bool}
    (h : validateRawCompilerIdentity identity label root = .ok ()) :
    ¬['#', 'j', 'v', 'm', ':'] <:+: chars identity := by
  intro hinfix
  have hcolon : ':' ∈ chars identity := hinfix.subset (by simp)
  obtain ⟨-, -, -, hchars, -⟩ := ensure_eq_ok_iff.mp h
  rw [any_eq_false] at hchars
  exact hchars ':' (mem_rootName hcolon (by decide)) (by simp)

theorem identitySignature_append {tag callable signature : String} (htag : '#' ∉ chars tag)
    (hraw : ¬['#', 'j', 'v', 'm', ':'] <:+: chars callable) :
    identitySignature (tag ++ callable ++ "#jvm:" ++ signature) = .str signature := by
  have hchars : chars (tag ++ callable ++ "#jvm:" ++ signature) =
      (chars tag ++ chars callable) ++ (['#', 'j', 'v', 'm', ':'] ++ chars signature) := by
    simp [chars_eq_toList]
  have hfront : ¬['#', 'j', 'v', 'm', ':'] <:+: chars tag ++ chars callable :=
    fun h ↦ hraw (infix_of_infix_append htag h)
  rw [identitySignature, hchars, splitOnce_append (by decide) hfront]
  simp [chars_eq_toList]

/-! ## Kinds of declarations -/

/-- The fields of a descriptor that depend on its kind. -/
structure Fields (value : Json) (identity : String) : Prop where
  callable : ∀ content, value.get? "compilerCallableId" = some content → ∃ s, content = .str s
  cls : ∀ content, value.get? "compilerClassId" = some content → ∃ s, content = .str s
  signature : ∀ content, value.get? "jvmDescriptor" = some content →
    content = identitySignature identity
  parameters : ∀ content, value.get? "parameterTypes" = some content →
    ∃ slots, content = .arr slots ∧
      ∀ index slot, slots[index]? = some slot → IsAt slot index ∧ Typed slot
  receiver : ∀ content, value.get? "receiverType" = some content → Typed content
  isOverride : value.get? "isOverride" ≠ some .null

/-- A descriptor has no fields but those of its kind. -/
def Closed (value : Json) (fields : List String) : Prop :=
  ∀ name, name ∉ commonFields ++ attributeFields ++ fields → value.get? name = none

theorem Closed.all {fields : List String} {P : Json → Prop} (h : Closed value fields)
    (hname : field ∉ commonFields ++ attributeFields ++ fields) (content : Json)
    (hcontent : value.get? field = some content) : P content := by
  cases (h field hname).symm.trans hcontent

theorem all_of_get? {P : Json → Prop} {v : Json} (h : value.get? field = some v) (hv : P v)
    (content : Json) (hcontent : value.get? field = some content) : P content :=
  Option.some.inj (h.symm.trans hcontent) ▸ hv

theorem closed_of_validateFieldClosure {fields : List String}
    (h : validateFieldClosure value kind = .ok ()) (hfields : kindFields kind false = some fields) :
    Closed value fields := by
  rw [validateFieldClosure, hfields] at h
  intro name hname
  cases value with
  | obj members =>
    rcases hget : (Json.obj members).get? name with _ | content
    · rfl
    · exact absurd (ensure_eq_ok_iff.mp h _ (mem_of_get? hget)) hname
  | _ => rfl

theorem of_checkField {check : Json → Except ClewError Unit}
    (h : checkField value field check = .ok ()) {content : Json}
    (hcontent : value.get? field = some content) : check content = .ok () := by
  rwa [checkField, hcontent] at h

theorem ne_null_of_isBool (h : isBool content = true) :
    content ≠ some .null := by
  obtain ⟨b, rfl⟩ := isBool_iff.mp h
  simp

variable {checks : ForeignChecks} {identity : String}

section Kinds

variable {fields : List String} (hidentity : value.get? "symbolIdentity" = some (.str identity))
  (hclosed : Closed value fields)

include hidentity hclosed

theorem fields_of_function (hfields : kindFields "FUNCTION" false = some fields)
    (hfull : isPartial value = false) (hfact : validateFunctionFact value = .ok ())
    (hrow : validateFunction value = .ok ()) : Fields value identity := by
  obtain rfl := Option.some.inj hfields
  obtain ⟨callable, hcallable, hfact⟩ := bind_eq_ok_iff.mp hfact
  obtain ⟨⟨⟩, hraw, hfact⟩ := bind_eq_ok_iff.mp hfact
  obtain ⟨identity', hidentity', hfact⟩ := bind_eq_ok_iff.mp hfact
  have hcallable := (payloadString_eq_ok_iff.mp hcallable).1
  obtain rfl : identity = identity' := by
    simpa [hidentity] using (payloadString_eq_ok_iff.mp hidentity').1
  obtain ⟨_, -, hrow⟩ := bind_eq_ok_iff.mp hrow
  obtain ⟨_, -, hrow⟩ := bind_eq_ok_iff.mp hrow
  obtain ⟨⟨-, hoverride⟩, hrow⟩ := ensure_bind_eq_ok_iff.mp hrow
  obtain ⟨-, hrow⟩ := ensure_bind_eq_ok_iff.mp hrow
  obtain ⟨_, -, hrow⟩ := bind_eq_ok_iff.mp hrow
  obtain ⟨⟨⟩, hparameters, hreceiver⟩ := bind_eq_ok_iff.mp hrow
  obtain ⟨slots, hslots, hslot⟩ := slots_of_validateParameterTypes hparameters
  refine ⟨all_of_get? hcallable ⟨callable, rfl⟩, hclosed.all (by decide), fun content h ↦ ?_,
    all_of_get? hslots ⟨slots, rfl, fun index slot hindex ↦
      slot_of_validateParameterSlot (hslot index slot hindex)⟩,
    fun content h ↦ ?_, ne_null_of_isBool hoverride⟩
  · rcases hsignature : stripPrefix ("callable:" ++ callable ++ "#jvm:") identity with
      _ | signature <;> simp only [hsignature] at hfact
    · cases hfact
    rw [if_neg (by simp [hfull])] at hfact
    obtain ⟨⟨⟩, -, hfact⟩ := bind_eq_ok_iff.mp hfact
    have hcheck := of_checkField hfact h
    cases content with
    | str descriptor =>
      obtain ⟨⟨⟩, -, hcheck⟩ := bind_eq_ok_iff.mp hcheck
      obtain rfl := ensure_eq_ok_iff.mp hcheck
      rw [stripPrefix_eq_some_iff.mp hsignature,
        identitySignature_append (by decide) (not_infix_of_validateRawCompilerIdentity hraw)]
    | _ => cases hcheck
  · obtain ⟨htype, hnullable⟩ := typed_of_validateTypedValue (of_checkField hreceiver h)
    exact ⟨htype, hnullable⟩

theorem fields_of_constructor (hfields : kindFields "CONSTRUCTOR" false = some fields)
    (hfact : validateConstructorFact checks value = .ok ())
    (hrow : validateConstructor value = .ok ()) : Fields value identity := by
  obtain rfl := Option.some.inj hfields
  obtain ⟨callable, hcallable, hfact⟩ := bind_eq_ok_iff.mp hfact
  obtain ⟨cls, hcls, hfact⟩ := bind_eq_ok_iff.mp hfact
  obtain ⟨descriptor, hdescriptor, hfact⟩ := bind_eq_ok_iff.mp hfact
  obtain ⟨⟨⟩, hraw, hfact⟩ := bind_eq_ok_iff.mp hfact
  obtain ⟨⟨⟩, -, hfact⟩ := bind_eq_ok_iff.mp hfact
  obtain ⟨identity', hidentity', hfact⟩ := bind_eq_ok_iff.mp hfact
  obtain ⟨owner, -, hfact⟩ := bind_eq_ok_iff.mp hfact
  obtain ⟨⟨hsignature, -⟩, -⟩ := ensure_bind_eq_ok_iff.mp hfact
  have hcallable := (payloadString_eq_ok_iff.mp hcallable).1
  have hcls := (payloadString_eq_ok_iff.mp hcls).1
  have hdescriptor := (payloadString_eq_ok_iff.mp hdescriptor).1
  obtain rfl : identity = identity' := by
    simpa [hidentity] using (payloadString_eq_ok_iff.mp hidentity').1
  obtain ⟨_, -, hrow⟩ := bind_eq_ok_iff.mp hrow
  obtain ⟨_, -, hrow⟩ := bind_eq_ok_iff.mp hrow
  obtain ⟨_, -, hrow⟩ := bind_eq_ok_iff.mp hrow
  obtain ⟨_, -, hrow⟩ := bind_eq_ok_iff.mp hrow
  obtain ⟨_, -, hrow⟩ := bind_eq_ok_iff.mp hrow
  obtain ⟨-, hparameters⟩ := ensure_bind_eq_ok_iff.mp hrow
  obtain ⟨slots, hslots, hslot⟩ := slots_of_validateParameterTypes hparameters
  refine ⟨all_of_get? hcallable ⟨callable, rfl⟩, all_of_get? hcls ⟨cls, rfl⟩,
    all_of_get? hdescriptor ?_, all_of_get? hslots ⟨slots, rfl, fun index slot hindex ↦
      slot_of_validateConstructorSlot (hslot index slot hindex)⟩, hclosed.all (by decide), ?_⟩
  · rw [hsignature,
      identitySignature_append (by decide) (not_infix_of_validateRawCompilerIdentity hraw)]
  · rw [hclosed _ (by decide)]
    simp

omit hidentity in
theorem fields_of_property {kind : String} (hkind : kind = "PROPERTY" ∨ kind = "MUTABLE_PROPERTY")
    (hfields : kindFields kind false = some fields) (hrow : validateProperty value = .ok ()) :
    Fields value identity := by
  obtain rfl : _ = fields := by
    rcases hkind with rfl | rfl <;> exact Option.some.inj hfields
  obtain ⟨callable, hcallable, hrow⟩ := bind_eq_ok_iff.mp hrow
  obtain ⟨_, -, hrow⟩ := bind_eq_ok_iff.mp hrow
  obtain ⟨⟨-, hoverride⟩, -⟩ := ensure_bind_eq_ok_iff.mp hrow
  have hcallable := (requiredString_eq_ok_iff.mp hcallable).1
  exact ⟨all_of_get? hcallable ⟨callable, rfl⟩, hclosed.all (by decide), hclosed.all (by decide),
    hclosed.all (by decide), hclosed.all (by decide), ne_null_of_isBool hoverride⟩

omit hidentity in
theorem fields_of_class (hfields : kindFields "CLASS" false = some fields)
    (hrow : validateClass value = .ok ()) : Fields value identity := by
  obtain rfl := Option.some.inj hfields
  obtain ⟨cls, hcls, -⟩ := bind_eq_ok_iff.mp hrow
  have hcls := (requiredString_eq_ok_iff.mp hcls).1
  refine ⟨hclosed.all (by decide), all_of_get? hcls ⟨cls, rfl⟩, hclosed.all (by decide),
    hclosed.all (by decide), hclosed.all (by decide), ?_⟩
  rw [hclosed _ (by decide)]
  simp

end Kinds

theorem fields_of_validateKind (hidentity : value.get? "symbolIdentity" = some (.str identity))
    (hfull : isPartial value = false) (hclosure : validateFieldClosure value kind = .ok ())
    (hfact : validateKindFact checks value kind = .ok ())
    (hrow : validateKind value kind = .ok ()) :
    Fields value identity := by
  rw [validateKind] at hrow
  rw [validateKindFact] at hfact
  by_cases hfunction : kind = "FUNCTION"
  · subst hfunction
    exact fields_of_function hidentity (closed_of_validateFieldClosure hclosure rfl) rfl hfull hfact
      hrow
  rw [if_neg hfunction] at hrow hfact
  by_cases hconstructor : kind = "CONSTRUCTOR"
  · subst hconstructor
    exact fields_of_constructor hidentity (closed_of_validateFieldClosure hclosure rfl) rfl hfact
      hrow
  rw [if_neg hconstructor] at hrow hfact
  by_cases hproperty : kind = "PROPERTY" ∨ kind = "MUTABLE_PROPERTY"
  · rw [if_pos hproperty] at hrow
    have hfields : ∃ fields, kindFields kind false = some fields := by
      rcases hproperty with rfl | rfl <;> exact ⟨_, rfl⟩
    obtain ⟨fields, hfields⟩ := hfields
    exact fields_of_property (closed_of_validateFieldClosure hclosure hfields) hproperty hfields
      hrow
  rw [if_neg hproperty] at hrow
  by_cases hclass : kind = "CLASS"
  · subst hclass
    exact fields_of_class (closed_of_validateFieldClosure hclosure rfl) rfl hrow
  · rw [if_neg hclass] at hrow
    cases hrow

/-! ## Rows -/

theorem of_validateDeclarationDescriptorFact
    (h : validateDeclarationDescriptorFact checks value = .ok ()) :
    ∃ kind, text? value "declarationKind" = some kind ∧
      validateKindFact checks value kind = .ok () ∧ validatePartialCore value = .ok () := by
  obtain ⟨-, h⟩ := ensure_bind_eq_ok_iff.mp h
  obtain ⟨_, -, h⟩ := bind_eq_ok_iff.mp h
  obtain ⟨_, -, h⟩ := bind_eq_ok_iff.mp h
  obtain ⟨_, -, h⟩ := bind_eq_ok_iff.mp h
  obtain ⟨_, -, h⟩ := bind_eq_ok_iff.mp h
  obtain ⟨_, -, h⟩ := bind_eq_ok_iff.mp h
  obtain ⟨-, h⟩ := ensure_bind_eq_ok_iff.mp h
  obtain ⟨kind, hkind, h⟩ := bind_eq_ok_iff.mp h
  obtain ⟨_, -, h⟩ := bind_eq_ok_iff.mp h
  obtain ⟨_, -, h⟩ := bind_eq_ok_iff.mp h
  obtain ⟨⟨⟩, hcore, h⟩ := bind_eq_ok_iff.mp h
  exact ⟨kind, text?_eq_some_iff.mpr (payloadString_eq_ok_iff.mp hkind).1, h, hcore⟩

theorem of_validateDescriptor {graph : Graph} (h : validateDescriptor checks graph value = .ok ())
    (hfull : isPartial value = false) :
    ∃ kind, validateKindFact checks value kind = .ok () ∧
      validateFullRow checks value kind = .ok () := by
  obtain ⟨-, h⟩ := ensure_bind_eq_ok_iff.mp h
  obtain ⟨⟨⟩, hfact, h⟩ := bind_eq_ok_iff.mp h
  obtain ⟨-, h⟩ := ensure_bind_eq_ok_iff.mp h
  obtain ⟨_, -, h⟩ := bind_eq_ok_iff.mp h
  obtain ⟨-, h⟩ := ensure_bind_eq_ok_iff.mp h
  obtain ⟨_, -, h⟩ := bind_eq_ok_iff.mp h
  obtain ⟨-, h⟩ := ensure_bind_eq_ok_iff.mp h
  obtain ⟨_, -, h⟩ := bind_eq_ok_iff.mp h
  obtain ⟨_, -, h⟩ := bind_eq_ok_iff.mp h
  obtain ⟨_, -, h⟩ := bind_eq_ok_iff.mp h
  obtain ⟨kind, hkind, hkindFact, -⟩ := of_validateDeclarationDescriptorFact hfact
  simp only [hkind, hfull, Bool.false_eq_true, if_false] at h
  exact ⟨kind, hkindFact, h⟩

theorem modality_of_validateEnums (h : validateEnums value = .ok ()) :
    value.get? "modality" ≠ some .null := by
  obtain ⟨⟨-, -, -, hmodality⟩, -⟩ := ensure_bind_eq_ok_iff.mp h
  intro hnull
  simp [text?, hnull, Json.asStr?] at hmodality

/-- The evidence of a declaration is read off its descriptor. -/
structure ReadFrom (payload : Json) (d : ChangeDeclarationEvidence) : Prop where
  kind : text? payload "declarationKind" = some d.declarationKind.name
  symbol : text? payload "symbolIdentity" = some d.symbolIdentity
  callable : text? payload "compilerCallableId" = d.compilerCallableId
  cls : text? payload "compilerClassId" = d.compilerClassId
  shape : d.projectedShape = projectedPayload payload

/-- A row that was cut down. -/
def isPartialRow (payload : Json) : Bool :=
  text? payload "attributeCoverage" == some "PARTIAL" || (payload.get? "sourceRowHash").isSome

/-- An exact declaration: that of a descriptor that passed its check in some graph and is not
partial. The members of a payload have distinct names. -/
structure Exact (checks : ForeignChecks) (d : ChangeDeclarationEvidence) : Prop where
  accepted : ∃ graph members, (members.map Prod.fst).Nodup ∧
    validateDescriptor checks graph (.obj members) = .ok () ∧
    isPartialRow (.obj members) = false ∧ ReadFrom (.obj members) d

theorem get?_projectedPayload {members : List (String × Json)} {name : String}
    (hname : name ∉ omittedFields) :
    (projectedPayload (.obj members)).get? name = (Json.obj members).get? name := by
  rw [projectedPayload, Json.asObj?, Option.getD_some, get?_filter, if_neg hname]

theorem get?_eq_map_text? (h : ∀ content, value.get? field = some content → ∃ s, content = .str s) :
    value.get? field = (text? value field).map .str := by
  rw [text?]
  rcases hget : value.get? field with _ | content
  · rfl
  · obtain ⟨s, rfl⟩ := h content hget
    rfl

/-- A descriptor that passed its check has the mark of a partial one only together with the word
that it is. -/
theorem isPartial_eq_false {graph : Graph} (h : validateDescriptor checks graph value = .ok ())
    (hrow : isPartialRow value = false) : isPartial value = false := by
  rw [isPartialRow, Bool.or_eq_false_iff] at hrow
  by_contra hpartial
  obtain ⟨-, h⟩ := ensure_bind_eq_ok_iff.mp h
  obtain ⟨⟨⟩, hfact, -⟩ := bind_eq_ok_iff.mp h
  obtain ⟨-, -, -, hcore⟩ := of_validateDeclarationDescriptorFact hfact
  rw [validatePartialCore, if_pos (by simpa using hpartial)] at hcore
  obtain ⟨_, -, hcore⟩ := bind_eq_ok_iff.mp hcore
  obtain ⟨hcoverage, -⟩ := ensure_eq_ok_iff.mp hcore
  simp [hcoverage] at hrow

theorem Exact.described {d : ChangeDeclarationEvidence} (h : Exact checks d) : Described d := by
  obtain ⟨graph, members, hnodup, hvalid, hrow, hread⟩ := h.accepted
  have hfull := isPartial_eq_false hvalid hrow
  obtain ⟨kind, hfact, hvalid⟩ := of_validateDescriptor hvalid hfull
  obtain ⟨⟨⟩, henums, hvalid⟩ := bind_eq_ok_iff.mp hvalid
  obtain ⟨⟨⟩, htypeParameters, hvalid⟩ := bind_eq_ok_iff.mp hvalid
  obtain ⟨⟨⟩, hclosure, hvalid⟩ := bind_eq_ok_iff.mp hvalid
  obtain ⟨_, -, hvalid⟩ := bind_eq_ok_iff.mp hvalid
  obtain ⟨_, -, hkind⟩ := bind_eq_ok_iff.mp hvalid
  have hidentity := text?_eq_some_iff.mp hread.symbol
  have hfields := fields_of_validateKind hidentity hfull hclosure hfact hkind
  have hget : ∀ name, name ∉ omittedFields →
      d.projectedShape.get? name = (Json.obj members).get? name :=
    fun name hname ↦ hread.shape ▸ get?_projectedPayload hname
  refine ⟨⟨members.filter (·.1 ∉ omittedFields), hread.shape, ?_⟩, ?_, ?_, ?_, ?_, ?_, ?_, ?_, ?_,
    ?_, ?_⟩
  · exact hnodup.sublist (filter_sublist.map Prod.fst)
  · rw [jvmDescriptor, hget _ (by decide)]
    rcases hdescriptor : (Json.obj members).get? "jvmDescriptor" with _ | content
    · rfl
    · exact hfields.signature content hdescriptor
  · rw [hget _ (by decide), hidentity]
  · rw [hget _ (by decide), text?_eq_some_iff.mp hread.kind]
  · rw [hget _ (by decide), ← hread.callable, get?_eq_map_text? hfields.callable]
  · rw [hget _ (by decide), ← hread.cls, get?_eq_map_text? hfields.cls]
  · rw [hget _ (by decide)]
    exact hfields.parameters
  · rw [hget _ (by decide)]
    exact hfields.receiver
  · rw [hget _ (by decide)]
    exact slots_of_validateTypeParameters htypeParameters
  · rw [hget _ (by decide)]
    exact modality_of_validateEnums henums
  · rw [hget _ (by decide)]
    exact hfields.isOverride

end Codeclew.Kotlin
