import Codeclew.Text

/-!
# Route templates

The template of a route may name the controller, the action and the area of the method it leads to,
as tokens in brackets; doubled brackets stand for brackets. `replaceTokens` puts the names in. It
reads the template once from left to right and looks one character ahead.

`Template` is the grammar of templates, with the text each one stands for. The scanner accepts every
template of the grammar with that text. It also accepts a template that ends inside a known token
whose bracket was never closed, since reading a token stops at a closing bracket or at the end
(`scanTokens_eq_some_iff`).
-/

namespace Codeclew.AspNetCore

open List Option

/-- The names that the tokens of a template stand for. -/
structure RouteValues where
  controller : String
  action : String
  area : Option String

variable (values : RouteValues)

/-! ## The scanner -/

/-- `str::to_ascii_lowercase` -/
def toAsciiLowercase (text : List Char) : String := String.ofList (text.map Char.toLower)

def tokenValue (token : List Char) : Option (List Char) :=
  match toAsciiLowercase token with
  | "controller" => some (chars values.controller)
  | "action" => some (chars values.action)
  | "area" => values.area.map chars
  | _ => none

/-- The text of a template. Inside a token, `token` is what has been read of its name. -/
def scanTokens : Option (List Char) → List Char → Option (List Char)
  | none, [] => some []
  | none, '[' :: '[' :: cs => (scanTokens none cs).map ('[' :: ·)
  | none, ']' :: ']' :: cs => (scanTokens none cs).map (']' :: ·)
  | none, '[' :: cs => scanTokens (some []) cs
  | none, ']' :: _ => none
  | none, c :: cs => (scanTokens none cs).map (c :: ·)
  -- The characters of a token are taken while there are any and they do not close it.
  | some token, [] => tokenValue values token
  | some token, c :: cs =>
    if c = ']' then
      (tokenValue values token).bind fun value ↦ (scanTokens none cs).map (value ++ ·)
    else scanTokens (some (token ++ [c])) cs

def replaceTokens (template : String) : Option String :=
  (scanTokens values none (chars template)).map fun output ↦ "/" ++ String.ofList output

/-! ## The grammar -/

/-- A name that may stand in brackets, and what it stands for. -/
inductive Token : List Char → List Char → Prop
  | controller {name : List Char} (h : toAsciiLowercase name = "controller") :
      Token name values.controller.toList
  | action {name : List Char} (h : toAsciiLowercase name = "action") :
      Token name values.action.toList
  | area {name : List Char} {area : String} (h : toAsciiLowercase name = "area")
      (harea : values.area = some area) : Token name area.toList

/-- The templates, each with the text that it stands for. -/
inductive Template : List Char → List Char → Prop
  | nil : Template [] []
  | literal {c : Char} {cs text : List Char} (hopen : c ≠ '[') (hclose : c ≠ ']')
      (h : Template cs text) : Template (c :: cs) (c :: text)
  | openEscape {cs text : List Char} (h : Template cs text) :
      Template ('[' :: '[' :: cs) ('[' :: text)
  | closeEscape {cs text : List Char} (h : Template cs text) :
      Template (']' :: ']' :: cs) (']' :: text)
  | token {name value cs text : List Char} (hname : Token values name value)
      (h : Template cs text) : Template ('[' :: (name ++ ']' :: cs)) (value ++ text)

/-- A template that is followed by a bracket and the name of a token, and stops there. -/
def EndsInToken (cs text : List Char) : Prop :=
  ∃ before name shown value, cs = before ++ '[' :: name ∧ Template values before shown ∧
    Token values name value ∧ text = shown ++ value

variable {values}

/-! ## Tokens -/

theorem tokenValue_eq_some_iff {token value : List Char} :
    tokenValue values token = some value ↔ Token values token value := by
  constructor
  · intro h
    rw [tokenValue] at h
    split at h
    · next hname => obtain rfl := Option.some.inj h; simpa using Token.controller hname
    · next hname => obtain rfl := Option.some.inj h; simpa using Token.action hname
    · next hname =>
      obtain ⟨area, harea, rfl⟩ := map_eq_some_iff.mp h
      simpa using Token.area hname harea
    · cases h
  · rintro (h | h | ⟨h, harea⟩)
    · simp [tokenValue, h]
    · simp [tokenValue, h]
    · simp [tokenValue, h, harea]

/-- A bracket is no letter of a token, in either case. -/
theorem Token.notMem {name value : List Char} (h : Token values name value) {c : Char}
    (hc : c = '[' ∨ c = ']') : c ∉ name := by
  have hletters : ∀ known ∈ ["controller", "action", "area"], ∀ d ∈ known.toList,
      d ≠ '[' ∧ d ≠ ']' := by simp
  have hname : toAsciiLowercase name ∈ ["controller", "action", "area"] := by
    cases h <;> simp [*]
  intro hmem
  have hlower : c.toLower ∈ (toAsciiLowercase name).toList := by
    rw [toAsciiLowercase, String.toList_ofList]
    exact mem_map_of_mem hmem
  obtain ⟨hopen, hclose⟩ := hletters _ hname _ hlower
  rcases hc with rfl | rfl
  · exact hopen (by decide)
  · exact hclose (by decide)

theorem Template.append {cs text ds more : List Char} (h : Template values cs text)
    (hds : Template values ds more) : Template values (cs ++ ds) (text ++ more) := by
  induction h with
  | nil => exact hds
  | literal hopen hclose _ ih => exact .literal hopen hclose ih
  | openEscape _ ih => exact .openEscape ih
  | closeEscape _ ih => exact .closeEscape ih
  | token hname _ ih =>
    rw [cons_append, append_assoc, append_assoc, cons_append]
    exact .token hname ih

theorem EndsInToken.append {cs text ds more : List Char} (h : Template values cs text)
    (hds : EndsInToken values ds more) : EndsInToken values (cs ++ ds) (text ++ more) := by
  obtain ⟨before, name, shown, value, rfl, hbefore, hname, rfl⟩ := hds
  exact ⟨cs ++ before, name, text ++ shown, value, (append_assoc ..).symm, h.append hbefore,
    hname, (append_assoc ..).symm⟩

/-! ## The equations of the scanner -/

theorem scanTokens_nil : scanTokens values none [] = some [] := rfl

theorem scanTokens_openEscape (cs : List Char) :
    scanTokens values none ('[' :: '[' :: cs) = (scanTokens values none cs).map ('[' :: ·) := rfl

theorem scanTokens_closeEscape (cs : List Char) :
    scanTokens values none (']' :: ']' :: cs) = (scanTokens values none cs).map (']' :: ·) := rfl

theorem scanTokens_token_nil (token : List Char) :
    scanTokens values (some token) [] = tokenValue values token := rfl

theorem scanTokens_token_close (token cs : List Char) :
    scanTokens values (some token) (']' :: cs) =
      (tokenValue values token).bind fun value ↦ (scanTokens values none cs).map (value ++ ·) := rfl

theorem scanTokens_token_cons {c : Char} (hc : c ≠ ']') (token cs : List Char) :
    scanTokens values (some token) (c :: cs) = scanTokens values (some (token ++ [c])) cs :=
  if_neg hc

theorem scanTokens_literal {c : Char} (hopen : c ≠ '[') (hclose : c ≠ ']') (cs : List Char) :
    scanTokens values none (c :: cs) = (scanTokens values none cs).map (c :: ·) := by
  rw [scanTokens]
  · exact fun _ hc _ ↦ hopen hc
  · exact fun _ hc _ ↦ hclose hc
  · exact hopen
  · exact hclose

theorem scanTokens_open {cs : List Char} (h : '[' ∉ cs.head?) :
    scanTokens values none ('[' :: cs) = scanTokens values (some []) cs := by
  rw [scanTokens]
  rintro cs rfl
  exact h rfl

theorem scanTokens_close {cs : List Char} (h : ']' ∉ cs.head?) :
    scanTokens values none (']' :: cs) = none := by
  rw [scanTokens]
  rintro cs rfl
  exact h rfl

/-! ## Reading a template -/

/-- A token is read up to the bracket that closes it. -/
theorem scanTokens_token {name : List Char} (h : ']' ∉ name) (token cs : List Char) :
    scanTokens values (some token) (name ++ ']' :: cs) =
      (tokenValue values (token ++ name)).bind fun value ↦
        (scanTokens values none cs).map (value ++ ·) := by
  induction name generalizing token with
  | nil => rw [nil_append, append_nil, scanTokens_token_close]
  | cons c name ih =>
    obtain ⟨hc, hname⟩ := ne_and_not_mem_of_not_mem_cons h
    rw [cons_append, scanTokens_token_cons (Ne.symm hc), ih hname, append_assoc,
      singleton_append]

/-- Without a bracket that closes it, a token is read to the end. -/
theorem scanTokens_of_notMem {name : List Char} (h : ']' ∉ name) (token : List Char) :
    scanTokens values (some token) name = tokenValue values (token ++ name) := by
  induction name generalizing token with
  | nil => rw [append_nil, scanTokens_token_nil]
  | cons c name ih =>
    obtain ⟨hc, hname⟩ := ne_and_not_mem_of_not_mem_cons h
    rw [scanTokens_token_cons (Ne.symm hc), ih hname, append_assoc, singleton_append]

variable {cs text : List Char}

/-- The scanner's output on a template of the grammar comes before what it makes of the rest. -/
theorem scanTokens_append (h : Template values cs text) (rest : List Char) :
    scanTokens values none (cs ++ rest) = (scanTokens values none rest).map (text ++ ·) := by
  induction h with
  | nil => simp
  | literal hopen hclose _ ih =>
    rw [cons_append, scanTokens_literal hopen hclose, ih, Option.map_map]
    rfl
  | openEscape _ ih =>
    rw [cons_append, cons_append, scanTokens_openEscape, ih, Option.map_map]
    rfl
  | closeEscape _ ih =>
    rw [cons_append, cons_append, scanTokens_closeEscape, ih, Option.map_map]
    rfl
  | @token name value cs text hname _ ih =>
    have hhead : '[' ∉ (name ++ ']' :: (cs ++ rest)).head? := by
      have hopen := hname.notMem (Or.inl rfl)
      cases name with
      | nil => simp
      | cons c name => simpa using (ne_and_not_mem_of_not_mem_cons hopen).1.symm
    rw [cons_append, append_assoc, cons_append, scanTokens_open hhead,
      scanTokens_token (hname.notMem (Or.inr rfl)), nil_append,
      tokenValue_eq_some_iff.mpr hname, Option.bind_some, ih, Option.map_map]
    refine map_congr fun out _ ↦ ?_
    exact (append_assoc value text out).symm

theorem scanTokens_of_template (h : Template values cs text) :
    scanTokens values none cs = some text := by
  simpa [scanTokens_nil] using scanTokens_append h []

theorem scanTokens_of_endsInToken (h : EndsInToken values cs text) :
    scanTokens values none cs = some text := by
  obtain ⟨before, name, shown, value, rfl, hbefore, hname, rfl⟩ := h
  have hhead : '[' ∉ name.head? := fun h ↦ hname.notMem (Or.inl rfl) (mem_of_mem_head? h)
  rw [scanTokens_append hbefore, scanTokens_open hhead,
    scanTokens_of_notMem (hname.notMem (Or.inr rfl)), nil_append,
    tokenValue_eq_some_iff.mpr hname, map_some]

/-- What a scan that is inside a token has still accepted. -/
theorem of_scanTokens_token {token cs text : List Char}
    (h : scanTokens values (some token) cs = some text) :
    (∃ name rest value shown, cs = name ++ ']' :: rest ∧ Token values (token ++ name) value ∧
      scanTokens values none rest = some shown ∧ text = value ++ shown) ∨
    Token values (token ++ cs) text := by
  by_cases hmem : ']' ∈ cs
  · obtain ⟨name, rest, rfl, hname⟩ := eq_append_cons_of_mem hmem
    rw [scanTokens_token hname] at h
    obtain ⟨value, hvalue, hrest⟩ := bind_eq_some_iff.mp h
    obtain ⟨shown, hshown, rfl⟩ := map_eq_some_iff.mp hrest
    exact Or.inl ⟨name, rest, value, shown, rfl, tokenValue_eq_some_iff.mp hvalue, hshown, rfl⟩
  · rw [scanTokens_of_notMem hmem] at h
    exact Or.inr (tokenValue_eq_some_iff.mp h)

/-- One turn of the scanner: it is at the end, or it reads one item of the grammar and goes on, or
it is inside a token when the template ends. -/
theorem of_scanTokens (h : scanTokens values none cs = some text) :
    (cs = [] ∧ text = []) ∨
    (∃ item shown rest out, cs = item ++ rest ∧ item ≠ [] ∧ Template values item shown ∧
      scanTokens values none rest = some out ∧ text = shown ++ out) ∨
    EndsInToken values cs text := by
  cases cs with
  | nil => exact Or.inl ⟨rfl, (Option.some.inj h).symm⟩
  | cons c cs =>
    refine Or.inr ?_
    by_cases hopen : c = '['
    · subst hopen
      by_cases hhead : '[' ∈ cs.head?
      · obtain ⟨rest, rfl⟩ := List.head?_eq_some_iff.mp hhead
        obtain ⟨out, hout, rfl⟩ := map_eq_some_iff.mp h
        exact Or.inl ⟨['[', '['], ['['], rest, out, rfl, cons_ne_nil _ _, .openEscape .nil,
          hout, rfl⟩
      · rw [scanTokens_open hhead] at h
        obtain ⟨name, rest, value, out, rfl, hname, hout, rfl⟩ | hname := of_scanTokens_token h
        · refine Or.inl ⟨'[' :: (name ++ [']']), value ++ [], rest, out, ?_, cons_ne_nil _ _,
            .token hname .nil, hout, ?_⟩
          · simp
          · simp
        · exact Or.inr ⟨[], cs, [], text, rfl, .nil, hname, rfl⟩
    · by_cases hclose : c = ']'
      · subst hclose
        by_cases hhead : ']' ∈ cs.head?
        · obtain ⟨rest, rfl⟩ := List.head?_eq_some_iff.mp hhead
          obtain ⟨out, hout, rfl⟩ := map_eq_some_iff.mp h
          exact Or.inl ⟨[']', ']'], [']'], rest, out, rfl, cons_ne_nil _ _,
            .closeEscape .nil, hout, rfl⟩
        · rw [scanTokens_close hhead] at h
          cases h
      · rw [scanTokens_literal hopen hclose] at h
        obtain ⟨out, hout, rfl⟩ := map_eq_some_iff.mp h
        exact Or.inl ⟨[c], [c], cs, out, rfl, cons_ne_nil _ _, .literal hopen hclose .nil,
          hout, rfl⟩

/-- What the scanner accepts: a template of the grammar, or one that ends inside a token. -/
theorem scanTokens_eq_some_iff :
    scanTokens values none cs = some text ↔
      Template values cs text ∨ EndsInToken values cs text := by
  refine ⟨fun h ↦ ?_, Or.rec scanTokens_of_template scanTokens_of_endsInToken⟩
  -- A token may be of any length, so the induction is on the length of what is left.
  induction hn : cs.length using Nat.strong_induction_on generalizing cs text with
  | _ n ih =>
    obtain ⟨rfl, rfl⟩ | ⟨item, shown, rest, out, rfl, hitem, htemplate, hout, rfl⟩ | hends :=
      of_scanTokens h
    · exact Or.inl .nil
    · have hlength : rest.length < n := by
        rw [← hn, length_append]
        exact Nat.lt_add_of_pos_left (length_pos_iff.mpr hitem)
      exact (ih _ hlength hout rfl).imp htemplate.append (EndsInToken.append htemplate)
    · exact Or.inr hends

/-- No template of the grammar ends inside a token: a closing bracket after it would be read as part
of the token in one case, and be rejected in the other. -/
theorem Template.not_endsInToken {cs text other : List Char} (h : Template values cs text) :
    ¬EndsInToken values cs other := by
  rintro ⟨before, name, shown, value, rfl, hbefore, hname, -⟩
  have hclosed : Template values (before ++ '[' :: (name ++ [']'])) (shown ++ value) := by
    simpa using hbefore.append (.token hname .nil)
  have hscan := scanTokens_append h [']']
  rw [append_assoc, cons_append, scanTokens_of_template hclosed] at hscan
  have hclose : scanTokens values none [']'] = none := scanTokens_close nofun
  simp [hclose] at hscan

/-! ## Replacing the tokens -/

theorem replaceTokens_eq_some_iff {template path : String} :
    replaceTokens values template = some path ↔
      ∃ text, (Template values template.toList text ∨ EndsInToken values template.toList text) ∧
        path = "/" ++ String.ofList text := by
  simp only [replaceTokens, map_eq_some_iff, chars_eq_toList, scanTokens_eq_some_iff]
  exact exists_congr fun text ↦ and_congr_right fun _ ↦ eq_comm

/-- Tokens are replaced exactly as the grammar says in a template, unless it ends inside a token. -/
theorem replaceTokens_iff_template (values : RouteValues) (template : String) :
    (∀ path, replaceTokens values template = some path ↔
      ∃ text, Template values template.toList text ∧ path = "/" ++ String.ofList text) ↔
    ∀ text, ¬EndsInToken values template.toList text := by
  constructor
  · intro hexact text hends
    obtain ⟨shown, hshown, -⟩ := (hexact _).mp
      (replaceTokens_eq_some_iff.mpr ⟨text, Or.inr hends, rfl⟩)
    exact hshown.not_endsInToken hends
  · intro hclosed path
    rw [replaceTokens_eq_some_iff]
    refine exists_congr fun text ↦ and_congr_left fun _ ↦ ?_
    exact ⟨fun h ↦ h.resolve_right (hclosed text), Or.inl⟩

theorem replaceTokens_unterminated :
    replaceTokens ⟨"Orders", "Get", none⟩ "[controller" = some "/Orders" ∧
      ∀ text, ¬Template ⟨"Orders", "Get", none⟩ "[controller".toList text := by
  refine ⟨by decide, fun text h ↦ ?_⟩
  have hname : toAsciiLowercase (chars "controller") = "controller" := by decide
  have hsplit : "[controller".toList = [] ++ '[' :: chars "controller" := by simp
  exact h.not_endsInToken ⟨[], _, [], _, hsplit, .nil, .controller hname, rfl⟩

example : replaceTokens ⟨"Orders", "Get", some "Shop"⟩ "[AREA]/[[v]]/[controller]/[action]" =
    some "/Shop/[v]/Orders/Get" := by decide

end Codeclew.AspNetCore
