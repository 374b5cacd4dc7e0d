import Codeclew.Json.Render

/-!
# Reading JSON text

A recursive descent reader for the JSON grammar. It carries the number of
container levels that may still be opened, as the reader it models does: a document nested deeper
than `recursionLimit` allows is refused whatever else it says. A second argument, the fuel, is what
the recursion is on; the length of the text is always enough.

The main result is `Json.ofBytes_bytes`: reading the compact document of a valid value that is not
nested too deep gives the value back.
-/

namespace Codeclew.Json

open List Option

/-- The number of container levels the reader starts with. The last of them cannot be opened. -/
def recursionLimit : ℕ := 128

/-! ## Tokens -/

def isSpace (c : Char) : Bool := c == ' ' || c == '\t' || c == '\n' || c == '\r'

def skipSpace (cs : List Char) : List Char := cs.dropWhile isSpace

def hexValue (c : Char) : Option ℕ :=
  if '0' ≤ c ∧ c ≤ '9' then some (c.toNat - 48)
  else if 'a' ≤ c ∧ c ≤ 'f' then some (c.toNat - 87)
  else if 'A' ≤ c ∧ c ≤ 'F' then some (c.toNat - 55)
  else none

def hex4 (a b c d : Char) : Option ℕ := do
  let a ← hexValue a
  let b ← hexValue b
  let c ← hexValue c
  let d ← hexValue d
  return ((a * 16 + b) * 16 + c) * 16 + d

/-- The character of a one-letter escape. -/
def unescape (c : Char) : Option Char :=
  if c = '\x22' then some '\x22'
  else if c = '\\' then some '\\'
  else if c = '/' then some '/'
  else if c = 'b' then some '\x08'
  else if c = 'f' then some '\x0c'
  else if c = 'n' then some '\n'
  else if c = 'r' then some '\r'
  else if c = 't' then some '\t'
  else none

/-- The rest of a string literal, after its opening quote: the characters and what follows the
closing quote. A `\u` escape of a high surrogate must be followed by one of a low surrogate. -/
def parseString : List Char → Option (List Char × List Char)
  | '\x22' :: cs => some ([], cs)
  | '\\' :: 'u' :: a :: b :: c :: d :: cs => do
    let n ← hex4 a b c d
    if 0xD800 ≤ n ∧ n < 0xDC00 then
      match cs with
      | '\\' :: 'u' :: a' :: b' :: c' :: d' :: cs =>
        let m ← hex4 a' b' c' d'
        if 0xDC00 ≤ m ∧ m < 0xE000 then
          let (s, rest) ← parseString cs
          return (Char.ofNat (0x10000 + (n - 0xD800) * 0x400 + (m - 0xDC00)) :: s, rest)
        else none
      | _ => none
    else if 0xDC00 ≤ n ∧ n < 0xE000 then none
    else
      let (s, rest) ← parseString cs
      return (Char.ofNat n :: s, rest)
  | '\\' :: e :: cs => do
    let c ← unescape e
    let (s, rest) ← parseString cs
    return (c :: s, rest)
  | c :: cs =>
    if c = '\\' ∨ c.toNat < 0x20 then none
    else (parseString cs).map fun p ↦ (c :: p.1, p.2)
  | [] => none

/-! ## Numbers

A number without fraction and exponent that fits 64 bits is an integer; any other is a floating
point number, which is refused when it is too large to be a finite one. The reader collects the
digits in a 64-bit significand and multiplies it with a power of ten, both rounded to double
precision. -/

/-- The nearest number of 53 significant bits, ties to even. -/
def roundDouble (n : ℕ) : ℕ :=
  let shift := n.log2 - 52
  let q := n / 2 ^ shift
  let r := 2 * (n % 2 ^ shift)
  if r < 2 ^ shift ∨ (r = 2 ^ shift ∧ q % 2 = 0) then q * 2 ^ shift else (q + 1) * 2 ^ shift

/-- Digits go into the significand as long as it holds them; also the number of digits left. -/
def takeDigits (significand : ℕ) : List Char → ℕ × ℕ
  | [] => (significand, 0)
  | d :: ds =>
    let next := significand * 10 + (d.toNat - 48)
    if next < 2 ^ 64 then takeDigits next ds else (significand, ds.length + 1)

/-- The number with these digits before and after the point and this exponent is finite. -/
def finite (digits fraction : List Char) (exponent : Int) : Bool :=
  let (significand, dropped) := takeDigits 0 digits
  let (significand, dropped') := takeDigits significand fraction
  let exponent := dropped - ((fraction.length : Int) - dropped') + exponent
  decide (exponent < 0 ∨ significand = 0 ∨ (exponent ≤ 308 ∧
    roundDouble significand * roundDouble (10 ^ exponent.toNat) < 2 ^ 1024 - 2 ^ 970))

/-- The digits of a fraction, if there is one. -/
def parseFraction : List Char → Option (Option (List Char) × List Char)
  | '.' :: cs =>
    if cs.takeWhile Char.isDigit = [] then none
    else some (some (cs.takeWhile Char.isDigit), cs.dropWhile Char.isDigit)
  | cs => some (none, cs)

def parseSign : List Char → Bool × List Char
  | '+' :: cs => (false, cs)
  | '-' :: cs => (true, cs)
  | cs => (false, cs)

/-- An exponent, if there is one. -/
def parseExponent : List Char → Option (Option Int × List Char)
  | [] => some (none, [])
  | c :: cs =>
    if c = 'e' ∨ c = 'E' then
      let (negative, cs) := parseSign cs
      let ds := cs.takeWhile Char.isDigit
      let n : Int := Nat.ofDigitChars 10 ds 0
      if ds = [] then none
      else some (some (if negative then -n else n), cs.dropWhile Char.isDigit)
    else some (none, c :: cs)

/-- A number, after its sign. -/
def parseNumber (negative : Bool) (cs : List Char) : Option (Json × List Char) :=
  let ds := cs.takeWhile Char.isDigit
  if ds = [] ∨ (ds.head? = some '0' ∧ ds.length ≠ 1) then none
  else do
    let (fraction, rest) ← parseFraction (cs.dropWhile Char.isDigit)
    let (exponent, rest) ← parseExponent rest
    let n : Int := Nat.ofDigitChars 10 ds 0
    let n := if negative then -n else n
    -- a negative zero is a floating point number
    if fraction = none ∧ exponent = none ∧ InRange n ∧ ¬(negative = true ∧ n = 0) then
      return (.num n, rest)
    else if finite ds (fraction.getD []) (exponent.getD 0) then
      let text := cs.take (cs.length - rest.length)
      return (.float (String.ofList (if negative then '-' :: text else text)), rest)
    else none

/-! ## Values -/

mutual

/-- One value, with `levels` container levels left to open. -/
def parseValue : (fuel levels : ℕ) → List Char → Option (Json × List Char)
  | 0, _, _ => none
  | fuel + 1, levels, cs =>
    match skipSpace cs with
    | 'n' :: 'u' :: 'l' :: 'l' :: rest => some (.null, rest)
    | 't' :: 'r' :: 'u' :: 'e' :: rest => some (.bool true, rest)
    | 'f' :: 'a' :: 'l' :: 's' :: 'e' :: rest => some (.bool false, rest)
    | '\x22' :: rest => (parseString rest).map fun p ↦ (.str (String.ofList p.1), p.2)
    | '[' :: rest =>
      if levels ≤ 1 then none
      else
        match skipSpace rest with
        | ']' :: rest => some (.arr [], rest)
        | _ => (parseElems fuel (levels - 1) rest).map fun p ↦ (.arr p.1, p.2)
    | '\x7b' :: rest =>
      if levels ≤ 1 then none
      else
        match skipSpace rest with
        | '\x7d' :: rest => some (.obj [], rest)
        | _ => (parseMembers fuel (levels - 1) rest).map fun p ↦ (.obj (ofMembers p.1), p.2)
    | '-' :: rest => parseNumber true rest
    | c :: rest => parseNumber false (c :: rest)
    | [] => none

/-- One or more elements, up to the closing bracket. -/
def parseElems : (fuel levels : ℕ) → List Char → Option (List Json × List Char)
  | 0, _, _ => none
  | fuel + 1, levels, cs => do
    let (x, rest) ← parseValue fuel levels cs
    match skipSpace rest with
    | ',' :: rest =>
      let (xs, rest) ← parseElems fuel levels rest
      return (x :: xs, rest)
    | ']' :: rest => return ([x], rest)
    | _ => none

/-- One or more members, up to the closing brace. -/
def parseMembers : (fuel levels : ℕ) → List Char → Option (List (String × Json) × List Char)
  | 0, _, _ => none
  | fuel + 1, levels, cs =>
    match skipSpace cs with
    | '\x22' :: rest => do
      let (k, rest) ← parseString rest
      match skipSpace rest with
      | ':' :: rest =>
        let (v, rest) ← parseValue fuel levels rest
        match skipSpace rest with
        | ',' :: rest =>
          let (ms, rest) ← parseMembers fuel levels rest
          return ((String.ofList k, v) :: ms, rest)
        | '\x7d' :: rest => return ([(String.ofList k, v)], rest)
        | _ => none
      | _ => none
    | _ => none

end

/-- A whole text: one value and white space. -/
def parse (cs : List Char) : Option Json :=
  match parseValue cs.length recursionLimit cs with
  | some (j, rest) => if skipSpace rest = [] then some j else none
  | none => none

def decodeUtf8 (b : Bytes) : Option (List Char) :=
  b.toByteArray.utf8Decode?.map Array.toList

/-- A whole document. -/
def ofBytes (b : Bytes) : Option Json := (decodeUtf8 b).bind parse

/-! ## Reading what was printed: strings -/

theorem hexValue_hexDigit : ∀ n, n < 16 → hexValue (hexDigit n) = some n := by decide

theorem parseString_escapeChar (c : Char) (cs : List Char) :
    parseString (escapeChar c ++ cs) = (parseString cs).map fun p ↦ (c :: p.1, p.2) := by
  have hbind : ∀ (o : Option (List Char × List Char)) (d : Char),
      (do let (s, rest) ← o; return (d :: s, rest)) = o.map fun p ↦ (d :: p.1, p.2) := by
    intro o d
    cases o <;> rfl
  unfold escapeChar
  split_ifs with h1 h2 h3 h4 h5 h6 h7 h8
  iterate 7
    subst_vars
    rw [cons_append, singleton_append, parseString.eq_def]
    exact hbind _ _
  · have ha := hexValue_hexDigit (c.toNat / 16) (by omega)
    have hb := hexValue_hexDigit (c.toNat % 16) (by omega)
    have hn : ((0 * 16 + 0) * 16 + c.toNat / 16) * 16 + c.toNat % 16 = c.toNat := by omega
    have hx : hex4 '0' '0' (hexDigit (c.toNat / 16)) (hexDigit (c.toNat % 16)) = some c.toNat := by
      rw [hex4, ha, hb]
      exact congrArg some hn
    simp only [cons_append, nil_append, parseString, hx]
    rw [bind_eq_bind, bind_some, if_neg (by omega), if_neg (by omega),
      Char.ofNat_toNat]
    exact hbind _ _
  · rw [singleton_append, parseString.eq_def]
    split
    · rename_i heq
      exact absurd (List.cons.inj heq).1 h1
    · rename_i heq
      exact absurd (List.cons.inj heq).1 h2
    · rename_i heq
      exact absurd (List.cons.inj heq).1 h2
    · rename_i heq
      obtain ⟨rfl, rfl⟩ := List.cons.inj heq
      rw [if_neg (by tauto)]
    · rename_i heq
      cases heq

theorem parseString_flatMap (s cs : List Char) :
    parseString (s.flatMap escapeChar ++ '\x22' :: cs) = some (s, cs) := by
  induction s with
  | nil => rfl
  | cons c s ih => rw [flatMap_cons, append_assoc, parseString_escapeChar, ih]; rfl

/-! ## Reading what was printed: numbers -/

/-- What may follow a number: not a digit, and not the beginning of a fraction or an exponent. -/
def Stops (cs : List Char) : Prop :=
  ∀ c ∈ cs.head?, c.isDigit = false ∧ c ≠ '.' ∧ c ≠ 'e' ∧ c ≠ 'E'

theorem head?_toDigits_ne_zero {n : ℕ} (h : 0 < n) : (Nat.toDigits 10 n).head? ≠ some '0' := by
  induction n using Nat.strong_induction_on with
  | _ n ih =>
    rw [Nat.toDigits_eq_if (by norm_num)]
    split
    · have hd : ∀ m < 10, 0 < m → m.digitChar ≠ '0' := by decide
      simpa using hd n (by omega) h
    · have hne : Nat.toDigits 10 (n / 10) ≠ [] := Nat.toDigits_ne_nil
      rw [List.head?_append_of_ne_nil _ hne]
      exact ih (n / 10) (by omega) (by omega)

theorem parseFraction_of_stops {cs : List Char} (h : Stops cs) :
    parseFraction cs = some (none, cs) := by
  unfold parseFraction
  split
  · exact absurd rfl (h _ rfl).2.1
  · rfl

theorem parseExponent_of_stops {cs : List Char} (h : Stops cs) :
    parseExponent cs = some (none, cs) := by
  cases cs with
  | nil => rfl
  | cons c cs =>
    obtain ⟨-, -, he, hE⟩ := h c rfl
    rw [parseExponent, if_neg (by tauto)]

theorem parseNumber_toDigits {negative : Bool} {n : ℕ} {cs : List Char} (h : Stops cs)
    (hn : InRange (if negative then -n else n)) (hz : negative = true → n ≠ 0) :
    parseNumber negative (Nat.toDigits 10 n ++ cs)
      = some (.num (if negative then -n else n), cs) := by
  have hdigit : ∀ c ∈ Nat.toDigits 10 n, c.isDigit = true := fun c hc ↦
    Nat.isDigit_of_mem_toDigits (by norm_num) le_rfl hc
  have htake : (Nat.toDigits 10 n ++ cs).takeWhile Char.isDigit = Nat.toDigits 10 n := by
    rw [takeWhile_append_of_pos hdigit]
    cases cs with
    | nil => simp
    | cons c cs => simp [(h c rfl).1]
  have hdrop : (Nat.toDigits 10 n ++ cs).dropWhile Char.isDigit = cs := by
    rw [dropWhile_append_of_pos hdigit]
    cases cs with
    | nil => simp
    | cons c cs => simp [(h c rfl).1]
  have hlead : ¬(Nat.toDigits 10 n = [] ∨
      ((Nat.toDigits 10 n).head? = some '0' ∧ (Nat.toDigits 10 n).length ≠ 1)) := by
    rintro (h' | ⟨hz, hl⟩)
    · exact Nat.toDigits_ne_nil h'
    · rcases Nat.eq_zero_or_pos n with rfl | hpos
      · exact hl rfl
      · exact head?_toDigits_ne_zero hpos hz
  have hsign : ¬(negative = true ∧ (if negative then -(n : Int) else n) = 0) := by
    rintro ⟨rfl, h0⟩
    have := hz rfl
    rw [if_pos rfl] at h0
    omega
  rw [parseNumber, htake, hdrop, if_neg hlead, parseFraction_of_stops h,
    Nat.ofDigitChars_ten_toDigits]
  simp only [bind_eq_bind, bind_some, parseExponent_of_stops h]
  rw [if_pos ⟨trivial, trivial, hn, hsign⟩]
  rfl

/-! ## Reading what was printed: values -/

theorem stops_renderElems (xs : List Json) (cs : List Char) : Stops (renderElems xs ++ cs) := by
  cases xs <;> simp [renderElems, Stops]

theorem stops_renderMembers (ms : List (String × Json)) (cs : List Char) :
    Stops (renderMembers ms ++ cs) := by
  obtain _ | ⟨⟨k, v⟩, ms⟩ := ms <;> simp [renderMembers, Stops]

theorem skipSpace_cons {c : Char} (h : isSpace c = false) (cs : List Char) :
    skipSpace (c :: cs) = c :: cs := by
  simp [skipSpace, h]

theorem ne_of_isDigit {c d : Char} (h : c.isDigit = true) (hd : d.isDigit = false) : c ≠ d :=
  fun heq ↦ absurd (h.symm.trans (heq ▸ hd)) (by decide)

theorem isSpace_of_isDigit {c : Char} (h : c.isDigit = true) : isSpace c = false := by
  simp [isSpace, ne_of_isDigit h (d := ' ') (by decide), ne_of_isDigit h (d := '\t') (by decide),
    ne_of_isDigit h (d := '\n') (by decide), ne_of_isDigit h (d := '\r') (by decide)]

theorem exists_toDigits (n : ℕ) : ∃ d ds, Nat.toDigits 10 n = d :: ds ∧ d.isDigit = true := by
  obtain ⟨d, ds, hds⟩ := exists_cons_of_ne_nil (Nat.toDigits_ne_nil (n := n) (b := 10))
  exact ⟨d, ds, hds, Nat.isDigit_of_mem_toDigits (by norm_num) le_rfl (hds ▸ mem_cons_self)⟩

/-- A digit begins none of the other productions. -/
theorem parseValue_digit {c : Char} (h : c.isDigit = true) (fuel levels : ℕ) (cs : List Char) :
    parseValue (fuel + 1) levels (c :: cs)
      = parseNumber false (c :: cs) := by
  rw [parseValue, skipSpace_cons (isSpace_of_isDigit h)]
  split
  case h_8 =>
    rename_i heq
    obtain ⟨rfl, rfl⟩ := List.cons.inj heq
    rfl
  case h_9 => rename_i heq; cases heq
  all_goals
    rename_i heq
    exact absurd (List.cons.inj heq).1 (ne_of_isDigit h (by decide))

theorem parseValue_renderInt {n : Int} (hn : InRange n) (fuel levels : ℕ) {cs : List Char}
    (h : Stops cs) : parseValue (fuel + 1) levels (renderInt n ++ cs) = some (.num n, cs) := by
  rw [renderInt]
  split
  · rename_i hneg
    have habs : n.natAbs ≠ 0 := by omega
    have hcast : -(n.natAbs : Int) = n := by omega
    rw [cons_append, parseValue, skipSpace_cons (by decide)]
    simp only []
    rw [parseNumber_toDigits h (by rwa [if_pos rfl, hcast]) fun _ ↦ habs, if_pos rfl, hcast]
  · rename_i hneg
    have hcast : (n.natAbs : Int) = n := by omega
    obtain ⟨d, ds, hds, hd⟩ := exists_toDigits n.natAbs
    have hp := @parseNumber_toDigits false n.natAbs _ h
      (by rwa [if_neg Bool.false_ne_true, hcast]) (by simp)
    rw [hds, cons_append] at hp ⊢
    rw [parseValue_digit hd, hp, if_neg Bool.false_ne_true, hcast]

/-- The first character of a value's text is no white space and closes no array. -/
theorem head_render {j : Json} (hj : j.Printable) :
    ∃ c cs, j.render = c :: cs ∧ isSpace c = false ∧ c ≠ ']' := by
  match j with
  | .null | .bool true | .bool false | .str _ | .arr [] | .arr (_ :: _) | .obj []
  | .obj ((_, _) :: _) => exact ⟨_, _, rfl, by decide, by decide⟩
  | .num n =>
    rw [render, renderInt]
    split
    · exact ⟨_, _, rfl, by decide, by decide⟩
    · obtain ⟨d, ds, hds, hd⟩ := exists_toDigits n.natAbs
      exact ⟨d, ds, hds, isSpace_of_isDigit hd, ne_of_isDigit hd (by decide)⟩

/-- An opening bracket before an element. -/
theorem parseValue_bracket {levels : ℕ} (hl : ¬levels ≤ 1) {c : Char} (hc : isSpace c = false)
    (hne : c ≠ ']') (fuel : ℕ) (cs : List Char) :
    parseValue (fuel + 1) levels ('[' :: c :: cs)
      = (parseElems fuel (levels - 1) (c :: cs)).map fun p ↦ (.arr p.1, p.2) := by
  rw [parseValue, skipSpace_cons (by decide)]
  simp only [if_neg hl, skipSpace_cons hc]
  split
  · rename_i heq
    exact absurd (List.cons.inj heq).1 hne
  · rfl

/-- An opening brace before a member. -/
theorem parseValue_brace {levels : ℕ} (hl : ¬levels ≤ 1) (fuel : ℕ) (cs : List Char) :
    parseValue (fuel + 1) levels ('\x7b' :: '\x22' :: cs)
      = (parseMembers fuel (levels - 1) ('\x22' :: cs)).map
          fun p ↦ (.obj (ofMembers p.1), p.2) := by
  have hquote : isSpace '\x22' = false := by decide
  rw [parseValue, skipSpace_cons (by decide)]
  simp only [if_neg hl, skipSpace_cons hquote]
  split
  · rename_i heq
    exact absurd (List.cons.inj heq).1 (by decide)
  · rfl

/-- A quoted key and a colon before a member's value. -/
theorem parseMembers_key (fuel levels : ℕ) (k : String) {v : Json} {cs rest : List Char}
    (hv : parseValue fuel levels cs = some (v, rest)) :
    parseMembers (fuel + 1) levels (renderString k ++ ':' :: cs)
      = match skipSpace rest with
        | ',' :: rest => (parseMembers fuel levels rest).map fun p ↦ ((k, v) :: p.1, p.2)
        | '\x7d' :: rest => some ([(k, v)], rest)
        | _ => none := by
  simp only [renderString, cons_append, append_assoc, nil_append, parseMembers,
    skipSpace, dropWhile_cons, show isSpace '\x22' = false from by decide]
  simp only [Bool.false_eq_true, if_false, parseString_flatMap, bind_eq_bind,
    bind_some, dropWhile_cons, show isSpace ':' = false from by decide, hv,
    chars_eq_toList, String.ofList_toList]
  split
  · cases parseMembers fuel levels _ <;> rfl
  · rfl
  · rfl

mutual

/-- Reading a printed value gives the value, with its members in order, and leaves what follows it.
The text is fuel enough: each production spends one unit and at least one character. -/
theorem parseValue_render : ∀ (j : Json) (fuel levels : ℕ) (cs : List Char), j.Printable →
    j.render.length ≤ fuel → j.depth < levels → Stops cs →
    parseValue fuel levels (j.render ++ cs) = some (j.sortValue, cs)
  | .null, fuel + 1, _, _, _, _, _, _ | .bool true, fuel + 1, _, _, _, _, _, _
  | .bool false, fuel + 1, _, _, _, _, _, _ => by
    simp [render, parseValue, skipSpace, isSpace, sortValue]
  | .num n, fuel + 1, _, _, hv, _, _, hs => parseValue_renderInt hv _ _ hs
  | .num n, 0, _, _, hv, hf, _, _ =>
    absurd (length_eq_zero_iff.mp (Nat.le_zero.mp hf)) (render_ne_nil _ hv)
  | .str s, fuel + 1, _, cs, _, _, _, _ => by
    simp only [render, renderString, cons_append, append_assoc, nil_append,
      parseValue, skipSpace, dropWhile_cons, show isSpace '\x22' = false from by decide]
    simp [parseString_flatMap, sortValue]
  | .arr [], fuel + 1, levels, cs, _, _, hd, _ => by
    have hl : ¬levels ≤ 1 := by simp [depth, depthElems] at hd; omega
    simp [render, parseValue, skipSpace, isSpace, hl, sortValue, sortElems]
  | .arr (x :: xs), fuel + 1, levels, cs, hv, hf, hd, hs => by
    simp only [Printable, PrintableElems] at hv
    simp only [render, length_cons, length_append] at hf
    simp only [depth, depthElems] at hd
    have ih := parseElems_render x xs fuel (levels - 1) cs hv.1 hv.2
      (by rw [length_append]; omega) (by omega)
    obtain ⟨c, ds, hx, hc, hne⟩ := head_render hv.1
    rw [render, cons_append, append_assoc]
    rw [hx, cons_append] at ih ⊢
    rw [parseValue_bracket (by omega) hc hne, ih, map_some, sortValue, sortElems]
  | .obj [], fuel + 1, levels, cs, _, _, hd, _ => by
    have hl : ¬levels ≤ 1 := by simp [depth, depthMembers] at hd; omega
    simp [render, parseValue, skipSpace, isSpace, hl, sortValue, sortMembers, ofMembers]
  | .obj ((k, v) :: ms), fuel + 1, levels, cs, hv, hf, hd, hs => by
    simp only [Printable, PrintableMembers] at hv
    simp only [render, length_cons, length_append] at hf
    simp only [depth, depthMembers] at hd
    have ih := parseMembers_render k v ms fuel (levels - 1) cs hv.1
      hv.2 (by simp only [length_cons, length_append]; omega) (by omega)
    rw [render, cons_append, append_assoc, cons_append, append_assoc]
    rw [renderString, cons_append] at ih ⊢
    rw [parseValue_brace (by omega), ih, map_some, sortValue, sortMembers]

theorem parseElems_render : ∀ (x : Json) (xs : List Json) (fuel levels : ℕ) (cs : List Char),
    x.Printable → PrintableElems xs → (x.render ++ renderElems xs).length ≤ fuel →
    max x.depth (depthElems xs) < levels →
    parseElems fuel levels (x.render ++ (renderElems xs ++ cs)) =
      some (x.sortValue :: sortElems xs, cs)
  | x, xs, 0, _, _, hx, _, hf, _ =>
    absurd (append_eq_nil_iff.mp (length_eq_zero_iff.mp (Nat.le_zero.mp hf))).1
      (render_ne_nil x hx)
  | x, [], fuel + 1, levels, cs, hx, _, hf, hd => by
    simp only [renderElems, length_append, length_singleton] at hf
    have ihx := parseValue_render x fuel levels
      (renderElems [] ++ cs) hx (by omega) (by omega) (stops_renderElems [] cs)
    rw [parseElems, ihx]
    simp [renderElems, skipSpace, isSpace, sortElems]
  | x, y :: ys, fuel + 1, levels, cs, hx, hxs, hf, hd => by
    simp only [PrintableElems] at hxs
    simp only [renderElems, length_append, length_cons] at hf
    simp only [depthElems] at hd
    have ihx := parseValue_render x fuel levels
      (renderElems (y :: ys) ++ cs) hx (by omega) (by omega) (stops_renderElems _ cs)
    have ihxs := parseElems_render y ys fuel levels cs hxs.1 hxs.2
      (by rw [length_append]; omega) (by omega)
    rw [parseElems, ihx]
    have hskip : skipSpace (renderElems (y :: ys) ++ cs)
        = ',' :: (y.render ++ (renderElems ys ++ cs)) := by
      simp [renderElems, skipSpace, isSpace]
    simp only [bind_eq_bind, bind_some, hskip, ihxs]
    rfl

theorem parseMembers_render : ∀ (k : String) (v : Json) (ms : List (String × Json))
    (fuel levels : ℕ) (cs : List Char), v.Printable → PrintableMembers ms →
    (renderString k ++ ':' :: (v.render ++ renderMembers ms)).length ≤ fuel →
    max v.depth (depthMembers ms) < levels →
    parseMembers fuel levels (renderString k ++ ':' :: (v.render ++ (renderMembers ms ++ cs)))
      = some ((k, v.sortValue) :: sortMembers ms, cs)
  | k, v, ms, 0, _, _, _, _, hf, _ => by simp [renderString] at hf
  | k, v, [], fuel + 1, levels, cs, hv, _, hf, hd => by
    simp only [renderMembers, length_append, length_cons] at hf
    have ihv := parseValue_render v fuel levels
      (renderMembers [] ++ cs) hv (by omega) (by omega) (stops_renderMembers [] cs)
    rw [parseMembers_key fuel levels k ihv]
    simp [renderMembers, skipSpace, isSpace, sortMembers]
  | k, v, (l, w) :: ms, fuel + 1, levels, cs, hv, hms, hf, hd => by
    simp only [PrintableMembers] at hms
    simp only [renderMembers, length_append, length_cons] at hf
    simp only [depthMembers] at hd
    have ihv := parseValue_render v fuel levels
      (renderMembers ((l, w) :: ms) ++ cs) hv (by omega) (by omega)
      (stops_renderMembers _ cs)
    have ihms := parseMembers_render l w ms fuel levels cs hms.1
      hms.2 (by simp only [length_append, length_cons]; omega) (by omega)
    have hskip : skipSpace (renderMembers ((l, w) :: ms) ++ cs)
        = ',' :: (renderString l ++ ':' :: (w.render ++ (renderMembers ms ++ cs))) := by
      simp [renderMembers, skipSpace, isSpace]
    rw [parseMembers_key fuel levels k ihv, hskip]
    simp only [ihms, map_some, sortMembers]

end

/-! ## Documents -/

theorem parse_render {j : Json} (hv : j.Printable) (hd : j.depth < recursionLimit) :
    parse j.render = some j.sortValue := by
  have h := parseValue_render j _ _ [] hv le_rfl hd (by simp [Stops])
  rw [append_nil] at h
  rw [parse, h]
  simp [skipSpace]

theorem decodeUtf8_encodeUtf8 (cs : List Char) : decodeUtf8 (encodeUtf8 cs) = some cs := by
  have h := List.utf8Decode?_utf8Encode (l := cs)
  rw [List.utf8Encode] at h
  rw [decodeUtf8, encodeUtf8, h, map_some]

/-- Reading the compact document of a value that is not nested too deep gives the value, with its
members in order. -/
theorem ofBytes_bytes_of_printable {j : Json} (hv : j.Printable) (hd : j.depth < recursionLimit) :
    ofBytes j.bytes = some j.sortValue := by
  rw [ofBytes, bytes, decodeUtf8_encodeUtf8, bind_some, parse_render hv hd]

/-- A valid value is given back as it was. -/
theorem ofBytes_bytes {j : Json} (hv : j.Valid) (hd : j.depth < recursionLimit) :
    ofBytes j.bytes = some j := by
  rw [ofBytes_bytes_of_printable hv.printable hd, sortValue_of_valid hv]

end Codeclew.Json
