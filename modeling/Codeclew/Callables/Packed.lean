import Codeclew.Callables.Shards
import Codeclew.Greedy

/-!
# Shards of callable facts are packed exactly

The length that is computed for a shard from the lengths of its rows is the length of its document,
as long as the texts in its header stand for themselves in a string literal. So the loop makes a
greedy cut of the rows.
-/

namespace Codeclew.Callables

open Json Cas List

/-! ## Lengths of documents -/

theorem escapeChar_of_literalSafe {c : Char}
    (h : (0x20 ≤ c.toNat && c.toNat < 0x7f && c ≠ '\x22' && c ≠ '\\') = true) :
    escapeChar c = [c] := by
  simp only [Bool.and_eq_true, decide_eq_true_eq] at h
  obtain ⟨⟨⟨hlow, -⟩, hquote⟩, hslash⟩ := h
  -- the other escapes are for characters below the space
  have hne : ∀ d : Char, d.toNat < 0x20 → c ≠ d := by
    rintro d hd rfl
    omega
  rw [escapeChar, if_neg hquote, if_neg hslash, if_neg (hne _ (by decide)),
    if_neg (hne _ (by decide)), if_neg (hne _ (by decide)), if_neg (hne _ (by decide)),
    if_neg (hne _ (by decide)), if_neg (by omega)]

/-- A safe text is as long as its literal without the quotes. -/
theorem stringSize_of_literalSafe {value : String} (h : literalSafe value = true) :
    stringSize value = utf8Length (chars value) + 2 := by
  have hescape : ∀ cs : List Char,
      (∀ c ∈ cs, (0x20 ≤ c.toNat && c.toNat < 0x7f && c ≠ '\x22' && c ≠ '\\') = true) →
      cs.flatMap escapeChar = cs := by
    intro cs hcs
    induction cs with
    | nil => rfl
    | cons c cs ih =>
      obtain ⟨hc, hcs⟩ := forall_mem_cons.mp hcs
      rw [flatMap_cons, escapeChar_of_literalSafe hc, ih hcs]
      rfl
  rw [stringSize, renderString, hescape _ (all_eq_true.mp h), utf8Length_cons,
    utf8Length_append]
  have hquote : utf8Length ['\x22'] = 1 := rfl
  have hquote' : ('\x22' : Char).utf8Size = 1 := rfl
  omega

/-- The length of an object with safe names and values of these lengths. -/
def closedLen (fields : List (String × ℕ)) : ℕ :=
  (fields.map fun field ↦ utf8Length (chars field.1) + 3 + field.2).sum + (fields.length - 1) + 2

theorem length_canonicalBytes (j : Json) : (canonicalBytes j).length = j.sortValue.size :=
  length_bytes _

theorem size_sortElems (xs : List Json) :
    ((sortElems xs).map size).sum = (xs.map fun x ↦ (canonicalBytes x).length).sum ∧
      (sortElems xs).length = xs.length := by
  induction xs with
  | nil => exact ⟨rfl, rfl⟩
  | cons x xs ih =>
    rw [sortElems, map_cons, sum_cons, map_cons, sum_cons, ih.1,
      length_canonicalBytes, length_cons, length_cons, ih.2]
    exact ⟨rfl, rfl⟩

theorem size_sortValue_arr (xs : List Json) : (sortValue (.arr xs)).size
    = (xs.map fun x ↦ (canonicalBytes x).length).sum + 2 + (xs.length - 1) := by
  rw [sortValue, size_arr, (size_sortElems xs).1, (size_sortElems xs).2]
  omega

/-- What an object with safe names has is what is computed for it. -/
theorem size_obj_of_literalSafe {ms : List (String × Json)}
    (h : ∀ m ∈ ms, literalSafe m.1 = true) :
    (Json.obj ms).size = closedLen (ms.map fun m ↦ (m.1, m.2.size)) := by
  have hmap : (ms.map fun m ↦ stringSize m.1 + 1 + m.2.size)
      = (ms.map fun m ↦ (m.1, m.2.size)).map fun field ↦
        utf8Length (chars field.1) + 3 + field.2 := by
    rw [map_map]
    refine map_congr_left fun m hm ↦ ?_
    rw [stringSize_of_literalSafe (h m hm)]
    exact congrArg (· + m.2.size) (Nat.add_assoc _ 2 1)
  rw [size_obj, hmap, closedLen, length_map]

/-- A length that is not a number of the code. -/
def Overflows (size : ℕ) (e : ClewError) : Prop :=
  usizeMax < size ∧ ∃ message, e = budget message

theorem Overflows.mono {size size' : ℕ} {e : ClewError} (h : Overflows size e)
    (hle : size ≤ size') :
    Overflows size' e :=
  ⟨h.1.trans_le hle, h.2⟩

theorem outcome_encodedArrayLen (encodedItems itemCount : ℕ) :
    Outcome (· = encodedItems + 2 + (itemCount - 1))
      (Overflows (encodedItems + 2 + (itemCount - 1))) (encodedArrayLen encodedItems itemCount) :=
  .bind (.ensure fun hlong ↦ ⟨Nat.lt_of_not_le hlong, _, rfl⟩) fun _ _ ↦ .pure rfl

theorem outcome_encodedAsciiStringLen (value : String) :
    Outcome (fun size ↦ literalSafe value = true ∧ size = stringSize value)
      (fun e ↦ Overflows (stringSize value) e ∨ (literalSafe value = false ∧
        e = invalid "canonical shard header contains a non-literal-safe identity"))
      (encodedAsciiStringLen value) := by
  refine .bind (.ensure fun hliteral ↦ .inr ⟨Bool.eq_false_iff.mpr hliteral, rfl⟩) fun _ hsafe ↦ ?_
  rw [stringSize_of_literalSafe hsafe]
  exact .bind (.ensure fun hlong ↦ .inl ⟨Nat.lt_of_not_le hlong, _, rfl⟩) fun _ _ ↦
    .pure ⟨hsafe, rfl⟩

theorem closedLen_concat (fields : List (String × ℕ)) (field : String × ℕ) :
    closedLen (fields ++ [field]) = closedLen fields + (if fields.length > 0 then 1 else 0)
      + (utf8Length (chars field.1) + 2) + 1 + field.2 := by
  simp only [closedLen, map_append, sum_append, map_cons, map_nil,
    sum_cons, sum_nil, length_append, length_cons, length_nil]
  split <;> omega

theorem closedLen_append_le (fields more : List (String × ℕ)) :
    closedLen fields ≤ closedLen (fields ++ more) := by
  simp only [closedLen, map_append, sum_append, length_append]
  omega

variable {fields : List (String × ℕ)}

/-- The sum over the members of an object. -/
theorem outcome_encodedClosedObjectLen (hsafe : ∀ field ∈ fields, literalSafe field.1 = true) :
    Outcome (· = closedLen fields) (Overflows (closedLen fields))
      (encodedClosedObjectLen fields) := by
  have hfold : Outcome (fun length ↦ length = closedLen (fields.zipIdx.map (·.1)))
      (Overflows (closedLen fields)) (encodedClosedObjectLen fields) := by
    refine .foldlM
      (I := fun (seen : List ((String × ℕ) × ℕ)) length ↦ length = closedLen (seen.map (·.1)))
      (fun seen entry rest length heq hlength ↦ ?_) rfl
    have hindex : entry.2 = seen.length := by
      have hget : fields.zipIdx[seen.length]? = some entry := by simp [heq]
      rw [List.getElem?_zipIdx] at hget
      obtain ⟨field, -, rfl⟩ := Option.map_eq_some_iff.mp hget
      exact Nat.zero_add _
    have hfields : fields = seen.map (·.1) ++ [entry.1] ++ rest.map (·.1) := by
      rw [← zipIdx_map_fst 0 fields, heq]
      simp
    have hfield : literalSafe entry.1.1 = true := hsafe entry.1 (by rw [hfields]; simp)
    have hnext : closedLen (seen.map (·.1) ++ [entry.1]) = length
        + (if entry.2 > 0 then 1 else 0) + stringSize entry.1.1 + 1 + entry.1.2 := by
      rw [closedLen_concat, length_map, hindex, hlength, stringSize_of_literalSafe hfield]
    have hle : closedLen (seen.map (·.1) ++ [entry.1]) ≤ closedLen fields := by
      rw [hfields]
      exact closedLen_append_le _ _
    refine ((outcome_encodedAsciiStringLen entry.1.1).mono (fun _ h ↦ h.2) fun e he ↦ ?_).bind ?_
    · rcases he with hlong | ⟨hliteral, -⟩
      · exact hlong.mono (by omega)
      · rw [hfield] at hliteral
        cases hliteral
    · rintro keyLen rfl
      rw [map_append, map_singleton, hnext]
      exact .bind (.ensure fun hlong ↦ ⟨by omega, _, rfl⟩) fun _ _ ↦ .pure rfl
  rwa [zipIdx_map_fst] at hfold

/-! ## The loop -/

section Loop

variable {ρ π : Type} {k : Profile ρ π} {limit : ℕ} {len : UInt32 → List ρ → ℕ} {safe : ρ → Prop}

/-- Why the length of a document is not computed: it is not a number of the code, or a text of the
header is not safe. -/
def Misfit (size : ℕ) (identity : Prop) (e : ClewError) : Prop :=
  Overflows size e ∨
    (identity ∧ e = invalid "canonical shard header contains a non-literal-safe identity")

/-- What is computed is the length of the documents, unless a text of a header is not safe, and what
is within the limit can be published. -/
structure Measured (k : Profile ρ π) (limit : ℕ) (len : UInt32 → List ρ → ℕ) (safe : ρ → Prop) :
    Prop where
  rows_le : ∀ sequence rows, (rows.map k.rowLen).sum ≤ len sequence rows
  shardLen : ∀ sequence rows first last, rows.head? = some first → rows.getLast? = some last →
    Outcome (· = len sequence rows) (Misfit (len sequence rows) (∃ row ∈ rows, ¬safe row))
      (k.shardLen sequence first last (rows.map k.rowLen).sum rows.length)
  publish : ∀ sequence rows, rows ≠ [] → len sequence rows ≤ limit →
    ∃ shard, k.publish sequence rows = .ok shard

/-- Why rows cannot be cut. A part has at least one row, so that a sequence number is at most the
number of rows before. -/
inductive Refused (k : Profile ρ π) (limit : ℕ) (len : UInt32 → List ρ → ℕ) (safe : ρ → Prop)
    (rows : List ρ) : ClewError → Prop
  | row (before after : List ρ) (row : ρ) (sequence : UInt32) : rows = before ++ row :: after →
      sequence.toNat ≤ before.length → limit < len sequence [row] →
      Refused k limit len safe rows (budget k.oneExceeds)
  | identity (row : ρ) : row ∈ rows → ¬safe row → Refused k limit len safe rows
      (invalid "canonical shard header contains a non-literal-safe identity")
  | sequence : 2 ^ 32 ≤ rows.length → Refused k limit len safe rows (budget k.sequenceOverflow)
  | size (part : List ρ) (sequence : UInt32) (e : ClewError) : part <:+: rows →
      sequence.toNat ≤ rows.length → Overflows (len sequence part) e →
      Refused k limit len safe rows e

theorem Refused.append {rows : List ρ} {e : ClewError} (h : Refused k limit len safe rows e)
    (rest : List ρ) : Refused k limit len safe (rows ++ rest) e := by
  have hle : rows.length ≤ (rows ++ rest).length := (sublist_append_left _ _).length_le
  cases h with
  | row before after row sequence hrows hnumber hlong =>
    exact .row before (after ++ rest) row sequence (by simp [hrows]) hnumber hlong
  | identity row hrow hliteral => exact .identity row (mem_append_left _ hrow) hliteral
  | sequence hmany => exact .sequence (hmany.trans hle)
  | size part sequence _ hpart hnumber hlong =>
    exact .size part sequence e (hpart.trans (prefix_append _ _).isInfix) (hnumber.trans hle) hlong

/-- What is computed from the lengths of the rows is the length of the document. -/
def Predicted (k : Profile ρ π) (len : UInt32 → List ρ → ℕ) (sequence : UInt32) (part : List ρ) :
    Prop :=
  ∃ first last, part.head? = some first ∧ part.getLast? = some last ∧
    k.shardLen sequence first last (part.map k.rowLen).sum part.length = .ok (len sequence part)

theorem Measured.outcome_shardLen (h : Measured k limit len safe) {sequence : UInt32}
    {rows part : List ρ} {first last : ρ} (hfirst : part.head? = some first)
    (hlast : part.getLast? = some last) (hpart : part <:+: rows)
    (hnumber : sequence.toNat ≤ rows.length) :
    Outcome (fun size ↦ size = len sequence part ∧ Predicted k len sequence part)
      (Refused k limit len safe rows)
      (k.shardLen sequence first last (part.map k.rowLen).sum part.length) := by
  refine ((h.shardLen sequence part first last hfirst hlast).and_of_ok fun _ hsize ↦ hsize).mono
    (fun size hsize ↦ ?_) fun e he ↦ ?_
  · obtain ⟨hsize, rfl⟩ := hsize
    exact ⟨rfl, first, last, hfirst, hlast, hsize⟩
  rcases he with hlong | ⟨⟨row, hrow, hliteral⟩, rfl⟩
  · exact .size part sequence e hpart hnumber hlong
  · exact .identity row (hpart.subset hrow) hliteral

/-- The lengths of the numbered parts. -/
def partLen (len : UInt32 → List ρ → ℕ) (i : ℕ) (part : List ρ) : ℕ := len (UInt32.ofNat i) part

/-- The published shards are those of the parts, with the lengths that were computed. -/
def Published (k : Profile ρ π) (len : UInt32 → List ρ → ℕ) (parts : List (List ρ))
    (published : List π) : Prop :=
  List.Forall₂ (fun (part : List ρ × ℕ) shard ↦ Predicted k len (UInt32.ofNat part.2) part.1 ∧
    k.publish (UInt32.ofNat part.2) part.1 = .ok shard) parts.zipIdx published

variable {parts : List (List ρ)}

theorem Published.concat {published : List π} {part : List ρ} {shard : π}
    (h : Published k len parts published)
    (hpredicted : Predicted k len (UInt32.ofNat parts.length) part)
    (hpart : k.publish (UInt32.ofNat parts.length) part = .ok shard) :
    Published k len (parts ++ [part]) (published ++ [shard]) := by
  rw [Published, zipIdx_append]
  refine rel_append h (.cons ?_ .nil)
  simpa using And.intro hpredicted hpart

/-- The invariant of the loop, with the parts that are published. -/
structure Cuts (k : Profile ρ π) (limit : ℕ) (len : UInt32 → List ρ → ℕ) (parts : List (List ρ))
    (seen : List ρ) (c : Cutting ρ π) : Prop where
  rows : parts.flatten ++ c.current = seen
  sequence : c.sequence = UInt32.ofNat parts.length
  sequence_lt : parts.length < 2 ^ 32
  bytes : c.encodedRows = (c.current.map k.rowLen).sum
  start : c.current = [] → parts = []
  greedy : c.current ≠ [] → Greedy (partLen len) limit (parts ++ [c.current])
  predicted : c.current ≠ [] → Predicted k len c.sequence c.current
  published : Published k len parts c.published

variable {c : Cutting ρ π} {seen : List ρ}

section

variable (h : Cuts k limit len parts seen c)
include h

theorem Cuts.length_lt (hcurrent : c.current ≠ []) :
    parts.length < seen.length := by
  have hparts : parts.length ≤ parts.flatten.length := by
    rw [length_flatten, ← length_map List.length]
    refine length_le_sum_of_one_le _ fun n hn ↦ ?_
    obtain ⟨part, hpart, rfl⟩ := mem_map.mp hn
    exact length_pos_iff.mpr ((h.greedy hcurrent).of_concat.nonempty part hpart)
  have hpos := length_pos_iff.mpr hcurrent
  rw [← h.rows, length_append]
  omega

theorem Cuts.sequence_toNat_lt (hcurrent : c.current ≠ []) : c.sequence.toNat < seen.length := by
  rw [h.sequence]
  exact (Nat.mod_le _ _).trans_lt (h.length_lt hcurrent)

theorem Cuts.sequence_toNat_le : c.sequence.toNat ≤ seen.length := by
  by_cases hcurrent : c.current = []
  · rw [h.sequence, h.start hcurrent]
    exact Nat.zero_le _
  · exact (h.sequence_toNat_lt hcurrent).le

/-- The row goes to the current part. -/
theorem Cuts.extend {row : ρ} (hpredicted : Predicted k len c.sequence (c.current ++ [row]))
    (hfits : len c.sequence (c.current ++ [row]) ≤ limit) :
    Cuts k limit len parts (seen ++ [row]) { c with
      current := c.current ++ [row]
      encodedRows := ((c.current ++ [row]).map k.rowLen).sum } where
  rows := by rw [← h.rows, append_assoc]
  sequence := h.sequence
  sequence_lt := h.sequence_lt
  bytes := rfl
  start hnil := absurd hnil (by simp)
  greedy _ := by
    rw [h.sequence] at hfits
    by_cases hcurrent : c.current = []
    · have hparts := h.start hcurrent
      rw [hcurrent, nil_append, hparts] at hfits
      change Greedy (partLen len) limit (parts ++ [c.current ++ [row]])
      rw [hcurrent, hparts]
      exact Greedy.nil.concat hfits nofun
    · exact (h.greedy hcurrent).extend hfits
  predicted _ := hpredicted
  published := h.published

/-- The row starts the next part. -/
theorem Cuts.next {row : ρ} {shard : π} (hcurrent : c.current ≠ [])
    (hfull : limit < len c.sequence (c.current ++ [row]))
    (hshard : k.publish c.sequence c.current = .ok shard) (hlt : c.sequence.toNat + 1 < 2 ^ 32)
    (hpredicted : Predicted k len (c.sequence + 1) [row])
    (hrow : len (c.sequence + 1) [row] ≤ limit) :
    Cuts k limit len (parts ++ [c.current]) (seen ++ [row]) {
      sequence := c.sequence + 1
      current := [row]
      encodedRows := k.rowLen row
      published := c.published ++ [shard] } := by
  have hnext : c.sequence + 1 = UInt32.ofNat (parts.length + 1) := by
    rw [h.sequence, UInt32.ofNat_add]
    rfl
  have hnumber : c.sequence.toNat = parts.length := by
    rw [h.sequence]
    exact UInt32.toNat_ofNat_of_lt' h.sequence_lt
  rw [hnext] at hrow
  have hcurrentPredicted := h.predicted hcurrent
  rw [h.sequence] at hfull hshard hcurrentPredicted
  refine ⟨?_, ?_, ?_, ?_, nofun, fun _ ↦ (h.greedy hcurrent).next hfull hrow, fun _ ↦ hpredicted,
    h.published.concat hcurrentPredicted hshard⟩
  · simp [← h.rows]
  · rw [hnext, length_append, length_singleton]
  · rw [length_append, length_singleton]
    omega
  · simp

end

theorem exists_publish (hk : Measured k limit len safe) (h : Cuts k limit len parts seen c)
    (hcurrent : c.current ≠ []) : ∃ shard, k.publish c.sequence c.current = .ok shard := by
  refine hk.publish c.sequence c.current hcurrent ?_
  rw [h.sequence]
  exact (h.greedy hcurrent).within parts.length c.current (by simp)

theorem outcome_add (hk : Measured k limit len safe) (h : Cuts k limit len parts seen c) (row : ρ) :
    Outcome (fun c ↦ ∃ parts, Cuts k limit len parts (seen ++ [row]) c)
      (Refused k limit len safe (seen ++ [row])) (c.add k limit row) := by
  have hpart : c.current ++ [row] <:+: seen ++ [row] := by
    rw [← h.rows, append_assoc]
    exact (suffix_append _ _).isInfix
  have hnumber : c.sequence.toNat ≤ (seen ++ [row]).length :=
    h.sequence_toNat_le.trans (sublist_append_left _ _).length_le
  have hbytes : c.encodedRows + k.rowLen row = ((c.current ++ [row]).map k.rowLen).sum := by
    simp [h.bytes]
  have hlength : c.current.length + 1 = (c.current ++ [row]).length := by simp
  have hfirst : (c.current ++ [row]).head? = some (c.current.headD row) := by
    cases c.current <;> rfl
  rw [Cutting.add, hbytes, hlength]
  refine .bind (.ensure fun hlong ↦ ?_) fun _ _ ↦ ?_
  · have hle := hk.rows_le c.sequence (c.current ++ [row])
    exact .size (c.current ++ [row]) c.sequence _ hpart hnumber ⟨by omega, _, rfl⟩
  refine .bind (hk.outcome_shardLen hfirst (by simp) hpart hnumber) ?_
  rintro _ ⟨rfl, hpredicted⟩
  split
  · rename_i hfits
    exact .pure ⟨parts, h.extend hpredicted hfits⟩
  · rename_i hlong
    have hfull : limit < len c.sequence (c.current ++ [row]) := Nat.lt_of_not_le hlong
    split
    · rename_i hcurrent
      rw [hcurrent, nil_append] at hfull
      exact .throw (.row seen [] row c.sequence rfl h.sequence_toNat_le hfull)
    · -- the current part is published, and the row starts the next one
      rename_i hcurrent
      obtain ⟨shard, hshard⟩ := exists_publish hk h hcurrent
      rw [hshard, ok_bind]
      have hless := h.sequence_toNat_lt hcurrent
      refine .bind (.ensure fun hlast ↦ ?_) fun _ hlt ↦ ?_
      · refine .sequence ?_
        rw [length_append, length_singleton]
        omega
      have hnext : (c.sequence + 1).toNat ≤ seen.length := by
        rw [UInt32.toNat_add]
        exact (Nat.mod_le _ _).trans hless
      have halone : Outcome (fun size ↦ size = len (c.sequence + 1) [row] ∧
          Predicted k len (c.sequence + 1) [row]) (Refused k limit len safe (seen ++ [row]))
          (k.shardLen (c.sequence + 1) row row ([row].map k.rowLen).sum [row].length) :=
        hk.outcome_shardLen rfl rfl (suffix_append _ _).isInfix
          (hnext.trans (sublist_append_left _ _).length_le)
      rw [map_singleton, sum_singleton, length_singleton] at halone
      refine halone.bind ?_
      rintro _ ⟨rfl, hpredicted⟩
      refine .bind (.ensure fun hlong ↦ ?_) fun _ hfits ↦ ?_
      · exact .row seen [] row _ rfl hnext (Nat.lt_of_not_le hlong)
      · exact .pure ⟨parts ++ [c.current], h.next hcurrent hfull hshard hlt hpredicted hfits⟩

theorem outcome_build (hk : Measured k limit len safe) (rows : List ρ) :
    Outcome (fun published ↦ ∃ parts, parts.flatten = rows ∧ Greedy (partLen len) limit parts ∧
        Published k len parts published)
      (Refused k limit len safe rows) (k.build limit rows) := by
  have hfold : Outcome (fun c ↦ ∃ parts, Cuts k limit len parts rows c)
      (Refused k limit len safe rows) (rows.foldlM (Cutting.add k limit) ⟨0, [], 0, []⟩) := by
    refine .foldlM (I := fun seen c ↦ ∃ parts, Cuts k limit len parts seen c)
      (fun seen row rest c heq h ↦ ?_)
      ⟨[], rfl, rfl, by norm_num, rfl, fun _ ↦ rfl, fun hne ↦ absurd rfl hne,
        fun hne ↦ absurd rfl hne, .nil⟩
    obtain ⟨parts, h⟩ := h
    have hsplit : rows = (seen ++ [row]) ++ rest := by simpa using heq
    rw [hsplit]
    exact (outcome_add hk h row).mono (fun _ h ↦ h) fun e he ↦ he.append rest
  refine hfold.bind fun c h ↦ ?_
  obtain ⟨parts, h⟩ := h
  split
  · rename_i hcurrent
    refine .pure ⟨parts, ?_, ?_, h.published⟩
    · rw [← h.rows, hcurrent, append_nil]
    · rw [h.start hcurrent]
      exact .nil
  · rename_i hcurrent
    obtain ⟨shard, hshard⟩ := exists_publish hk h hcurrent
    rw [hshard, ok_bind]
    refine .pure ⟨parts ++ [c.current], ?_, h.greedy hcurrent, ?_⟩
    · rw [← h.rows, flatten_append, flatten_singleton]
    · exact h.published.concat (h.sequence ▸ h.predicted hcurrent) (h.sequence ▸ hshard)

end Loop

/-- Prepared objects are the documents of a greedy cut of the rows, each as long as was computed
from the lengths of its rows. -/
def Shards {ρ π : Type} (k : Profile ρ π) (document : UInt32 → List ρ → Bytes) (limit : ℕ)
    (rows : List ρ) (prepared : List PreparedCasObject) : Prop :=
  ∃ parts, parts.flatten = rows ∧
    Greedy (partLen fun sequence part ↦ (document sequence part).length) limit parts ∧
    List.Forall₂ (fun (part : List ρ × ℕ) (object : PreparedCasObject) ↦
      object.bytes = document (UInt32.ofNat part.2) part.1 ∧
      Predicted k (fun _ _ ↦ object.bytes.length) (UInt32.ofNat part.2) part.1)
      parts.zipIdx prepared

theorem outcome_shards {ρ τ : Type} {k : Profile ρ (PreparedCasObject × τ)}
    {document : UInt32 → List ρ → Bytes} {limit : ℕ} {safe : ρ → Prop}
    (hk : Measured k limit (fun sequence part ↦ (document sequence part).length) safe)
    (hbytes : ∀ sequence part shard, k.publish sequence part = .ok shard →
      shard.1.bytes = document sequence part) (rows : List ρ) :
    Outcome (fun out ↦ Shards k document limit rows out.1)
      (Refused k limit (fun sequence part ↦ (document sequence part).length) safe rows)
      (do
        let shards ← k.build limit rows
        return (shards.map (·.1), shards.map (·.2))) := by
  refine (outcome_build hk rows).bind fun published h ↦ .pure ?_
  obtain ⟨parts, hrows, hgreedy, hpublished⟩ := h
  refine ⟨parts, hrows, hgreedy, forall₂_map_right_iff.mpr (hpublished.imp ?_)⟩
  rintro part shard ⟨hpredicted, hshard⟩
  have hdocument := hbytes _ _ _ hshard
  refine ⟨hdocument, ?_⟩
  rwa [hdocument]

theorem le_closedLen {size : ℕ} (name : String) (h : (name, size) ∈ fields) :
    size ≤ closedLen fields := by
  have hle : utf8Length (chars name) + 3 + size
      ≤ (fields.map fun field ↦ utf8Length (chars field.1) + 3 + field.2).sum :=
    single_le_sum (fun _ _ ↦ Nat.zero_le _) _ (mem_map_of_mem h)
  rw [closedLen]
  omega

theorem outcome_headerText {value : String} {size : ℕ} {identity : Prop}
    (hle : stringSize value ≤ size) (hliteral : literalSafe value = false → identity) :
    Outcome (· = stringSize value) (Misfit size identity) (encodedAsciiStringLen value) := by
  refine (outcome_encodedAsciiStringLen value).mono (fun _ h ↦ h.2) fun e he ↦ ?_
  rcases he with hlong | ⟨hvalue, rfl⟩
  · exact .inl (hlong.mono hle)
  · exact .inr ⟨hliteral hvalue, rfl⟩

/-! ## Facts -/

section Facts

/-- The shard of these facts, of which there is at least one. -/
def factShard (sequence : UInt32) (facts : List CallableFact) : CallableFactShard where
  schema := callableFactShardSchema
  sequence
  firstFactId := (facts.head?.map (·.factId)).getD ""
  lastFactId := (facts.getLast?.map (·.factId)).getD ""
  facts

def factDocument (sequence : UInt32) (facts : List CallableFact) : Bytes :=
  canonicalBytes (factShard sequence facts).json

variable {facts : List CallableFact}

theorem callableFactShard_eq {sequence : UInt32} (h : facts ≠ []) :
    callableFactShard sequence facts = .ok (factShard sequence facts) := by
  obtain ⟨first, rest, rfl⟩ := exists_cons_of_ne_nil h
  simp [callableFactShard, factShard, List.getLast?_cons]

theorem length_factDocument (sequence : UInt32) (facts : List CallableFact) :
    (factDocument sequence facts).length = closedLen [
      ("facts", (facts.map fun fact ↦ (canonicalBytes fact.json).length).sum + 2
        + (facts.length - 1)),
      ("firstFactId", stringSize (factShard sequence facts).firstFactId),
      ("lastFactId", stringSize (factShard sequence facts).lastFactId),
      ("schema", stringSize callableFactShardSchema),
      ("sequence", (Nat.toDigits 10 sequence.toNat).length)] := by
  have hsort : (factShard sequence facts).json.sortValue = .obj [
      ("facts", sortValue (.arr (facts.map (·.json)))),
      ("firstFactId", .str (factShard sequence facts).firstFactId),
      ("lastFactId", .str (factShard sequence facts).lastFactId),
      ("schema", .str callableFactShardSchema), ("sequence", .num sequence.toNat)] := by
    simp +decide only [CallableFactShard.json, sortValue, sortMembers, ofMembers, insertMember,
      List.foldl, if_true, if_false, factShard]
  have hsafe : ∀ name ∈ ["facts", "firstFactId", "lastFactId", "schema", "sequence"],
      literalSafe name = true := by decide
  rw [factDocument, length_canonicalBytes, hsort, size_obj_of_literalSafe (by simpa using hsafe)]
  simp only [map_cons, map_nil, size_sortValue_arr, size_str, size_natCast, map_map,
    length_map, Function.comp_def]

variable [Sha256] (budgets : CallableBudgets)

theorem measured_factProfile : Measured (factProfile budgets) budgets.maxShardBytes
    (fun sequence facts ↦ (factDocument sequence facts).length)
    (fun fact ↦ literalSafe fact.factId = true) where
  rows_le sequence facts := by
    rw [length_factDocument]
    simp only [closedLen, map_cons, sum_cons, factProfile]
    omega
  shardLen sequence facts first last hfirst hlast := by
    have hfirstId : (factShard sequence facts).firstFactId = first.factId := by
      simp [factShard, hfirst]
    have hlastId : (factShard sequence facts).lastFactId = last.factId := by
      simp [factShard, hlast]
    have hliteral : ∀ fact ∈ facts, literalSafe fact.factId = false →
        ∃ fact ∈ facts, ¬literalSafe fact.factId = true :=
      fun fact hfact h ↦ ⟨fact, hfact, Bool.eq_false_iff.mp h⟩
    have hnames : ∀ name ∈ ["facts", "firstFactId", "lastFactId", "schema", "sequence"],
        literalSafe name = true := by decide
    have hschema : literalSafe callableFactShardSchema = true := by decide
    rw [length_factDocument, hfirstId, hlastId]
    refine .bind ((outcome_encodedArrayLen _ _).mono (fun _ h ↦ h) fun e he ↦
      .inl (he.mono (le_closedLen "facts" (by simp [factProfile])))) ?_
    rintro _ rfl
    refine .bind (outcome_headerText (le_closedLen "firstFactId" (by simp))
      (hliteral first (mem_of_mem_head? hfirst))) ?_
    rintro _ rfl
    refine .bind (outcome_headerText (le_closedLen "lastFactId" (by simp))
      (hliteral last (mem_of_mem_getLast? hlast))) ?_
    rintro _ rfl
    refine .bind (outcome_headerText (le_closedLen "schema" (by simp)) fun h ↦ ?_) ?_
    · rw [hschema] at h
      cases h
    rintro _ rfl
    exact (outcome_encodedClosedObjectLen (by simpa using hnames)).mono (fun _ h ↦ h) fun e he ↦
      .inl he
  publish sequence facts hne hle := by
    have hschema : validateObjectSchema callableFactShardSchema = .ok () := by decide
    refine ⟨_, bind_eq_ok_iff.mpr ⟨_, callableFactShard_eq hne, ensure_bind_eq_ok_iff.mpr ⟨hle,
      bind_eq_ok_iff.mpr ⟨_, CasObject.forBytes_eq_ok_iff.mpr ⟨hschema, rfl⟩, rfl⟩⟩⟩⟩

theorem bytes_of_publishPreparedFactShard {sequence : UInt32}
    {shard : PreparedCasObject × CallableFactShardReference}
    (h : publishPreparedFactShard budgets sequence facts = .ok shard) :
    shard.1.bytes = factDocument sequence facts := by
  obtain ⟨document, hdocument, h⟩ := bind_eq_ok_iff.mp h
  obtain ⟨-, h⟩ := ensure_bind_eq_ok_iff.mp h
  obtain ⟨object, -, h⟩ := bind_eq_ok_iff.mp h
  have hne : facts ≠ [] := by
    rintro rfl
    cases hdocument
  rw [callableFactShard_eq hne] at hdocument
  rw [← Except.ok.inj h, ← Except.ok.inj hdocument]
  rfl

end Facts

/-! ## Records of the index -/

section Records

/-- The shard of these records, of which there is at least one. -/
def queryShard (bindingDigest : String) (sequence : UInt32) (first last : CallableIndexRecord)
    (records : List CallableIndexRecord) : CallableQueryShard where
  schema := callableQueryShardSchema
  bindingDigest
  sequence
  firstKey := first.key
  lastKey := last.key
  records

/-- No record: a stand-in that is never asked for. -/
def noRecord : CallableIndexRecord :=
  ⟨⟨.token, none, ""⟩, ⟨"", .boundary, "", "", none, none, none, none, none, false, []⟩⟩

def queryDocument (bindingDigest : String) (sequence : UInt32)
    (records : List CallableIndexRecord) : Bytes :=
  canonicalBytes (queryShard bindingDigest sequence (records.headD noRecord)
    (records.getLastD noRecord) records).json

variable {records : List CallableIndexRecord}

theorem callableQueryShard_eq {bindingDigest : String} {sequence : UInt32} (h : records ≠ []) :
    callableQueryShard bindingDigest sequence records = .ok (queryShard bindingDigest sequence
      (records.headD noRecord) (records.getLastD noRecord) records) := by
  obtain ⟨first, rest, rfl⟩ := exists_cons_of_ne_nil h
  simp [callableQueryShard, queryShard, List.getLast?_cons]

theorem length_queryDocument (bindingDigest : String) (sequence : UInt32)
    (records : List CallableIndexRecord) :
    (queryDocument bindingDigest sequence records).length = closedLen [
      ("bindingDigest", stringSize bindingDigest),
      ("firstKey", (canonicalBytes (records.headD noRecord).key.json).length),
      ("lastKey", (canonicalBytes (records.getLastD noRecord).key.json).length),
      ("records", (records.map fun record ↦ (canonicalBytes record.json).length).sum + 2
        + (records.length - 1)),
      ("schema", stringSize callableQueryShardSchema),
      ("sequence", (Nat.toDigits 10 sequence.toNat).length)] := by
  have hsort : (queryShard bindingDigest sequence (records.headD noRecord)
      (records.getLastD noRecord) records).json.sortValue = .obj [
      ("bindingDigest", .str bindingDigest),
      ("firstKey", (records.headD noRecord).key.json.sortValue),
      ("lastKey", (records.getLastD noRecord).key.json.sortValue),
      ("records", sortValue (.arr (records.map (·.json)))),
      ("schema", .str callableQueryShardSchema), ("sequence", .num sequence.toNat)] := by
    simp +decide only [CallableQueryShard.json, sortValue, sortMembers, ofMembers, insertMember,
      List.foldl, if_true, if_false, queryShard]
  have hsafe : ∀ name ∈ ["bindingDigest", "firstKey", "lastKey", "records", "schema", "sequence"],
      literalSafe name = true := by decide
  rw [queryDocument, length_canonicalBytes, hsort, size_obj_of_literalSafe (by simpa using hsafe)]
  simp only [map_cons, map_nil, size_sortValue_arr, size_str, size_natCast, map_map,
    length_map, Function.comp_def, length_canonicalBytes]

variable [Sha256] (bindingDigest : String) (budgets : CallableBudgets)

theorem measured_queryProfile : Measured (queryProfile bindingDigest budgets) budgets.maxShardBytes
    (fun sequence records ↦ (queryDocument bindingDigest sequence records).length)
    (fun _ ↦ literalSafe bindingDigest = true) where
  rows_le sequence records := by
    rw [length_queryDocument]
    simp only [closedLen, map_cons, sum_cons, queryProfile]
    omega
  shardLen sequence records first last hfirst hlast := by
    have hfirstKey : records.headD noRecord = first := by simp [headD_eq_head?_getD, hfirst]
    have hlastKey : records.getLastD noRecord = last := by
      rw [getLastD_eq_getLast?, hlast, Option.getD_some]
    have hnames : ∀ name ∈ ["bindingDigest", "firstKey", "lastKey", "records", "schema",
        "sequence"], literalSafe name = true := by decide
    have hschema : literalSafe callableQueryShardSchema = true := by decide
    rw [length_queryDocument, hfirstKey, hlastKey]
    refine .bind (outcome_headerText (le_closedLen "bindingDigest" (by simp)) fun h ↦
      ⟨first, mem_of_mem_head? hfirst, Bool.eq_false_iff.mp h⟩) ?_
    rintro _ rfl
    refine .bind ((outcome_encodedArrayLen _ _).mono (fun _ h ↦ h) fun e he ↦
      .inl (he.mono (le_closedLen "records" (by simp [queryProfile])))) ?_
    rintro _ rfl
    refine .bind (outcome_headerText (le_closedLen "schema" (by simp)) fun h ↦ ?_) ?_
    · rw [hschema] at h
      cases h
    rintro _ rfl
    exact (outcome_encodedClosedObjectLen (by simpa using hnames)).mono (fun _ h ↦ h) fun e he ↦
      .inl he
  publish sequence records hne hle := by
    have hschema : validateObjectSchema callableQueryShardSchema = .ok () := by decide
    refine ⟨_, bind_eq_ok_iff.mpr ⟨_, callableQueryShard_eq hne, ensure_bind_eq_ok_iff.mpr ⟨hle,
      bind_eq_ok_iff.mpr ⟨_, CasObject.forBytes_eq_ok_iff.mpr ⟨hschema, rfl⟩, rfl⟩⟩⟩⟩

theorem bytes_of_publishPreparedQueryShard {sequence : UInt32}
    {shard : PreparedCasObject × CallableQueryShardReference}
    (h : publishPreparedQueryShard bindingDigest budgets sequence records = .ok shard) :
    shard.1.bytes = queryDocument bindingDigest sequence records := by
  obtain ⟨document, hdocument, h⟩ := bind_eq_ok_iff.mp h
  obtain ⟨-, h⟩ := ensure_bind_eq_ok_iff.mp h
  obtain ⟨object, -, h⟩ := bind_eq_ok_iff.mp h
  have hne : records ≠ [] := by
    rintro rfl
    cases hdocument
  rw [callableQueryShard_eq hne] at hdocument
  rw [← Except.ok.inj h, ← Except.ok.inj hdocument]
  rfl

end Records

/-- Facts and records are cut into shards greedily, and the lengths that decide where are those of
the documents. What can prevent it is a row too long for any shard, a text of the headers that is
not safe, numbers that do not suffice, and for records that there are none. -/
theorem buildShards_exact [Sha256] (budgets : CallableBudgets) (facts : List CallableFact)
    (bindingDigest : String) (records : List CallableIndexRecord) :
    Outcome (fun out ↦ Shards (factProfile budgets) factDocument budgets.maxShardBytes facts out.1)
      (Refused (factProfile budgets) budgets.maxShardBytes
        (fun sequence part ↦ (factDocument sequence part).length)
        (fun fact ↦ literalSafe fact.factId = true) facts)
      (buildFactShards facts budgets) ∧
    Outcome (fun out ↦ Shards (queryProfile bindingDigest budgets) (queryDocument bindingDigest)
        budgets.maxShardBytes records out.1)
      (fun e ↦ (records = [] ∧ e = invalid "callable query index has no records") ∨
        Refused (queryProfile bindingDigest budgets) budgets.maxShardBytes
          (fun sequence part ↦ (queryDocument bindingDigest sequence part).length)
          (fun _ ↦ literalSafe bindingDigest = true) records e)
      (buildQueryShards bindingDigest records budgets) := by
  constructor
  · exact outcome_shards (measured_factProfile budgets)
      (fun _ _ _ h ↦ bytes_of_publishPreparedFactShard budgets h) facts
  · refine .bind (.ensure fun hnone ↦ .inl ⟨not_not.mp hnone, rfl⟩) fun _ _ ↦ ?_
    refine (outcome_shards (measured_queryProfile bindingDigest budgets)
      (fun _ _ _ h ↦ bytes_of_publishPreparedQueryShard bindingDigest budgets h) records).mono
      (fun _ h ↦ h) fun _ h ↦ .inr h

/-- No row is too long here: an index without records is refused, and so is a fact whose id would be
escaped in a header. -/
theorem buildShards_refused :
    @buildQueryShards Sha256.standard "d" [] ⟨8 * 1024 * 1024⟩
      = .error (invalid "callable query index has no records") ∧
    @buildFactShards Sha256.standard [⟨"\\", .obj [("factId", .str "\\")]⟩] ⟨8 * 1024 * 1024⟩
      = .error (invalid "canonical shard header contains a non-literal-safe identity") :=
  ⟨rfl, rfl⟩

end Codeclew.Callables
