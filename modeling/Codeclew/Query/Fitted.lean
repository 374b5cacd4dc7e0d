import Codeclew.Json.Size
import Codeclew.Outcome
import Codeclew.Query.Packed

/-!
# Packing keeps to the limit

The length a shard will have is computed from the lengths of its parts before it is made, and it is
the length of the document that is made. So every shard of a bucket is within the limit. Joining the
chunks of each term again gives back the postings.

Packing fails when a fact alone is longer than the limit, and otherwise only when the numbers of the
code do not suffice: sequence numbers have 32 bits, so there can be no shard after the last of
them, and lengths have 64 bits.
-/

namespace Codeclew.Query

open Json Cas List

/-! ## Lengths -/

/-- The lengths of the postings together. -/
def postingsBytes (postings : List TermPosting) : ℕ :=
  (postings.map fun posting ↦ (encode posting).length).sum

theorem postingsBytes_append (ps qs : List TermPosting) :
    postingsBytes (ps ++ qs) = postingsBytes ps + postingsBytes qs := by
  simp [postingsBytes]

theorem length_encode_posting (term : String) (facts : List FactHit) :
    (encode (⟨term, facts⟩ : TermPosting)).length = (encode (⟨term, []⟩ : TermPosting)).length
      + (facts.map fun fact ↦ (encode fact).length).sum + (facts.length - 1) := by
  rw [encode, encode, length_bytes, length_bytes]
  exact size_obj_list [] [("term", toJson term)] "facts" facts

theorem length_encode_shard (bucket : String) (sequence : UInt32) (postings : List TermPosting) :
    (encode (shard bucket sequence postings)).length =
      (encode { shard bucket sequence postings with postings := [] }).length
        + postingsBytes postings + (postings.length - 1) := by
  rw [encode, encode, length_bytes, length_bytes]
  exact size_obj_list [("bucket", _), ("firstTerm", _), ("lastTerm", _)]
    [("schema", _), ("sequence", _)]
    "postings" postings

/-- The length of the document of a shard, if it is a number of the code. -/
def checkedLen (shard : QueryShard) : Except ClewError ℕ := do
  ensure ((encode shard).length ≤ usizeMax) (invalid "query shard size overflow")
  return (encode shard).length

/-- The length that is computed for a shard is that of its document. -/
theorem encodedQueryShardLen_shard (bucket : String) (sequence : UInt32)
    (postings : List TermPosting) :
    encodedQueryShardLen bucket sequence (shard bucket sequence postings).firstTerm
        (shard bucket sequence postings).lastTerm (postingsBytes postings) postings.length
      = checkedLen (shard bucket sequence postings) := by
  rw [encodedQueryShardLen, checkedLen, length_encode_shard]
  rfl

theorem chunkLen_eq (bucket : String) (sequence : UInt32) (term : String) (facts : List FactHit) :
    chunkLen bucket sequence term facts = checkedLen (shard bucket sequence [⟨term, facts⟩]) := by
  rw [← encodedQueryShardLen_shard, chunkLen, ← length_encode_posting]
  rfl

/-! ## Refusals -/

/-- What is measured: postings of the input in a row, or facts of one of them in a row. -/
inductive Part (postings : List TermPosting) : List TermPosting → Prop
  | row {part : List TermPosting} : part <:+: postings → Part postings part
  | chunk {posting : TermPosting} {facts : List FactHit} : posting ∈ postings →
      facts <:+: posting.facts → Part postings [⟨posting.term, facts⟩]

/-- Why packing these postings fails. A shard has at least one row, so that a sequence number is at
most the number of rows before. -/
inductive Refused (bucket : String) (limit : ℕ) (postings : List TermPosting) : ClewError → Prop
  | fact (before after : List (String × FactHit)) (row : String × FactHit) (sequence : UInt32) :
      rows postings = before ++ row :: after → sequence.toNat ≤ before.length →
      limit < (encode (shard bucket sequence [⟨row.1, [row.2]⟩])).length →
      Refused bucket limit postings
        ⟨.resourceLimit, "one query fact reference exceeds the shard limit"⟩
  | sequence : 2 ^ 32 ≤ (rows postings).length →
      Refused bucket limit postings (invalid "query shard sequence overflow")
  | size (part : List TermPosting) (sequence : UInt32) : Part postings part →
      sequence.toNat ≤ (rows postings).length →
      usizeMax < (encode (shard bucket sequence part)).length →
      Refused bucket limit postings (invalid "query shard size overflow")
  | posting (posting : TermPosting) : posting ∈ postings → usizeMax < (encode posting).length →
      Refused bucket limit postings (invalid "query posting size overflow")

theorem Part.append {postings part : List TermPosting} (h : Part postings part)
    (rest : List TermPosting) : Part (postings ++ rest) part := by
  cases h with
  | row hpart => exact .row (hpart.trans (prefix_append _ _).isInfix)
  | chunk hposting hfacts => exact .chunk (mem_append_left _ hposting) hfacts

theorem Refused.append {bucket : String} {limit : ℕ} {postings : List TermPosting} {e : ClewError}
    (h : Refused bucket limit postings e) (rest : List TermPosting) :
    Refused bucket limit (postings ++ rest) e := by
  have hle : (rows postings).length ≤ (rows (postings ++ rest)).length := by
    rw [rows_append, length_append]
    exact Nat.le_add_right _ _
  cases h with
  | fact before after row sequence hrows hnumber hlong =>
    refine .fact before (after ++ rows rest) row sequence ?_ hnumber hlong
    rw [rows_append, hrows, append_assoc, cons_append]
  | sequence hmany => exact .sequence (hmany.trans hle)
  | size part sequence hpart hnumber hlong =>
    exact .size part sequence (hpart.append rest) (hnumber.trans hle) hlong
  | posting posting hposting hlong => exact .posting posting (mem_append_left _ hposting) hlong

section Steps

variable {bucket : String} {limit : ℕ} {postings : List TermPosting} {sequence : UInt32}

theorem outcome_checkedLen {part : List TermPosting} (hpart : Part postings part)
    (hnumber : sequence.toNat ≤ (rows postings).length) :
    Outcome (fun size ↦ size = (encode (shard bucket sequence part)).length)
      (Refused bucket limit postings) (checkedLen (shard bucket sequence part)) := by
  refine .bind (.ensure fun hlong ↦ ?_) fun _ _ ↦ .pure rfl
  exact .size part sequence hpart hnumber (Nat.lt_of_not_le hlong)

theorem outcome_nextSequence (hmany : sequence.toNat < (rows postings).length) :
    Outcome (fun next ↦ next.toNat = sequence.toNat + 1) (Refused bucket limit postings)
      (nextSequence sequence) := by
  refine .bind (.ensure fun hlast ↦ ?_) fun _ hlt ↦ .pure ?_
  · exact .sequence (by omega)
  · rw [UInt32.toNat_add]
    exact Nat.mod_eq_of_lt hlt

/-- The search for the number of facts that fit ends with such a number, or with 0 after it has seen
that one does not fit. -/
theorem outcome_searchFitting {size : ℕ → Except ClewError ℕ} {length : ℕ → ℕ}
    {R : ClewError → Prop} {total fuel low high fitting : ℕ}
    (hsize : ∀ n ≤ total, Outcome (· = length n) R (size n)) (hfuel : high + 1 ≤ low + fuel)
    (hhigh : high ≤ total) (hlow : 1 ≤ low) (hfitting : fitting ≤ total)
    (hfits : fitting ≠ 0 → length fitting ≤ limit)
    (hnone : fitting = 0 → low = 1 ∧ (high < total → limit < length (high + 1))) :
    Outcome (fun fitting ↦ fitting ≤ total ∧ (fitting ≠ 0 → length fitting ≤ limit) ∧
      (fitting = 0 → 0 < total → limit < length 1)) R
      (searchFitting size limit fuel low high fitting) := by
  -- an empty range from 1 on ends at 0
  have hdone : ∀ {low high fitting}, high < low →
      (fitting = 0 → low = 1 ∧ (high < total → limit < length (high + 1))) →
      fitting = 0 → 0 < total → limit < length 1 := by
    intro low high fitting hlt hnone hzero htotal
    obtain ⟨rfl, hlong⟩ := hnone hzero
    obtain rfl := Nat.lt_one_iff.mp hlt
    exact hlong htotal
  induction fuel generalizing low high fitting with
  | zero => exact .pure ⟨hfitting, hfits, hdone (by omega) hnone⟩
  | succ fuel ih =>
    rw [searchFitting]
    split_ifs with hle
    · refine .bind (hsize _ (by omega)) fun bytes hbytes ↦ ?_
      subst hbytes
      split_ifs with hfit
      · exact ih (by omega) hhigh (by omega) (by omega) (fun _ ↦ hfit) (by omega)
      · refine ih (by omega) (by omega) hlow hfitting hfits fun hzero ↦
          ⟨(hnone hzero).1, fun _ ↦ ?_⟩
        rw [Nat.sub_add_cancel (by omega)]
        exact Nat.lt_of_not_le hfit
    · exact .pure ⟨hfitting, hfits, hdone (Nat.lt_of_not_le hle) hnone⟩

/-- Cutting the facts of a posting from some fact on, after at least as many rows as shards. -/
theorem outcome_splitFacts {posting : TermPosting} {facts : List FactHit}
    {before : List (String × FactHit)} (hposting : posting ∈ postings)
    (hsuffix : facts <:+ posting.facts)
    (hrows : rows postings = before ++ facts.map (posting.term, ·))
    (hbefore : sequence.toNat ≤ before.length) :
    Outcome (fun split ↦ Holds bucket limit sequence.toNat (facts.map (posting.term, ·)) split.1 ∧
        split.2.toNat = sequence.toNat + split.1.length)
      (Refused bucket limit postings) (splitFacts bucket posting.term limit sequence facts) := by
  induction sequence, facts using splitFacts.induct generalizing before with
  | case1 sequence =>
    rw [splitFacts, dif_pos rfl]
    exact .pure ⟨⟨nofun, nofun, rfl, rfl⟩, rfl⟩
  | case2 sequence facts hfacts ih =>
    rw [splitFacts, dif_neg hfacts]
    have hlength : 0 < facts.length := length_pos_iff.mpr hfacts
    have hmany : sequence.toNat < (rows postings).length := by
      rw [hrows, length_append, length_map]
      omega
    have hsize : ∀ n ≤ facts.length,
        Outcome (· = (encode (shard bucket sequence [⟨posting.term, facts.take n⟩])).length)
          (Refused bucket limit postings)
          (chunkLen bucket sequence posting.term (facts.take n)) := by
      intro n _
      rw [chunkLen_eq]
      have htaken : facts.take n <+: facts := take_prefix n facts
      exact outcome_checkedLen (.chunk hposting (htaken.isInfix.trans hsuffix.isInfix)) hmany.le
    refine .bind (outcome_searchFitting hsize (by omega) le_rfl le_rfl (Nat.zero_le _)
      (fun h ↦ absurd rfl h) fun _ ↦ ⟨rfl, fun h ↦ absurd h (lt_irrefl _)⟩) ?_
    rintro fitting ⟨hle, hfits, hnone⟩
    split
    · rename_i hzero
      obtain ⟨fact, rest, rfl⟩ := exists_cons_of_ne_nil hfacts
      exact .throw (.fact before _ (posting.term, fact) sequence hrows hbefore
        (hnone hzero hlength))
    · -- the facts that fit are one shard, and the rest is cut after them
      rename_i hfitting
      refine .bind (outcome_nextSequence hmany) fun next hnext ↦ ?_
      have hbefore' :
          next.toNat ≤ (before ++ (facts.take fitting).map (posting.term, ·)).length := by
        rw [hnext, length_append, length_map, length_take_of_le hle]
        omega
      have hrows' : rows postings = before ++ (facts.take fitting).map (posting.term, ·) ++
          (facts.drop fitting).map (posting.term, ·) := by
        rw [append_assoc, ← map_append, take_append_drop, hrows]
      have hrest := ih fitting hfitting next ((drop_suffix fitting facts).trans hsuffix) hrows'
        hbefore'
      rw [hnext] at hrest
      refine hrest.bind fun split hsplit ↦ .pure ?_
      have hchunk : Holds bucket limit sequence.toNat (rows [⟨posting.term, facts.take fitting⟩])
          [shard bucket sequence [⟨posting.term, facts.take fitting⟩]] :=
        holds_shard (cons_ne_nil _ _)
          ⟨pairwise_singleton _ _, by simp [hfitting, hfacts]⟩ (hfits hfitting)
      have hall := hchunk.append hsplit.1
      rw [rows_singleton, ← map_append, take_append_drop] at hall
      refine ⟨hall, ?_⟩
      rw [hsplit.2, length_cons]
      omega

end Steps

/-! ## The loop -/

/-- What is being packed is within the limit, and its length is known. -/
structure Fits (bucket : String) (limit : ℕ) (packing : Packing) : Prop where
  bytes : packing.currentBytes = postingsBytes packing.current
  current : packing.current ≠ [] →
    (encode (shard bucket packing.sequence packing.current)).length ≤ limit
  shards : ∀ shard ∈ packing.shards, (encode shard).length ≤ limit

/-- The invariant of the loop. -/
structure Packs (bucket : String) (limit : ℕ) (seen : List TermPosting) (packing : Packing) : Prop
    extends Packed bucket seen packing, Fits bucket limit packing

section Loop

variable {bucket : String} {limit : ℕ} {seen : List TermPosting} {packing : Packing}
  {posting : TermPosting}

theorem Postings.length_le {postings : List TermPosting} (h : Postings postings) :
    postings.length ≤ (rows postings).length := by
  rw [length_rows, ← length_map (·.facts.length)]
  refine length_le_sum_of_one_le _ fun n hn ↦ ?_
  obtain ⟨posting, hposting, rfl⟩ := mem_map.mp hn
  exact length_pos_iff.mpr (h.facts posting hposting)

/-- Every shard has a row. -/
theorem length_le_length_shardRows {shards : List QueryShard}
    (h : ∀ shard ∈ shards, Shaped bucket shard) : shards.length ≤ (shardRows shards).length := by
  rw [shardRows, length_flatMap, ← length_map fun shard : QueryShard ↦
    (rows shard.postings).length]
  refine length_le_sum_of_one_le _ fun n hn ↦ ?_
  obtain ⟨shard, hshard, rfl⟩ := mem_map.mp hn
  have hne : 0 < shard.postings.length := length_pos_iff.mpr (h shard hshard).postings_ne_nil
  exact hne.trans_le (h shard hshard).postings.length_le

/-- There are no more shards than rows, and fewer while one is being filled. -/
theorem Packed.sequence_add_le (h : Packed bucket seen packing) (hseen : Postings seen) :
    packing.sequence.toNat + packing.current.length ≤ (Query.rows seen).length := by
  obtain ⟨finished, hfinished, hrows⟩ := h.rows
  have hshards := length_le_length_shardRows h.shaped
  have hcurrent := (h.postings_current hseen).length_le
  rw [hfinished, rows_append, length_append, ← hrows, h.sequence]
  omega

theorem Packs.sequence_le (h : Packs bucket limit seen packing) (hseen : Postings seen) :
    packing.sequence.toNat ≤ (Query.rows (seen ++ [posting])).length := by
  have := h.sequence_add_le hseen
  rw [rows_append, length_append]
  omega

section

variable (h : Packs bucket limit seen packing)
include h

/-- The shards, with the one that is being filled. -/
theorem Packs.holds (hseen : Postings seen) (hcurrent : packing.current ≠ []) :
    Holds bucket limit 0 (rows seen)
      (packing.shards ++ [shard bucket packing.sequence packing.current]) := by
  obtain ⟨finished, hfinished, hrows⟩ := h.rows
  rw [hfinished, rows_append]
  refine Holds.append ⟨h.shaped, h.shards, hrows, h.numbered⟩ ?_
  rw [zero_add, ← h.sequence]
  exact holds_shard hcurrent (h.postings_current hseen) (h.current hcurrent)

theorem outcome_flush (hseen : Postings seen) (hcurrent : packing.current ≠ []) :
    Outcome (fun packing ↦ Packs bucket limit seen packing ∧ packing.current = [])
      (Refused bucket limit seen) (packing.flush bucket) := by
  have hholds := h.holds hseen hcurrent
  have hpos : 0 < packing.current.length := length_pos_iff.mpr hcurrent
  have hmany : packing.sequence.toNat < (rows seen).length := by
    have := h.sequence_add_le hseen
    omega
  refine .bind (outcome_nextSequence hmany) fun next hnext ↦ .pure ⟨{
    shaped := hholds.shaped
    rows := ⟨seen, (append_nil _).symm, hholds.rows_eq⟩
    numbered := hholds.numbered
    sequence := ?_
    bytes := rfl
    current := fun hne ↦ absurd rfl hne
    shards := hholds.within }, rfl⟩
  rw [hnext, h.sequence, length_append, length_singleton]

theorem outcome_settle (hseen : Postings seen) :
    Outcome (fun packing ↦ Packs bucket limit seen packing ∧ packing.current = [])
      (Refused bucket limit seen) (packing.settle bucket) := by
  rw [Packing.settle]
  split_ifs with hcurrent
  · exact .pure ⟨h, hcurrent⟩
  · exact outcome_flush h hseen hcurrent

theorem outcome_split (hseen : Postings seen) (hcurrent : packing.current = []) :
    Outcome (Packs bucket limit (seen ++ [posting])) (Refused bucket limit (seen ++ [posting]))
      (packing.split bucket limit posting) := by
  have hmem : posting ∈ seen ++ [posting] := mem_append_right _ (mem_singleton_self posting)
  have hbefore : packing.sequence.toNat ≤ (rows seen).length :=
    (Nat.le_add_right _ _).trans (h.sequence_add_le hseen)
  have hsplit : Outcome (fun split ↦
        Holds bucket limit packing.sequence.toNat (rows [posting]) split.1 ∧
          split.2.toNat = packing.sequence.toNat + split.1.length)
      (Refused bucket limit (seen ++ [posting]))
      (buildSplitPosting bucket packing.sequence posting limit) := by
    refine .bind (.ensure fun hlong ↦ .posting posting hmem ?_) fun _ _ ↦ ?_
    · have hposting : (encode posting).length = (encode (⟨posting.term, []⟩ : TermPosting)).length
          + (posting.facts.map fun fact ↦ (encode fact).length).sum
          + (posting.facts.length - 1) :=
        length_encode_posting posting.term posting.facts
      omega
    · rw [rows_singleton]
      exact outcome_splitFacts hmem suffix_rfl (by rw [rows_append, rows_singleton]) hbefore
  refine hsplit.bind fun split hsplit ↦ .pure ?_
  obtain ⟨finished, hfinished, hrows⟩ := h.rows
  obtain ⟨hholds, hnext⟩ := hsplit
  rw [hcurrent, append_nil] at hfinished
  rw [h.sequence, ← zero_add packing.shards.length] at hholds
  have hall := Holds.append ⟨h.shaped, h.shards, hrows, h.numbered⟩ hholds
  rw [← rows_append, ← hfinished] at hall
  exact {
    shaped := hall.shaped
    rows := ⟨seen ++ [posting], by simp [hcurrent], hall.rows_eq⟩
    numbered := hall.numbered
    sequence := by rw [hnext, h.sequence, length_append]
    bytes := h.bytes
    current := fun hne ↦ absurd hcurrent hne
    shards := hall.within }

/-- The posting fits into what is being packed. -/
def Room (bucket : String) (limit : ℕ) (posting : TermPosting) (packing : Packing) : Prop :=
  (encode (shard bucket packing.sequence (packing.current ++ [posting]))).length ≤ limit

theorem Packs.push (hroom : Room bucket limit posting packing) :
    Packs bucket limit (seen ++ [posting]) (packing.push posting) := by
  obtain ⟨finished, rfl, hrows⟩ := h.rows
  refine { h with
    rows := ⟨finished, append_assoc _ _ _, hrows⟩
    bytes := ?_
    current := fun _ ↦ hroom }
  change packing.currentBytes + (encode posting).length =
    postingsBytes (packing.current ++ [posting])
  rw [postingsBytes_append, h.bytes]
  simp [postingsBytes]

theorem outcome_makeRoom (hseen : Postings seen) :
    Outcome (fun packing ↦ Packs bucket limit seen packing ∧
        (packing.current ≠ [] → Room bucket limit posting packing))
      (Refused bucket limit (seen ++ [posting])) (packing.makeRoom bucket limit posting) := by
  rw [Packing.makeRoom]
  split
  · rename_i hcurrent
    exact .pure ⟨h, fun hne ↦ absurd hcurrent hne⟩
  · rename_i first others hcurrent
    have hlen : encodedQueryShardLen bucket packing.sequence first.term posting.term
        (packing.currentBytes + (encode posting).length) (packing.current.length + 1)
        = checkedLen (shard bucket packing.sequence (packing.current ++ [posting])) := by
      have hfirst : (shard bucket packing.sequence (packing.current ++ [posting])).firstTerm
          = first.term := by simp [shard, hcurrent]
      have hlast : (shard bucket packing.sequence (packing.current ++ [posting])).lastTerm
          = posting.term := by simp [shard]
      rw [← encodedQueryShardLen_shard, hfirst, hlast, postingsBytes_append, h.bytes]
      simp [postingsBytes]
    have hpart : Part (seen ++ [posting]) (packing.current ++ [posting]) := by
      obtain ⟨finished, rfl, -⟩ := h.rows
      rw [append_assoc]
      exact .row (suffix_append _ _).isInfix
    rw [hlen]
    refine .bind (outcome_checkedLen hpart (h.sequence_le hseen)) fun size hsize ↦ ?_
    split_ifs with hlong
    · refine (outcome_flush h hseen (by simp [hcurrent])).mono (fun packing' hempty ↦ ?_)
        fun e he ↦ he.append [posting]
      exact ⟨hempty.1, fun hne ↦ absurd hempty.2 hne⟩
    · refine .pure ⟨h, fun _ ↦ ?_⟩
      rw [Room, ← hsize]
      exact Nat.le_of_not_lt hlong

end

theorem aloneLen_eq (packing : Packing) (posting : TermPosting) :
    packing.aloneLen bucket posting = checkedLen (shard bucket packing.sequence [posting]) := by
  rw [Packing.aloneLen, ← encodedQueryShardLen_shard]
  simp [shard, postingsBytes]

theorem outcome_aloneLen (h : Packs bucket limit seen packing) (hseen : Postings seen) :
    Outcome (fun size ↦ size = (encode (shard bucket packing.sequence [posting])).length)
      (Refused bucket limit (seen ++ [posting])) (packing.aloneLen bucket posting) := by
  rw [aloneLen_eq]
  exact outcome_checkedLen (.row (suffix_append _ _).isInfix) (h.sequence_le hseen)

theorem outcome_add (h : Packs bucket limit seen packing) (hseen : Postings seen) :
    Outcome (Packs bucket limit (seen ++ [posting])) (Refused bucket limit (seen ++ [posting]))
      (packing.add bucket limit posting) := by
  refine .bind (outcome_aloneLen h hseen) fun alone _ ↦ ?_
  split_ifs
  · refine ((outcome_settle h hseen).mono (fun _ h ↦ h) fun e he ↦ he.append [posting]).bind ?_
    exact fun settled hsettled ↦ outcome_split hsettled.1 hseen hsettled.2
  · refine (outcome_makeRoom h hseen).bind fun room hroom ↦ ?_
    obtain ⟨hpacks, hfit⟩ := hroom
    split_ifs with hcurrent
    · refine .bind (outcome_aloneLen hpacks hseen) fun alone halone ↦ ?_
      split_ifs with hlong
      · exact outcome_split hpacks hseen hcurrent
      · refine .pure (hpacks.push ?_)
        rw [Room, hcurrent, nil_append, ← halone]
        exact Nat.le_of_not_lt hlong
    · exact .pure (hpacks.push (hfit hcurrent))

end Loop

/-! ## Chunks -/

/-- Put a posting before others, joined with the first of them if that has the same term. -/
def attach (posting : TermPosting) : List TermPosting → List TermPosting
  | [] => [posting]
  | next :: rest =>
    if posting.term = next.term then ⟨posting.term, posting.facts ++ next.facts⟩ :: rest
    else posting :: next :: rest

/-- Join neighbours that have the same term. -/
def joinChunks (postings : List TermPosting) : List TermPosting := postings.foldr attach []

/-- The postings of rows, each as long as the term stays the same. -/
def regroup (rows : List (String × FactHit)) : List TermPosting :=
  rows.foldr (fun row ↦ attach ⟨row.1, [row.2]⟩) []

theorem attach_attach (term : String) (facts facts' : List FactHit) (rest : List TermPosting) :
    attach ⟨term, facts⟩ (attach ⟨term, facts'⟩ rest) = attach ⟨term, facts ++ facts'⟩ rest := by
  cases rest with
  | nil => simp [attach]
  | cons next rest =>
    by_cases h : term = next.term
    · simp [attach, h]
    · simp [attach, h]

theorem foldr_attach_facts (term : String) {facts : List FactHit} (hfacts : facts ≠ [])
    (rest : List TermPosting) :
    (facts.map (term, ·)).foldr (fun row ↦ attach ⟨row.1, [row.2]⟩) rest
      = attach ⟨term, facts⟩ rest := by
  induction facts with
  | nil => exact absurd rfl hfacts
  | cons fact facts ih =>
    rw [map_cons, foldr_cons]
    cases facts with
    | nil => rfl
    | cons next facts =>
      rw [ih (cons_ne_nil _ _), attach_attach]
      rfl

variable {postings : List TermPosting}

/-- The chunks are joined as their rows are. -/
theorem joinChunks_eq_regroup (h : ∀ posting ∈ postings, posting.facts ≠ []) :
    joinChunks postings = regroup (rows postings) := by
  induction postings with
  | nil => rfl
  | cons posting postings ih =>
    obtain ⟨hposting, hrest⟩ := forall_mem_cons.mp h
    rw [← singleton_append, rows_append, rows_singleton, regroup, foldr_append,
      foldr_attach_facts posting.term hposting]
    exact congrArg (attach posting) (ih hrest)

theorem joinChunks_of_postings (h : Postings postings) :
    joinChunks postings = postings := by
  induction postings with
  | nil => rfl
  | cons posting postings ih =>
    obtain ⟨hfirst, -⟩ := pairwise_cons.mp h.ascending
    have hrest : joinChunks (posting :: postings) = attach posting postings :=
      congrArg (attach posting) (ih (h.sublist (sublist_cons_self _ _)))
    rw [hrest]
    cases postings with
    | nil => rfl
    | cons next rest => exact if_neg (hfirst next mem_cons_self).ne

/-- The shards of a bucket, with chunks of one term joined, are the postings. -/
theorem joinChunks_of_shardRows {bucket : String} {shards : List QueryShard}
    (hpostings : Postings postings) (hshaped : ∀ shard ∈ shards, Shaped bucket shard)
    (hrows : shardRows shards = rows postings) :
    joinChunks (shards.flatMap (·.postings)) = postings := by
  have hfacts : ∀ posting ∈ shards.flatMap (·.postings), posting.facts ≠ [] := by
    intro posting hposting
    obtain ⟨shard, hshard, hmem⟩ := mem_flatMap.mp hposting
    exact (hshaped shard hshard).postings.facts posting hmem
  have hflat : rows (shards.flatMap (·.postings)) = shardRows shards := by
    rw [rows, shardRows, flatMap_assoc]
    rfl
  rw [joinChunks_eq_regroup hfacts, hflat, hrows, ← joinChunks_eq_regroup hpostings.facts,
    joinChunks_of_postings hpostings]

/-- Packing fails for a reason, or the shards are numbered, are within the limit and have the
postings, with chunks of one term joined. The lengths that are computed are those of the
documents. -/
theorem buildBucketWithLimit_exact (bucket : String) (limit : ℕ) {postings : List TermPosting}
    (hpostings : Postings postings) :
    Outcome (fun shards ↦ Numbered 0 shards ∧ (∀ shard ∈ shards, (encode shard).length ≤ limit) ∧
        joinChunks (shards.flatMap (·.postings)) = postings)
      (Refused bucket limit postings) (buildBucketWithLimit bucket postings limit) ∧
    (∀ sequence part, encodedQueryShardLen bucket sequence (shard bucket sequence part).firstTerm
        (shard bucket sequence part).lastTerm (postingsBytes part) part.length
      = checkedLen (shard bucket sequence part)) ∧
    (∀ sequence term facts, chunkLen bucket sequence term facts
      = checkedLen (shard bucket sequence [⟨term, facts⟩])) := by
  refine ⟨?_, encodedQueryShardLen_shard bucket, chunkLen_eq bucket⟩
  have hfold : Outcome (Packs bucket limit postings) (Refused bucket limit postings)
      (postings.foldlM (Packing.add bucket limit) .empty) := by
    refine .foldlM (I := Packs bucket limit) (fun seen posting rest packing heq h ↦ ?_)
      ⟨⟨nofun, ⟨[], rfl, rfl⟩, rfl, rfl⟩, rfl, fun hne ↦ absurd rfl hne, nofun⟩
    have hseen : Postings seen := hpostings.sublist (heq ▸ sublist_append_left _ _)
    have hsplit : postings = (seen ++ [posting]) ++ rest := by simpa using heq
    rw [hsplit]
    exact (outcome_add h hseen).mono (fun _ h ↦ h) fun e he ↦ he.append rest
  have hholds : Outcome (Holds bucket limit 0 (rows postings)) (Refused bucket limit postings)
      (buildBucketWithLimit bucket postings limit) := by
    refine hfold.bind fun packing h ↦ ?_
    split_ifs with hcurrent
    · obtain ⟨finished, hfinished, hrows⟩ := h.rows
      rw [hfinished, hcurrent, append_nil]
      exact .pure ⟨h.shaped, h.shards, hrows, h.numbered⟩
    · exact .pure (h.holds hpostings hcurrent)
  refine hholds.mono (fun shards h ↦ ?_) fun _ he ↦ he
  exact ⟨h.numbered, h.within, joinChunks_of_shardRows hpostings h.shaped h.rows_eq⟩

/-! ## Sequence numbers run out -/

section Overflow

def plainHit : FactHit := ⟨"a", Generation.analysisFacts, ⟨"00", "text", casObjectSchema, 0⟩⟩

def digits (sequence : UInt32) : ℕ := (Nat.toDigits 10 sequence.toNat).length

theorem digits_le (sequence : UInt32) : digits sequence ≤ 10 :=
  Nat.toDigits_length 10 _ 10 (by norm_num) (sequence.toNat_lt.trans (by norm_num))

/-- A shard with the same fact many times. -/
theorem length_encode_repeated (sequence : UInt32) (n : ℕ) :
    (encode (shard "00" sequence [⟨"a", List.replicate n plainHit⟩])).length
      = 131 + digits sequence + n * 136 + (n - 1) := by
  have hhit : (encode plainHit).length = 136 := by decide +kernel
  have hterm : (encode (⟨"a", []⟩ : TermPosting)).length = 23 := by decide
  have hheader : (encode { shard "00" sequence [⟨"a", List.replicate n plainHit⟩] with
      postings := [] }).length = 108 + digits sequence := by
    have hsequence : (toJson sequence).size = digits sequence := size_natCast _
    have htexts : (toJson "00").size = 4 ∧ (toJson "a").size = 3 ∧
        (toJson queryShardSchema).size = 26 ∧ (toJson ([] : List TermPosting)).size = 2 := by
      decide
    have hnames : stringSize "bucket" = 8 ∧ stringSize "firstTerm" = 11 ∧
        stringSize "lastTerm" = 10 ∧ stringSize "postings" = 10 ∧ stringSize "schema" = 8 ∧
        stringSize "sequence" = 10 := by
      decide
    obtain ⟨hbucket, ha, hschema, hnone⟩ := htexts
    obtain ⟨h₁, h₂, h₃, h₄, h₅, h₆⟩ := hnames
    rw [encode, length_bytes]
    change (Json.obj [("bucket", toJson "00"), ("firstTerm", toJson "a"), ("lastTerm", toJson "a"),
      ("postings", toJson ([] : List TermPosting)), ("schema", toJson queryShardSchema),
      ("sequence", toJson sequence)]).size = _
    rw [size_obj]
    simp only [map_cons, map_nil, sum_cons, sum_nil, length_cons,
      length_nil, hbucket, ha, hschema, hnone, hsequence, h₁, h₂, h₃, h₄, h₅, h₆]
    omega
  rw [length_encode_shard, hheader, postingsBytes]
  simp only [map_cons, map_nil, sum_cons, sum_nil, length_cons,
    length_nil, length_encode_posting "a" (List.replicate n plainHit), hterm,
    map_replicate, sum_replicate, length_replicate, hhit, smul_eq_mul]
  omega

/-- As long as there are no more than 2 ^ 32 of them, one fact is taken at a time. -/
theorem searchFitting_repeated (sequence : UInt32) {n : ℕ} (hpos : 0 < n) (hle : n ≤ 2 ^ 32) :
    searchFitting (fun count ↦ chunkLen "00" sequence "a" ((List.replicate n plainHit).take count))
      277 n 1 n 0 = .ok 1 := by
  have hdigits := digits_le sequence
  have hsize : ∀ count ≤ n, Outcome (· = 131 + digits sequence + count * 136 + (count - 1))
      (fun _ ↦ False) (chunkLen "00" sequence "a" ((List.replicate n plainHit).take count)) := by
    intro count hcount
    rw [take_replicate, Nat.min_eq_left hcount, chunkLen_eq, checkedLen,
      length_encode_repeated]
    refine .bind (.ensure fun hlong ↦ hlong ?_) fun _ _ ↦ .pure rfl
    rw [usizeMax]
    omega
  obtain ⟨fitting, hsearch, -, hfits, hnone⟩ := (outcome_searchFitting hsize
    (Nat.le_of_eq (Nat.add_comm n 1)) le_rfl le_rfl (Nat.zero_le n)
    (fun h ↦ absurd rfl h : 0 ≠ 0 → _ ≤ 277) fun _ ↦
      ⟨rfl, fun h ↦ absurd h (lt_irrefl _)⟩).exists_ok
  have hone : fitting = 1 := by
    by_cases hzero : fitting = 0
    · have := hnone hzero hpos
      omega
    · have := hfits hzero
      omega
  rw [hsearch, hone]

theorem splitFacts_repeated {sequence : UInt32} {n : ℕ} (hpos : 0 < n)
    (hlast : sequence.toNat + n = 2 ^ 32) :
    splitFacts "00" "a" 277 sequence (List.replicate n plainHit)
      = .error (invalid "query shard sequence overflow") := by
  induction n generalizing sequence with
  | zero => cases hpos
  | succ n ih =>
    have hne : List.replicate (n + 1) plainHit ≠ [] := cons_ne_nil _ _
    have hle : n + 1 ≤ 2 ^ 32 := hlast ▸ Nat.le_add_left _ _
    rw [splitFacts, dif_neg hne, length_replicate, searchFitting_repeated sequence hpos hle,
      ok_bind, dif_neg one_ne_zero]
    cases hnext : nextSequence sequence with
    | error e =>
      rw [nextSequence, ensure] at hnext
      split at hnext
      · cases hnext
      · rw [error_bind] at hnext
        rw [← hnext]
        rfl
    | ok next =>
      have hnumber := toNat_of_nextSequence hnext
      have hlt := next.toNat_lt
      have hrest : splitFacts "00" "a" 277 next (List.replicate n plainHit)
          = .error (invalid "query shard sequence overflow") := ih (by omega) (by omega)
      have hdrop : (List.replicate (n + 1) plainHit).drop 1 = List.replicate n plainHit := rfl
      rw [ok_bind, hdrop, hrest]
      rfl

/-- A posting that just fits into a shard. -/
theorem buildBucketWithLimit_exact_plain : ∃ shards,
    buildBucketWithLimit "00" [⟨"a", [plainHit]⟩] 277 = .ok shards ∧ Numbered 0 shards ∧
      (∀ shard ∈ shards, (encode shard).length ≤ 277) ∧
      joinChunks (shards.flatMap (·.postings)) = [⟨"a", [plainHit]⟩] := by
  have hpostings : Postings [⟨"a", [plainHit]⟩] := ⟨pairwise_singleton _ _, by simp⟩
  obtain ⟨shards, hshards, -⟩ : ∃ shards,
      buildBucketWithLimit "00" [⟨"a", [plainHit]⟩] 277 = .ok shards ∧ shards ≠ [] := by
    decide +kernel
  exact ⟨shards, hshards, (buildBucketWithLimit_exact "00" 277 hpostings).1.of_ok hshards⟩

/-- With 2 ^ 32 facts of which each has its own shard, packing fails although every one of them
fits. -/
theorem buildBucketWithLimit_overflow : ∃ postings limit, Postings postings ∧
    (∀ row ∈ rows postings, ∀ sequence,
      (encode (shard "00" sequence [⟨row.1, [row.2]⟩])).length ≤ limit) ∧
    buildBucketWithLimit "00" postings limit =
      .error (invalid "query shard sequence overflow") := by
  obtain ⟨n, hn⟩ : ∃ n, n = 2 ^ 32 := ⟨_, rfl⟩
  have hpos : 0 < n := hn ▸ Nat.two_pow_pos 32
  have hfacts : List.replicate n plainHit ≠ [] := by
    rw [Ne, replicate_eq_nil_iff]
    exact hpos.ne'
  refine ⟨[⟨"a", List.replicate n plainHit⟩], 277,
    ⟨pairwise_singleton _ _, forall_mem_singleton.mpr hfacts⟩, ?_, ?_⟩
  · intro row hrow sequence
    rw [rows_singleton] at hrow
    obtain ⟨fact, hfact, rfl⟩ := mem_map.mp hrow
    rw [eq_of_mem_replicate hfact]
    have hlength := length_encode_repeated sequence 1
    have hdigits := digits_le sequence
    rw [replicate_one] at hlength
    dsimp only
    omega
  · have halone : Packing.empty.aloneLen "00" ⟨"a", List.replicate n plainHit⟩
        = .ok (131 + digits 0 + n * 136 + (n - 1)) := by
      rw [aloneLen_eq, checkedLen, show Packing.empty.sequence = 0 from rfl, length_encode_repeated,
        ensure, if_pos]
      · rfl
      · have hdigits := digits_le 0
        rw [usizeMax]
        omega
    have hsplit : buildSplitPosting "00" 0 ⟨"a", List.replicate n plainHit⟩ 277
        = .error (invalid "query shard sequence overflow") := by
      have hhit : (encode plainHit).length = 136 := by decide +kernel
      have hzero : (0 : UInt32).toNat = 0 := rfl
      rw [buildSplitPosting, ensure, if_pos]
      · exact splitFacts_repeated hpos (by omega)
      · dsimp only
        rw [map_replicate, sum_replicate, hhit, smul_eq_mul, usizeMax]
        omega
    have hadd : Packing.empty.add "00" 277 ⟨"a", List.replicate n plainHit⟩
        = .error (invalid "query shard sequence overflow") := by
      have hsettle : Packing.empty.settle "00" = .ok .empty := rfl
      rw [Packing.add, halone, ok_bind, if_pos (by omega), hsettle, ok_bind, Packing.split,
        show Packing.empty.sequence = 0 from rfl, hsplit]
      rfl
    rw [buildBucketWithLimit, foldlM_cons, hadd]
    rfl

end Overflow

end Codeclew.Query
