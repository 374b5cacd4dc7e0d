import Codeclew.Query.Index

/-!
# Tables of postings

Read as a table, postings are rows of a term and a fact. Packing a bucket cuts the table into shards
without touching its rows: whatever the byte limit is, the shards have the rows of the postings, in
their order. A posting that is too large is cut between its facts, and nothing else is.

The invariant of the packing loop is that the rows of the finished shards are those of the postings
that came before the shard that is being filled. Shards are numbered as they are finished.
-/

namespace Codeclew.Query

open Json List

/-! ## Rows -/

/-- The table of a list of postings. -/
def rows (postings : List TermPosting) : List (String × FactHit) :=
  postings.flatMap fun posting ↦ posting.facts.map (posting.term, ·)

theorem rows_append (ps qs : List TermPosting) : rows (ps ++ qs) = rows ps ++ rows qs := by
  simp [rows]

theorem rows_singleton (posting : TermPosting) :
    rows [posting] = posting.facts.map (posting.term, ·) := by
  simp [rows]

theorem length_rows (postings : List TermPosting) :
    (rows postings).length = (postings.map (·.facts.length)).sum := by
  simp [rows, length_flatMap]

/-- The table of a list of shards. -/
def shardRows (shards : List QueryShard) : List (String × FactHit) :=
  shards.flatMap fun shard ↦ rows shard.postings

theorem shardRows_append (shards more : List QueryShard) :
    shardRows (shards ++ more) = shardRows shards ++ shardRows more := by
  simp [shardRows]

/-- Postings as packing gets them: in the order of their terms, none without facts. -/
structure Postings (postings : List TermPosting) : Prop where
  ascending : postings.Pairwise (·.term < ·.term)
  facts : ∀ posting ∈ postings, posting.facts ≠ []

theorem Postings.sublist {ps qs : List TermPosting} (h : Postings qs) (hsub : ps.Sublist qs) :
    Postings ps :=
  ⟨h.ascending.sublist hsub, fun posting hposting ↦ h.facts posting (hsub.subset hposting)⟩

/-- A shard that says what it holds. -/
structure Shaped (bucket : String) (shard : QueryShard) : Prop where
  schema : shard.schema = queryShardSchema
  bucket_eq : shard.bucket = bucket
  first : shard.postings.head?.map (·.term) = some shard.firstTerm
  last : shard.postings.getLast?.map (·.term) = some shard.lastTerm
  postings : Postings shard.postings

variable {postings : List TermPosting}

theorem shaped_shard {bucket : String} {sequence : UInt32} (hne : postings ≠ [])
    (h : Postings postings) :
    Shaped bucket (shard bucket sequence postings) where
  schema := rfl
  bucket_eq := rfl
  first := by
    obtain ⟨posting, rest, rfl⟩ := exists_cons_of_ne_nil hne
    rfl
  last := by
    simp [shard, List.getLast?_eq_some_getLast hne]
  postings := h

theorem Shaped.postings_ne_nil {bucket : String} {shard : QueryShard} (h : Shaped bucket shard) :
    shard.postings ≠ [] := by
  intro hnil
  simpa [hnil] using h.first

/-! ## Sequence numbers -/

theorem toNat_of_nextSequence {sequence next : UInt32} (h : nextSequence sequence = .ok next) :
    next.toNat = sequence.toNat + 1 := by
  obtain ⟨hlt, h⟩ := ensure_bind_eq_ok_iff.mp h
  rw [← Except.ok.inj h, UInt32.toNat_add]
  exact Nat.mod_eq_of_lt hlt

/-- Shards numbered from `start` on. -/
def Numbered (start : ℕ) (shards : List QueryShard) : Prop :=
  shards.map (·.sequence.toNat) = List.range' start shards.length

theorem Numbered.append {start : ℕ} {shards more : List QueryShard} (h : Numbered start shards)
    (hmore : Numbered (start + shards.length) more) : Numbered start (shards ++ more) := by
  rw [Numbered, map_append, h, hmore, length_append, List.range'_append_1]

/-! ## Shards -/

section Holds

variable {bucket : String} {limit start : ℕ} {shards shards' : List QueryShard}
  {table table' : List (String × FactHit)}

/-- Shards that are numbered from `start` on, are within the limit and have the rows of a table. -/
structure Holds (bucket : String) (limit start : ℕ) (table : List (String × FactHit))
    (shards : List QueryShard) : Prop where
  shaped : ∀ shard ∈ shards, Shaped bucket shard
  within : ∀ shard ∈ shards, (encode shard).length ≤ limit
  rows_eq : shardRows shards = table
  numbered : Numbered start shards

theorem Holds.append (h : Holds bucket limit start table shards)
    (h' : Holds bucket limit (start + shards.length) table' shards') :
    Holds bucket limit start (table ++ table') (shards ++ shards') where
  shaped := forall_mem_append.mpr ⟨h.shaped, h'.shaped⟩
  within := forall_mem_append.mpr ⟨h.within, h'.within⟩
  rows_eq := by rw [shardRows_append, h.rows_eq, h'.rows_eq]
  numbered := h.numbered.append h'.numbered

theorem holds_shard {sequence : UInt32} (hne : postings ≠ []) (hpostings : Postings postings)
    (hle : (encode (shard bucket sequence postings)).length ≤ limit) :
    Holds bucket limit sequence.toNat (rows postings) [shard bucket sequence postings] where
  shaped := forall_mem_singleton.mpr (shaped_shard hne hpostings)
  within := forall_mem_singleton.mpr hle
  rows_eq := append_nil _
  numbered := rfl

end Holds

/-! ## The loop -/

/-- The invariant of packing, after the postings in `seen`. -/
structure Packed (bucket : String) (seen : List TermPosting) (packing : Packing) : Prop where
  shaped : ∀ shard ∈ packing.shards, Shaped bucket shard
  rows : ∃ finished, seen = finished ++ packing.current ∧
    shardRows packing.shards = rows finished
  numbered : Numbered 0 packing.shards
  sequence : packing.sequence.toNat = packing.shards.length

theorem Packed.postings_current {bucket : String} {seen : List TermPosting} {packing : Packing}
    (h : Packed bucket seen packing) (hseen : Postings seen) : Postings packing.current := by
  obtain ⟨finished, rfl, -⟩ := h.rows
  exact hseen.sublist (sublist_append_right _ _)

end Codeclew.Query
