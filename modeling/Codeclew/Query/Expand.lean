import Codeclew.Query.Lookup

/-!
# Expanding a query

A context that a query returned can be expanded by more terms. The terms of the context are already
normalised; those of the request are normalised, both are merged, and the merged list is queried
again, unless it is what the context has.

Normalising what is normalised changes nothing as long as the lower case of a character is its own
lower case, so the second query looks the same terms up as a query of both requests would. It also
counts them again. The limit on the terms of a query is meant for texts of a request, each of which
may hold many words, and is now applied to words (`expand_eq_query_iff`).
-/

namespace Codeclew

open List

namespace Query

open Json Cas Generation

/-! ## Normal terms -/

section Terms

variable [Unicode]

/-- The tables are closed: what lower case consists of is in lower case. -/
def LowercaseStable : Prop := ∀ c, ∀ d ∈ toLowercase c, toLowercase d = [d]

/-- A term as normalising leaves it. -/
structure IsTerm (word : List Char) : Prop where
  isWord : ∀ c ∈ word, isWord c = true
  lowercase : ∀ c ∈ word, toLowercase c = [c]
  two_le : 2 ≤ utf8Length word
  le : utf8Length word ≤ 256

variable {current cs : List Char}

theorem scanTerms_isTerm (hword : ∀ c ∈ current, isWord c = true)
    (hlower : ∀ c ∈ current ++ cs, toLowercase c = [c]) (hle : utf8Length current ≤ 256) :
    ∀ word ∈ scanTerms current cs, IsTerm word := by
  induction cs generalizing current with
  | nil =>
    intro word hmem
    rw [scanTerms] at hmem
    split_ifs at hmem with htwo
    · obtain rfl := mem_singleton.mp hmem
      exact ⟨hword, by simpa using hlower, htwo, hle⟩
    · cases hmem
  | cons c cs ih =>
    have hnext : ∀ d ∈ [] ++ cs, toLowercase d = [d] := fun d hd ↦
      hlower d (mem_append_right _ (mem_cons_of_mem _ hd))
    have hnil : ∀ word ∈ scanTerms [] cs, IsTerm word := ih (by simp) hnext (by simp [utf8Length])
    intro word hmem
    rw [scanTerms] at hmem
    split_ifs at hmem with hc hlong htwo
    · exact hnil word hmem
    · refine ih ?_ (by simpa using hlower) (by omega) word hmem
      intro d hd
      obtain hd | hd := mem_append.mp hd
      · exact hword d hd
      · exact mem_singleton.mp hd ▸ hc
    · obtain rfl | hmem := mem_cons.mp hmem
      · exact ⟨hword, fun d hd ↦ hlower d (mem_append_left _ hd), htwo, hle⟩
      · exact hnil word hmem
    · exact hnil word hmem

/-- A word is scanned as one term, from wherever it has been begun. -/
theorem scanTerms_of_isWord (hword : ∀ c ∈ cs, isWord c = true)
    (htwo : 2 ≤ utf8Length (current ++ cs)) (hle : utf8Length (current ++ cs) ≤ 256) :
    scanTerms current cs = [current ++ cs] := by
  induction cs generalizing current with
  | nil => rw [append_nil] at htwo ⊢; rw [scanTerms, if_pos htwo]
  | cons c cs ih =>
    obtain ⟨hc, hcs⟩ := forall_mem_cons.mp hword
    have hsplit : current ++ c :: cs = current ++ [c] ++ cs := by simp
    have hshort : ¬utf8Length (current ++ [c]) > 256 := by
      rw [hsplit] at hle
      simp only [utf8Length, map_append, sum_append] at hle ⊢
      omega
    rw [hsplit] at htwo hle ⊢
    rw [scanTerms, if_pos hc, if_neg hshort, ih hcs htwo hle]

/-- The terms of one text. -/
def textTerms (value : String) : List String :=
  (scanTerms [] ((chars value).flatMap toLowercase)).map String.ofList

theorem textTerms_ofList {word : List Char} (h : IsTerm word) :
    textTerms (String.ofList word) = [String.ofList word] := by
  have hlower : word.flatMap toLowercase = word := by
    rw [flatMap_congr (g := fun c ↦ [c]) h.lowercase, flatMap_singleton']
  have hscan : scanTerms [] word = [word] := scanTerms_of_isWord h.isWord h.two_le h.le
  rw [textTerms, chars_eq_toList, String.toList_ofList, hlower, hscan]
  rfl

theorem exists_isTerm (hstable : LowercaseStable) {values : List String} {term : String}
    (h : term ∈ normalizeTerms values) : ∃ word, IsTerm word ∧ String.ofList word = term := by
  obtain ⟨value, -, hterm⟩ := mem_flatMap.mp (mem_sortDedup.mp h)
  obtain ⟨word, hword, rfl⟩ := mem_map.mp hterm
  refine ⟨word, scanTerms_isTerm (by simp) (fun c hc ↦ ?_) (by simp [utf8Length]) word hword, rfl⟩
  obtain ⟨source, -, hlower⟩ := mem_flatMap.mp hc
  exact hstable source c hlower

theorem ascending_normalizeTerms (values : List String) :
    KeyedSet.Ascending id (normalizeTerms values) :=
  KeyedSet.ascending_ofList _

theorem mem_normalizeTerms_append {values others : List String} {term : String} :
    term ∈ normalizeTerms (values ++ others) ↔
      term ∈ normalizeTerms values ∨ term ∈ normalizeTerms others := by
  simp only [normalizeTerms, mem_sortDedup, flatMap_append, mem_append]

/-- Merging normalised terms normalises the texts together. -/
theorem sortDedup_append_normalizeTerms (values others : List String) :
    sortDedup (normalizeTerms values ++ normalizeTerms others) =
      normalizeTerms (values ++ others) := by
  refine (KeyedSet.ascending_ofList _).eq_of_mem_iff (ascending_normalizeTerms _) fun term ↦ ?_
  rw [mem_normalizeTerms_append, ← mem_append]
  exact mem_sortDedup

/-- **Normalising is idempotent.** -/
theorem normalizeTerms_normalizeTerms (hstable : LowercaseStable) (values : List String) :
    normalizeTerms (normalizeTerms values) = normalizeTerms values := by
  have hself : ∀ term ∈ normalizeTerms values, textTerms term = [term] := by
    intro term hterm
    obtain ⟨word, hword, rfl⟩ := exists_isTerm hstable hterm
    exact textTerms_ofList hword
  have hflat : (normalizeTerms values).flatMap textTerms = normalizeTerms values := by
    rw [flatMap_congr (g := fun term ↦ [term]) hself, flatMap_singleton']
  exact (congrArg sortDedup hflat).trans
    (KeyedSet.ofList_of_ascending (ascending_normalizeTerms values))

end Terms

/-! ## Expanding -/

variable [Sha256] [Unicode]

def expand (store : ObjectStore) (index : QueryIndexManifest) (parent : QueryContext)
    (additionalTerms : List String) (maxFacts : ℕ) : Except ClewError QueryContext := do
  ensure (parent.schema = queryContextSchema ∧ parent.indexId = index.indexId)
    (invalid "parent context is not bound to the query index")
  let requestedTerms := sortDedup (parent.requestedTerms ++ normalizeTerms additionalTerms)
  if requestedTerms = parent.requestedTerms then return parent
  else query store index requestedTerms maxFacts

/-- What a query answers once its terms are normalised. -/
def answer (store : ObjectStore) (index : QueryIndexManifest) (requestedTerms : List String)
    (maxFacts : ℕ) : Except ClewError QueryContext := do
  let (consulted, shardsRead) ← consultAll store index requestedTerms []
  let facts := fairFactSelection (lanes consulted) (min maxFacts maxContextFacts)
  return {
    schema := queryContextSchema
    indexId := index.indexId
    requestedTerms
    unmatchedTerms := (consulted.filter fun c ↦ c.exactMatches = [] ∧ c.aliasMatches = []).map
      (·.term)
    facts
    queryShardsRead := shardsRead.length
    truncated := decide ((KeyedSet.ofList FactHit.key (lanes consulted).flatten).length >
      facts.length) || consulted.any (·.overflow) }

variable {store : ObjectStore} {index : QueryIndexManifest} {terms others : List String}
  {maxFacts : ℕ} {context result : QueryContext}

theorem query_eq_ok_iff : query store index terms maxFacts = .ok context ↔
    verifyIndexManifest store index = .ok () ∧
      (terms ≠ [] ∧ terms.length ≤ maxQueryTerms ∧ maxFacts ≠ 0) ∧ normalizeTerms terms ≠ [] ∧
        answer store index (normalizeTerms terms) maxFacts = .ok context := by
  have hquery : query store index terms maxFacts = (do
    verifyIndexManifest store index
    ensure (terms ≠ [] ∧ terms.length ≤ maxQueryTerms ∧ maxFacts ≠ 0)
      (invalid "query term or result limit is invalid")
    ensure (normalizeTerms terms ≠ []) (invalid "query has no normalized terms")
    answer store index (normalizeTerms terms) maxFacts) := rfl
  rw [hquery, bind_eq_ok_iff]
  simp only [ensure_bind_eq_ok_iff]
  exact ⟨fun ⟨_, hverify, h⟩ ↦ ⟨hverify, h⟩, fun ⟨hverify, h⟩ ↦ ⟨(), hverify, h⟩⟩

omit [Unicode] in
theorem of_answer {requestedTerms : List String}
    (h : answer store index requestedTerms maxFacts = .ok context) :
    context.schema = queryContextSchema ∧ context.indexId = index.indexId ∧
      context.requestedTerms = requestedTerms := by
  obtain ⟨⟨consulted, shardsRead⟩, -, hok⟩ := bind_eq_ok_iff.mp h
  obtain rfl := Except.ok.inj hok
  exact ⟨rfl, rfl, rfl⟩

/-- The context of a query is expanded by querying the normalised terms of both requests. -/
theorem expand_eq_ok_iff (hparent : query store index terms maxFacts = .ok context) :
    expand store index context others maxFacts = .ok result ↔
      (if normalizeTerms (terms ++ others) = normalizeTerms terms then .ok context
      else query store index (normalizeTerms (terms ++ others)) maxFacts) = .ok result := by
  obtain ⟨-, -, -, hanswer⟩ := query_eq_ok_iff.mp hparent
  obtain ⟨hschema, hindex, hrequested⟩ := of_answer hanswer
  rw [expand, ensure_bind_eq_ok_iff, hrequested, sortDedup_append_normalizeTerms]
  exact and_iff_right ⟨hschema, hindex⟩

omit [Sha256] in
theorem normalizeTerms_append_eq_iff :
    normalizeTerms (terms ++ others) = normalizeTerms terms ↔
      normalizeTerms others ⊆ normalizeTerms terms := by
  constructor
  · intro heq term hterm
    exact heq ▸ mem_normalizeTerms_append.mpr (Or.inr hterm)
  · intro hsub
    refine (ascending_normalizeTerms _).eq_of_mem_iff (ascending_normalizeTerms _) fun term ↦ ?_
    rw [mem_normalizeTerms_append]
    exact or_iff_left_of_imp fun hterm ↦ hsub hterm

/-- **Expanding is querying both requests together** exactly if the words of both are not too many
for a query, or the second adds none. -/
theorem expand_eq_query_iff (hstable : LowercaseStable)
    (hparent : query store index terms maxFacts = .ok context)
    (hboth : query store index (terms ++ others) maxFacts = .ok result) :
    expand store index context others maxFacts = .ok result ↔
      (normalizeTerms (terms ++ others)).length ≤ maxQueryTerms ∨
        normalizeTerms others ⊆ normalizeTerms terms := by
  obtain ⟨hverify, ⟨-, -, hfacts⟩, -, hanswer⟩ := query_eq_ok_iff.mp hparent
  obtain ⟨-, -, hne, hanswer'⟩ := query_eq_ok_iff.mp hboth
  rw [expand_eq_ok_iff hparent, ← normalizeTerms_append_eq_iff]
  split_ifs with heq
  · -- the same terms have the same answer
    rw [heq, hanswer] at hanswer'
    exact iff_of_true hanswer' (Or.inr heq)
  · rw [query_eq_ok_iff, normalizeTerms_normalizeTerms hstable, or_iff_left heq]
    exact ⟨fun ⟨_, ⟨_, hlength, _⟩, _⟩ ↦ hlength,
      fun hlength ↦ ⟨hverify, ⟨hne, hlength, hfacts⟩, hne, hanswer'⟩⟩

/-! ## Indexes that pass their check -/

variable {references : List QueryShardReference}

omit [Unicode] in
theorem exists_openShard_of_tallyShards {previous : Option ShardOrder} {tally tally' : Tally}
    (h : tallyShards store references previous tally = .ok tally') :
    ∀ reference ∈ references, ∃ shard, openShard store reference = .ok shard := by
  induction references generalizing previous tally with
  | nil => simp
  | cons reference references ih =>
    obtain ⟨-, h⟩ := ensure_bind_eq_ok_iff.mp h
    obtain ⟨shard, hshard, h⟩ := bind_eq_ok_iff.mp h
    obtain ⟨counted, -, h⟩ := bind_eq_ok_iff.mp h
    exact forall_mem_cons.mpr ⟨⟨shard, hshard⟩, ih h⟩

section Opened

omit [Unicode]

theorem exists_readMatches
    (h : ∀ reference ∈ references, ∃ shard, openShard store reference = .ok shard) (term : String)
    (found : List FactHit) (shardsRead : List String) :
    ∃ read, readMatches store term references found shardsRead = .ok read := by
  induction references generalizing found shardsRead with
  | nil => exact ⟨_, rfl⟩
  | cons reference references ih =>
    obtain ⟨hshard, hrest⟩ := forall_mem_cons.mp h
    exact exists_bind hshard fun _ ↦ ih hrest _ _

variable (hopen : ∀ reference ∈ index.shards, ∃ shard, openShard store reference = .ok shard)
include hopen

theorem exists_readTermMatches (term : String) (shardsRead : List String) :
    ∃ read, readTermMatches store index term shardsRead = .ok read :=
  exists_readMatches (fun reference hreference ↦ hopen reference (mem_of_mem_filter hreference))
    term [] shardsRead

theorem exists_consultAliases (names : List String) (consulted : Consulted)
    (shardsRead : List String) :
    ∃ outcome, consultAliases store index names consulted shardsRead = .ok outcome := by
  induction names generalizing consulted shardsRead with
  | nil => exact ⟨_, rfl⟩
  | cons name names ih =>
    refine exists_bind (exists_readTermMatches hopen _ _) fun _ ↦ ?_
    refine exists_bind (exists_readTermMatches hopen _ _) fun _ ↦ ?_
    exact ih _ _

theorem exists_consultAll (terms shardsRead : List String) :
    ∃ outcome, consultAll store index terms shardsRead = .ok outcome := by
  induction terms generalizing shardsRead with
  | nil => exact ⟨_, rfl⟩
  | cons term terms ih =>
    refine exists_bind ?_ fun _ ↦ exists_bind (ih _) fun _ ↦ ⟨_, rfl⟩
    refine exists_bind (exists_readTermMatches hopen _ _) fun _ ↦ ?_
    refine exists_bind (exists_readTermMatches hopen _ _) fun _ ↦ ?_
    exact exists_consultAliases hopen _ _ _

end Opened

/-- An index that passes its check answers every query within the limits. -/
theorem exists_query (h : verifyIndex store index = .ok ()) (hterms : terms.length ≤ maxQueryTerms)
    (hfacts : maxFacts ≠ 0) (hne : normalizeTerms terms ≠ []) :
    ∃ context, query store index terms maxFacts = .ok context := by
  obtain ⟨_, hmanifest, h⟩ := bind_eq_ok_iff.mp h
  obtain ⟨tally, htally, -⟩ := bind_eq_ok_iff.mp h
  obtain ⟨outcome, houtcome⟩ :=
    exists_consultAll (exists_openShard_of_tallyShards htally) (normalizeTerms terms) []
  have hnonempty : terms ≠ [] := by
    rintro rfl
    exact hne rfl
  obtain ⟨context, hanswer⟩ :
      ∃ context, answer store index (normalizeTerms terms) maxFacts = .ok context := by
    rw [answer, houtcome]
    exact ⟨_, rfl⟩
  exact ⟨context, query_eq_ok_iff.mpr ⟨hmanifest, ⟨hnonempty, hterms, hfacts⟩, hne, hanswer⟩⟩

end Query

namespace Query

open Json Cas Generation

section Examples

attribute [local instance] Sha256.standard Unicode.basic

/-- The dotted capital I is the lower case of no character. -/
theorem toLower_ne_dottedCapitalI {c : Char} (h : c ≠ dottedCapitalI) :
    c.toLower ≠ dottedCapitalI := by
  rw [Char.toLower]
  split
  · next hupper =>
    intro heq
    have hval : c.val + ('a'.val - 'A'.val) = dottedCapitalI.val := congrArg Char.val heq
    have hle : c.val.toNat ≤ 90 := UInt32.le_iff_toNat_le.mp hupper.2
    have hnat := congrArg UInt32.toNat hval
    rw [UInt32.toNat_add] at hnat
    have hdotted : dottedCapitalI.val.toNat = 304 := by decide
    have hshift : ('a'.val - 'A'.val).toNat = 32 := by decide
    omega
  · exact h

theorem lowercaseStable_basic : LowercaseStable := by
  intro c d hd
  by_cases hc : c = dottedCapitalI
  · rw [show toLowercase c = ['i', combiningDot] from if_pos hc] at hd
    obtain rfl | hd := mem_cons.mp hd
    · decide
    · obtain rfl := mem_singleton.mp hd
      decide
  · rw [show toLowercase c = [c.toLower] from if_neg hc] at hd
    obtain rfl := mem_singleton.mp hd
    refine (if_neg (toLower_ne_dottedCapitalI hc)).trans ?_
    rw [Char.toLower_toLower_eq_toLower]

/-- A reference to a generation without any text. -/
def smallGeneration : CasObject where
  schema := casObjectSchema
  objectSchema := generationSchema
  digest := objectDigest generationSchema []
  size := 0

/-- A posting for one term, in a shard of its own. -/
def smallShard : QueryShard where
  schema := queryShardSchema
  bucket := bucket "xx"
  sequence := 0
  firstTerm := "xx"
  lastTerm := "xx"
  postings := [⟨"xx", [⟨"a", analysisFacts, smallGeneration⟩]⟩]

def smallStore : ObjectStore :=
  (ObjectStore.put queryShardSchema (encode smallShard)
    (ObjectStore.put generationSchema [] .empty).2).2

def smallReference : QueryShardReference := smallShard.reference {
  schema := casObjectSchema
  objectSchema := queryShardSchema
  digest := objectDigest queryShardSchema (encode smallShard)
  size := UInt64.ofNat (encode smallShard).length }

def smallIndex : QueryIndexManifest := QueryIndexManifest.sign {
  schema := queryIndexSchema
  indexId := ""
  generation := smallGeneration
  shards := [smallReference]
  termCount := 1
  postingCount := 1
  overflowTerms := [] }

theorem openShard_smallReference : openShard smallStore smallReference = .ok smallShard := by
  have hread :
      smallStore.read smallReference.object maxQueryShardBytes = .ok (encode smallShard) := by
    decide +kernel
  have hdecode : decode (encode smallShard) = some smallShard :=
    decode_encode (by decide) smallShard
  have hverify : verifyShard smallReference smallShard (encode smallShard) = .ok () := by
    decide +kernel
  rw [openShard, hread, ok_bind, hdecode]
  simp only [hverify, ok_bind]
  rfl

theorem verifyIndex_smallIndex : verifyIndex smallStore smallIndex = .ok () := by
  have hmanifest : verifyIndexManifest smallStore smallIndex = .ok () := by decide +kernel
  have hshards : smallIndex.shards = [smallReference] := rfl
  rw [verifyIndex, hmanifest, ok_bind, hshards, tallyShards, openShard_smallReference]
  decide

/-- All words of two of sixteen letters. -/
def manyWords : List (List Char) :=
  (chars "abcdefghijklmnop").flatMap fun c ↦ (chars "abcdefghijklmnop").map fun d ↦ [c, d]

/-- The words in one text. -/
def manyWordsText : String := String.ofList (manyWords.flatMap (· ++ [' ']))

theorem textTerms_manyWordsText : textTerms manyWordsText = manyWords.map String.ofList := by
  have hscan : scanTerms [] ((manyWords.flatMap (· ++ [' '])).flatMap toLowercase) = manyWords := by
    decide +kernel
  rw [textTerms, manyWordsText, chars_eq_toList, String.toList_ofList, hscan]

theorem textTerms_zz : textTerms "zz" = [String.ofList ['z', 'z']] := by decide

/-- Different words are as many terms. -/
theorem length_normalizeTerms {values : List String} {words : List (List Char)}
    (h : values.flatMap textTerms = words.map String.ofList) (hwords : words.IsChain (· < ·)) :
    (normalizeTerms values).length = words.length := by
  have hdistinct : (words.map String.ofList).Nodup :=
    List.Nodup.map (fun _ _ ↦ String.ofList_injective) (hwords.pairwise.imp ne_of_lt)
  have hsorted : normalizeTerms values = sortDedup (values.flatMap textTerms) := rfl
  rw [hsorted, h, sortDedup, KeyedSet.length_ofList, KeyedSet.keys, map_id,
    toFinset_card_of_nodup hdistinct, length_map]

theorem length_normalizeTerms_manyWordsText : (normalizeTerms [manyWordsText]).length = 256 := by
  have hterms : [manyWordsText].flatMap textTerms = manyWords.map String.ofList := by
    simp [textTerms_manyWordsText]
  rw [length_normalizeTerms hterms (by decide +kernel)]
  decide +kernel

theorem length_normalizeTerms_append_zz :
    (normalizeTerms ([manyWordsText] ++ ["zz"])).length = 257 := by
  have hterms : ([manyWordsText] ++ ["zz"]).flatMap textTerms =
      (manyWords ++ [['z', 'z']]).map String.ofList := by
    simp [textTerms_manyWordsText, textTerms_zz]
  rw [length_normalizeTerms hterms (by decide +kernel)]
  decide +kernel

theorem expand_eq_query_iff_small :
    ∃ context result, query smallStore smallIndex ["xx"] 1 = .ok context ∧
      query smallStore smallIndex (["xx"] ++ ["yy"]) 1 = .ok result ∧
      expand smallStore smallIndex context ["yy"] 1 = .ok result := by
  have hold : normalizeTerms ["xx"] ≠ [] := by decide
  have hnew : normalizeTerms (["xx"] ++ ["yy"]) ≠ [] := by decide
  obtain ⟨context, hcontext⟩ := exists_query verifyIndex_smallIndex (by decide) one_ne_zero hold
  obtain ⟨result, hresult⟩ := exists_query verifyIndex_smallIndex (by decide) one_ne_zero hnew
  exact ⟨context, result, hcontext, hresult,
    (expand_eq_query_iff lowercaseStable_basic hcontext hresult).mpr (Or.inl (by decide))⟩

/-- One text of many words can be queried, with another word too, but not be expanded by it. -/
theorem expand_manyWords :
    verifyIndex smallStore smallIndex = .ok () ∧
    ∃ context result, query smallStore smallIndex [manyWordsText] 1 = .ok context ∧
      query smallStore smallIndex ([manyWordsText] ++ ["zz"]) 1 = .ok result ∧
      expand smallStore smallIndex context ["zz"] 1 ≠ .ok result := by
  have hwords := length_normalizeTerms_manyWordsText
  have hlength := length_normalizeTerms_append_zz
  have hold : normalizeTerms [manyWordsText] ≠ [] := by
    rw [← length_pos_iff, hwords]
    decide
  have hboth : normalizeTerms ([manyWordsText] ++ ["zz"]) ≠ [] := by
    rw [← length_pos_iff, hlength]
    decide
  obtain ⟨context, hcontext⟩ := exists_query verifyIndex_smallIndex (by decide) one_ne_zero hold
  obtain ⟨result, hresult⟩ := exists_query verifyIndex_smallIndex (by decide) one_ne_zero hboth
  have hnew : normalizeTerms ([manyWordsText] ++ ["zz"]) ≠ normalizeTerms [manyWordsText] := by
    intro heq
    rw [heq, hwords] at hlength
    exact absurd hlength (by decide)
  refine ⟨verifyIndex_smallIndex, context, result, hcontext, hresult, fun hexpand ↦ ?_⟩
  rw [expand_eq_ok_iff hcontext, if_neg hnew] at hexpand
  obtain ⟨-, ⟨-, hle, -⟩, -⟩ := query_eq_ok_iff.mp hexpand
  rw [hlength] at hle
  exact absurd hle (by decide)

end Examples

end Query

end Codeclew
