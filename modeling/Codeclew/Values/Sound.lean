import Codeclew.Values.Expanded
import Codeclew.Values.Solution

/-!
# Soundness across calls

The meaning of a program is given by its activations: the entry, and for every activation and every
call in it the activation of the callee. The values a definition may have in an activation are those
that can be derived in finitely many steps, `Possible`. An activation is expanded to a context; any
solution of the expanded model has all possible values of its definitions, and so what the solver
reports about the target is true of the program.
-/

namespace Codeclew.Values

open Std List

/-! ## Activations -/

/-- A function as it is entered: at the start, or by a call of an activation. -/
inductive Activation where
  | entry (f : FunctionValues)
  | call (caller : Activation) (site : ExactValueCall) (callee : FunctionValues)

namespace Activation

def function : Activation → FunctionValues
  | entry f => f
  | call _ _ callee => callee

/-- Whether `d` is a parameter that a caller binds. -/
def Binds : Activation → String → Prop
  | entry _, _ => False
  | call _ _ callee, d => d ∈ callee.parameters

/-- The definition `d` is computed by the operation `o`. -/
def Computes (a : Activation) (d : String) (o : ValueOperation) : Prop :=
  (∃ n ∈ a.function.model.nodes, n.id = d ∧ n.operation = o) ∧
    (∀ c ∈ a.function.calls, c.definition ≠ d) ∧ ¬a.Binds d

end Activation

/-- The values a definition may have. -/
inductive Possible (functions : List FunctionValues) : Activation → String → Value → Prop
  | null {a d} : a.Computes d .null → Possible functions a d .null
  | nonNull {a d} : a.Computes d .nonNull → Possible functions a d .nonNull
  | input {a d v} : a.Computes d .input → Possible functions a d v
  | unknown {a d boundary v} : a.Computes d (.unknown boundary) → Possible functions a d v
  | copy {a d value v} : a.Computes d (.copy value) → Possible functions a value v →
      Possible functions a d v
  | join {a d values value v} : a.Computes d (.join values) → value ∈ values →
      Possible functions a value v → Possible functions a d v
  | left {a d left right} : a.Computes d (.coalesce left right) →
      Possible functions a left .nonNull → Possible functions a d .nonNull
  | right {a d left right v} : a.Computes d (.coalesce left right) →
      Possible functions a left .null → Possible functions a right v → Possible functions a d v
  /-- A parameter has the values of its argument. -/
  | parameter {a site callee p argument v} : (p, argument) ∈ callee.parameters.zip site.arguments →
      Possible functions a argument v → Possible functions (.call a site callee) p v
  /-- A call has the results of its target. -/
  | result {a c callee v} : c ∈ a.function.calls → callee ∈ functions → callee.owner = c.target →
      Possible functions (.call a c callee) "result" v → Possible functions a c.definition v
  /-- A call without a target in the program may have any value. -/
  | unresolved {a c v} : c ∈ a.function.calls → (∀ f ∈ functions, f.owner ≠ c.target) →
      Possible functions a c.definition v

/-! ## Simulation -/

section Simulation

variable {x : Expansion} {l : Layout} {b : Builder} {s : Assignment}

/-- The context an activation is expanded to: its function, and for a call what is bound to its
parameters. -/
inductive Expands (x : Expansion) (l : Layout) : Activation → ℕ → Prop
  | entry {f t k} : l.contexts[k]? = some (f, t) →
      (∀ n ∈ f.model.nodes, n.id ∈ f.parameters → (scopedId k n.id, n.operation) ∈ l.feeds) →
      Expands x l (.entry f) k
  | call {a i f t c j g} : Expands x l a i → l.contexts[i]? = some (f, t) → a.function = f →
      c ∈ f.calls → c.definition ∈ relevant f t → l.contexts[j]? = some (g, "result") →
      (∀ p arg, (p, arg) ∈ g.parameters.zip c.arguments →
        (scopedId j p, ValueOperation.copy (scopedId i arg)) ∈ l.feeds) →
      Expands x l (.call a c g) j

theorem Expands.function {a : Activation} {k : ℕ} {f : FunctionValues} {t : String}
    (h : Expands x l a k) (hk : l.contexts[k]? = some (f, t)) : a.function = f := by
  cases h with
  | entry hk' => exact (Prod.mk.inj (Option.some.inj (hk'.symm.trans hk))).1
  | call _ _ _ _ _ hj => exact (Prod.mk.inj (Option.some.inj (hj.symm.trans hk))).1

/-- The assignment has the values of every node of the builder. -/
def Solves (b : Builder) (s : Assignment) : Prop := ∀ y o, b.op y = some o → o.values s ⊆ s y

/-- A node has the values of what feeds it. -/
theorem Feeds.values_subset {y : String} {o : ValueOperation} (h : Feeds x b y o)
    (hs : Solves b s) : o.values s ⊆ s y := by
  rcases h with hop | ⟨vs, hvs, hfeed⟩
  · exact hs y o hop
  · have hjoin := hs y _ hvs
    rcases hfeed with ⟨a, ha, rfl⟩ | ⟨-, hin, hop⟩
    · exact fun v hv ↦ hjoin ⟨a, ha, hv⟩
    · exact fun v hv ↦ hjoin ⟨incoming y, hin, hs _ o hop hv⟩

/-- An operation in a context gives the values it gives on the context's names. -/
theorem values_remap (o : ValueOperation) (k : ℕ) (s : Assignment) :
    (remap o k).values s = o.values fun d ↦ s (scopedId k d) := by
  cases o with
  | join values =>
    ext v
    simp [remap, ValueOperation.values]
  | _ => rfl

variable [Sha256] {a : Activation} {k : ℕ} {f : FunctionValues} {t d : String}

/-- A definition that is computed by an operation has the values the operation gives. -/
theorem Activation.Computes.values_subset {o : ValueOperation} (h : a.Computes d o)
    (hx : x.Checked) (hb : Built x l b) (hs : Solves b s) (ha : Expands x l a k)
    (hk : l.contexts[k]? = some (f, t)) (hrel : d ∈ relevant f t) :
    (o.values fun d ↦ s (scopedId k d)) ⊆ s (scopedId k d) := by
  have hf := hx.functions f (hb.mem_functions hk)
  obtain ⟨⟨n, hn, rfl, rfl⟩, hcalls, hbinds⟩ := h
  rw [ha.function hk] at hn hcalls
  by_cases hp : n.id ∈ f.parameters
  · -- only the entry computes its parameters, and a parameter has no operands
    obtain ⟨n', hn', hid, hop⟩ := hf.exists_parameter hp
    obtain rfl := hf.model.eq_of_id hn' hn hid
    cases ha with
    | call _ _ _ _ _ hj =>
      obtain ⟨rfl, -⟩ := Prod.mk.inj (Option.some.inj (hj.symm.trans hk))
      exact absurd hp hbinds
    | entry hk' hfeeds =>
      obtain ⟨rfl, -⟩ := Prod.mk.inj (Option.some.inj (hk'.symm.trans hk))
      have hsub := (hb.fed _ _ (hfeeds n' hn hp)).values_subset hs
      refine (ValueOperation.values_congr fun d hd ↦ ?_).subset.trans hsub
      cases hcase : n'.operation <;> simp_all [isParameter, ValueOperation.operands]
  · have hcall : f.call? n.id = none := by
      rw [FunctionValues.call?, List.find?_eq_none]
      exact fun c hc ↦ by simpa using hcalls c hc
    have hop := hs _ _ (hb.plain k f t hk n hn hrel hp hcall)
    rwa [values_remap] at hop

/-- **Simulation.** A solution has every possible value of a definition in the context that the
activation is expanded to. -/
theorem Possible.mem {v : Value} (h : Possible x.functions a d v) (hx : x.Checked)
    (hb : Built x l b) (hs : Solves b s) (ha : Expands x l a k)
    (hk : l.contexts[k]? = some (f, t)) (hrel : d ∈ relevant f t) : v ∈ s (scopedId k d) := by
  -- an operand of a relevant definition is relevant
  have hoperand : ∀ {a : Activation} {k : ℕ} {f : FunctionValues} {t d : String}
      {o : ValueOperation}, a.Computes d o → Expands x l a k → l.contexts[k]? = some (f, t) →
      d ∈ relevant f t → ∀ e ∈ o.operands, e ∈ relevant f t := by
    rintro a k f t d o ⟨⟨n, hn, rfl, rfl⟩, -, -⟩ ha hk hrel e he
    rw [ha.function hk] at hn
    exact (hx.functions f (hb.mem_functions hk)).operand_mem_relevant hn hrel he
  induction h generalizing k f t with
  | null hc => exact hc.values_subset hx hb hs ha hk hrel rfl
  | nonNull hc => exact hc.values_subset hx hb hs ha hk hrel rfl
  | input hc => exact hc.values_subset hx hb hs ha hk hrel trivial
  | unknown hc => exact hc.values_subset hx hb hs ha hk hrel trivial
  | copy hc _ ih =>
    refine hc.values_subset hx hb hs ha hk hrel (ih ha hk ?_)
    exact hoperand hc ha hk hrel _ (by simp [ValueOperation.operands])
  | join hc hmem _ ih =>
    exact hc.values_subset hx hb hs ha hk hrel ⟨_, hmem, ih ha hk (hoperand hc ha hk hrel _ hmem)⟩
  | left hc _ ih =>
    refine hc.values_subset hx hb hs ha hk hrel (.inl ⟨rfl, ih ha hk ?_⟩)
    exact hoperand hc ha hk hrel _ (by simp [ValueOperation.operands])
  | right hc _ _ ihl ihr =>
    refine hc.values_subset hx hb hs ha hk hrel (.inr ⟨ihl ha hk ?_, ihr ha hk ?_⟩)
    · exact hoperand hc ha hk hrel _ (by simp [ValueOperation.operands])
    · exact hoperand hc ha hk hrel _ (by simp [ValueOperation.operands])
  | parameter hmem _ ih =>
    cases ha with
    | call hcaller hi hfun hc hrel' hj hfeeds =>
      have hchecked := hx.functions _ (hb.mem_functions hi)
      have harg := ih hcaller hi (hchecked.argument_mem_relevant hc hrel' (of_mem_zip hmem).2)
      exact (hb.fed _ _ (hfeeds _ _ hmem)).values_subset hs harg
  | @result a c callee v hc hcallee howner _ ih =>
    rw [ha.function hk] at hc
    obtain ⟨o, ho, hlinked⟩ := hb.called k f t hk c hc hrel
    rcases hlinked with ⟨boundary, rfl⟩ | ⟨j, g, hj, hg, rfl, hfeeds⟩
    · exact hs _ _ ho trivial
    · obtain ⟨hgmem, hgowner⟩ := hx.function?_eq_some_iff.mp hg
      obtain rfl := hx.eq_of_owner hcallee hgmem (howner.trans hgowner.symm)
      refine hs _ _ ho (ih (.call ha hk (ha.function hk) hc hrel hj hfeeds) hj ?_)
      exact target_mem_relevant (hx.functions _ hgmem).result
  | unresolved hc hnone =>
    rw [ha.function hk] at hc
    obtain ⟨o, ho, hlinked⟩ := hb.called k f t hk _ hc hrel
    rcases hlinked with ⟨boundary, rfl⟩ | ⟨j, g, hj, hg, -, -⟩
    · exact hs _ _ ho trivial
    · obtain ⟨hgmem, hgowner⟩ := hx.function?_eq_some_iff.mp hg
      exact absurd hgowner (hnone g hgmem)

end Simulation

/-! ## Programs -/

/-- The names of an expansion can meet: the entry is expanded for its result, one of its parameters
is called like a context, and some definition is called `incoming`. -/
def NamesMeet (functions : List FunctionValues) (owner target : String) (maxContexts : ℕ) : Prop :=
  target = "result" ∧
    (∃ f ∈ functions, f.owner = owner ∧
      ∃ k, 0 < k ∧ k < maxContexts ∧ "c" ++ toString k ∈ f.parameters) ∧
    ∃ f ∈ functions, ∃ n ∈ f.model.nodes, n.id = "incoming"

section Programs

variable [Sha256] {sources : Sources} {functions : List FunctionValues} {owner target : String}
  {maxContexts maxNodes : ℕ} {expanded : ExpandedValues}

theorem built_empty (x : Expansion) : Built x ⟨[], ∅⟩ Builder.empty where
  count := rfl
  bound := Nat.zero_le _
  known c hc := nomatch hc
  summaries f hf t summary h := by simp [Builder.empty] at h
  ids y n h := by simp [Builder.empty] at h
  plain k f t h := by simp at h
  called k f t h := by simp at h
  fed y o h := absurd h (Set.notMem_empty _)
  feedsAt y o h := absurd h (Set.notMem_empty _)
  supplied k f t h := by simp at h

/-- A program that is expanded is built from its entry, or the entry does not have the target. -/
theorem exists_built_of_expand
    (hplain : ∀ f ∈ functions, ∀ n ∈ f.model.nodes, Plain n.id)
    (hnames : ¬NamesMeet functions owner target maxContexts)
    (h : expand sources functions owner target maxContexts maxNodes = .ok expanded) :
    ∃ entry, function? functions owner = some entry ∧
      (((entry.model.node? target).isNone ∧ expanded.model = entry.model) ∨
        ∃ x l b, x.functions = functions ∧ x.Checked ∧ Built x l b ∧
          (entry.model.node? target).isSome ∧ expanded.model.nodes = b.nodes.toList.map (·.2) ∧
          l.contexts[0]? = some (entry, target) ∧
          ∀ n ∈ entry.model.nodes, n.id ∈ entry.parameters →
            (scopedId 0 n.id, n.operation) ∈ l.feeds) := by
  obtain ⟨⟨-, -, -, hcontexts, -⟩, h⟩ := ensure_bind_eq_ok_iff.mp h
  obtain ⟨howners, h⟩ := ensure_bind_eq_ok_iff.mp h
  cases hentry : function? functions owner with
  | none => rw [hentry] at h; cases h
  | some entry =>
    refine ⟨entry, rfl, ?_⟩
    rw [hentry] at h
    obtain ⟨_, hchecks, h⟩ := bind_eq_ok_iff.mp h
    have hmem : entry ∈ functions := mem_of_find?_eq_some hentry
    have howner : entry.owner = owner := by simpa using List.find?_some hentry
    split at h
    · rename_i hnone
      rw [← Except.ok.inj h]
      exact .inl ⟨hnone, rfl⟩
    · rename_i hsome
      obtain ⟨-, h⟩ := ensure_bind_eq_ok_iff.mp h
      obtain ⟨_, -, h⟩ := bind_eq_ok_iff.mp h
      rw [← Except.ok.inj h]
      generalize hx : (Expansion.mk functions (settleEligible functions (functions.map (·.owner)))
        maxContexts maxNodes (canonicalHash (.arr [.str callPolicy, .arr (functions.map (·.json))]))
        target sources) = x
      obtain rfl : x.functions = functions := by rw [← hx]
      obtain rfl : x.maxContexts = maxContexts := by rw [← hx]
      obtain rfl : x.entryTarget = target := by rw [← hx]
      have hchecked : x.Checked := ⟨howners, fun f hf ↦
        checked_of_checkFunction (eq_ok_of_forM_eq_ok hchecks f hf), hplain⟩
      have hfresh : x.Fresh entry := by
        intro hresult k hk hlt hp f hf n hn hid
        exact hnames ⟨hresult, ⟨entry, hmem, howner, k, hk, hlt, hp⟩, f, hf, n, hn, hid⟩
      have harity : ∀ arguments ∈ (none : Option (List String)),
          entry.parameters.length = arguments.length := by simp
      have hstack : OnStack ⟨[], ∅⟩ [] := fun _ h ↦ absurd h not_mem_nil
      obtain ⟨l, hle, hbuilt⟩ := Built.instantiate hchecked hfresh x.maxContexts (built_empty x)
        hmem (Nat.pos_of_ne_zero hcontexts) (Nat.le_add_left _ _) harity hstack rfl
      refine .inr ⟨x, l, _, rfl, hchecked, hbuilt, ?_, rfl, ?_, ?_⟩
      · simpa [Option.isSome_iff_ne_none] using hsome
      · exact Layout.getElem?_of_le hle rfl
      · exact fun n hn hp ↦ hle.2 (.inr ⟨n, hn, hp, rfl⟩)

theorem Built.solves {x : Expansion} {l : Layout} {b : Builder} {s : Assignment}
    (hb : Built x l b) (hs : Solution (b.nodes.toList.map (·.2)) s) : Solves b s := by
  intro y o hop
  obtain ⟨n, hn, rfl⟩ := Option.map_eq_some_iff.mp hop
  have hsub := hs n (mem_map.mpr
    ⟨(y, n), ExtTreeMap.mem_toList_iff_getElem?_eq_some.mpr hn, rfl⟩)
  rwa [hb.ids y n hn] at hsub

/-- **Soundness.** What the solver reports about the target on the expanded model is true of the
program: a definition that is reported as null is never anything else, and one that is reported as
non-null is never null. -/
theorem analyze_expand_sound {query : ValueQuery} {result : ValueResult} {o : ValueObservation}
    {entry : FunctionValues} (hplain : ∀ f ∈ functions, ∀ n ∈ f.model.nodes, Plain n.id)
    (hnames : ¬NamesMeet functions owner target maxContexts)
    (hexpand : expand sources functions owner target maxContexts maxNodes = .ok expanded)
    (hanalyze : analyze expanded.model query = .ok result)
    (ho : o ∈ result.observations) (hid : o.id = target)
    (hentry : entry ∈ functions) (howner : entry.owner = owner) :
    (o.normalValueNullness = .null →
        ∀ v, Possible functions (.entry entry) target v → v = .null) ∧
      (o.normalValueNullness = .nonNull →
        ∀ v, Possible functions (.entry entry) target v → v = .nonNull) := by
  obtain ⟨s, hs, hreport⟩ := exists_solution_of_analyze hanalyze
  obtain ⟨⟨n, hn, hnid⟩, hnull, hnonNull⟩ := hreport o ho
  rw [hid] at hnid hnull hnonNull
  obtain ⟨entry', hentry', ⟨hnone, hmodel⟩ | hbuilt⟩ :=
    exists_built_of_expand hplain hnames hexpand
  · have hsome := ValueModel.node?_isSome_iff.mpr ⟨n, hmodel ▸ hn, hnid⟩
    rw [Option.isNone_iff_eq_none.mp hnone] at hsome
    cases hsome
  · obtain ⟨x, l, b, rfl, hx, hb, htarget, hnodes, hzero, hfeeds⟩ := hbuilt
    obtain ⟨hmem', howner'⟩ := hx.function?_eq_some_iff.mp hentry'
    obtain rfl := hx.eq_of_owner hmem' hentry (howner'.trans howner.symm)
    have hmem : ∀ v, Possible x.functions (.entry entry') target v → v ∈ s target := fun v hv ↦
      hv.mem hx hb (hb.solves (hnodes ▸ hs)) (.entry hzero hfeeds) hzero
        (target_mem_relevant htarget)
    refine ⟨fun h v hv ↦ ?_, fun h v hv ↦ ?_⟩
    · have := hmem v hv
      rwa [hnull h] at this
    · have := hmem v hv
      rwa [hnonNull h] at this

end Programs

/-! ## A recursive program, and one whose names meet -/

section Examples

attribute [local instance] Sha256.standard

def exampleDigest : String :=
  "sha256:0000000000000000000000000000000000000000000000000000000000000000"

def exampleBinding : ModelBinding where
  language := "java"
  producer := "javac"
  snapshotDigest := exampleDigest
  factsDigest := exampleDigest
  configurationDigest := exampleDigest
  policyDigest := exampleDigest
  observationAuthority := .compilerObserved

def exampleNode (id : String) (operation : ValueOperation) : ValueNode :=
  ⟨id, operation, ["fact"], []⟩

def exampleModel (nodes : List ValueNode) : ValueModel :=
  ⟨valueModelSchema, exampleBinding, nodes, []⟩

/-- `A(p) = B(p)` or `A(B(p))`, with a parameter that is not null. -/
def exampleCaller : FunctionValues where
  owner := "A"
  parameters := ["p"]
  model := exampleModel [exampleNode "again" (.unknown "CALL"), exampleNode "b" (.unknown "CALL"),
    exampleNode "p" .nonNull, exampleNode "result" (.join ["again", "b"])]
  calls := [⟨"b", "B", ["p"]⟩, ⟨"again", "A", ["b"]⟩]

/-- `B(q) = q`. -/
def exampleIdentity : FunctionValues where
  owner := "B"
  parameters := ["q"]
  model := exampleModel [exampleNode "q" .input, exampleNode "result" (.copy "q")]
  calls := []

/-- `A(c1) = B()` or `A(c1)`, with a parameter that is not null and is called like a context. -/
def meetingCaller : FunctionValues where
  owner := "A"
  parameters := ["c1"]
  model := exampleModel [exampleNode "again" (.unknown "CALL"), exampleNode "b" (.unknown "CALL"),
    exampleNode "c1" .nonNull, exampleNode "result" (.join ["again", "b"])]
  calls := [⟨"b", "B", []⟩, ⟨"again", "A", ["c1"]⟩]

/-- `B() = null`, by way of a definition that is called `incoming`. -/
def meetingCallee : FunctionValues where
  owner := "B"
  parameters := []
  model := exampleModel [exampleNode "incoming" .null, exampleNode "result" (.copy "incoming")]
  calls := []

def exampleQuery : ValueQuery := ⟨"result", 4096, 4096⟩

/-- Whether the result of `A` is reported as non-null. -/
def reportsNonNull (functions : List FunctionValues) : Bool :=
  match expand ⟨"", ""⟩ functions "A" "result" 32 4096 with
  | .error _ => false
  | .ok expanded =>
    match analyze expanded.model exampleQuery with
    | .error _ => false
    | .ok result => result.observations.any fun o ↦
      o.id = "result" && o.normalValueNullness = .nonNull

theorem exists_of_reportsNonNull {functions : List FunctionValues}
    (h : reportsNonNull functions = true) :
    ∃ expanded result o, expand ⟨"", ""⟩ functions "A" "result" 32 4096 = .ok expanded ∧
      analyze expanded.model exampleQuery = .ok result ∧ o ∈ result.observations ∧
      o.id = "result" ∧ o.normalValueNullness = .nonNull := by
  rw [reportsNonNull] at h
  split at h
  · cases h
  · rename_i expanded hexpand
    split at h
    · cases h
    · rename_i result hanalyze
      obtain ⟨o, ho, hboth⟩ := any_eq_true.mp h
      have hreport : o.id = "result" ∧ o.normalValueNullness = .nonNull := by simpa using hboth
      exact ⟨expanded, result, o, hexpand, hanalyze, ho, hreport⟩

/-- The recursive program is expanded, its result is reported as non-null, and it is. -/
theorem analyze_expand_sound_recursive :
    reportsNonNull [exampleCaller, exampleIdentity] = true ∧
      ∀ v, Possible [exampleCaller, exampleIdentity] (.entry exampleCaller) "result" v →
        v = .nonNull := by
  have hreports : reportsNonNull [exampleCaller, exampleIdentity] = true := by decide +kernel
  obtain ⟨expanded, result, o, hexpand, hanalyze, ho, hid, hnonNull⟩ :=
    exists_of_reportsNonNull hreports
  have hplain : ∀ f ∈ [exampleCaller, exampleIdentity], ∀ n ∈ f.model.nodes, Plain n.id := by
    unfold Plain
    decide
  have hnames : ¬NamesMeet [exampleCaller, exampleIdentity] "A" "result" 32 := by
    rintro ⟨-, -, hincoming⟩
    revert hincoming
    decide
  have hsound := analyze_expand_sound hplain hnames hexpand hanalyze ho hid mem_cons_self rfl
  exact ⟨hreports, hsound.2 hnonNull⟩

/-- Where the names meet, what the parameter was takes the place of the null in `B`: the result is
reported as non-null, but may be null. -/
theorem analyze_expand_meeting :
    (∀ f ∈ [meetingCaller, meetingCallee], ∀ n ∈ f.model.nodes, Plain n.id) ∧
      (∃ expanded result o,
        expand ⟨"", ""⟩ [meetingCaller, meetingCallee] "A" "result" 32 4096 = .ok expanded ∧
        analyze expanded.model exampleQuery = .ok result ∧ o ∈ result.observations ∧
        o.id = "result" ∧ o.normalValueNullness = .nonNull) ∧
      Possible [meetingCaller, meetingCallee] (.entry meetingCaller) "result" .null := by
  refine ⟨by unfold Plain; decide, exists_of_reportsNonNull (by decide +kernel), ?_⟩
  have hb : Possible [meetingCaller, meetingCallee]
      (.call (.entry meetingCaller) ⟨"b", "B", []⟩ meetingCallee) "incoming" .null :=
    .null ⟨⟨exampleNode "incoming" .null, mem_cons_self, rfl, rfl⟩, fun _ h ↦ (nomatch h),
      fun h ↦ nomatch h⟩
  have hresult : Possible [meetingCaller, meetingCallee]
      (.call (.entry meetingCaller) ⟨"b", "B", []⟩ meetingCallee) "result" .null :=
    .copy ⟨⟨exampleNode "result" (.copy "incoming"), by decide, rfl, rfl⟩, fun _ h ↦ (nomatch h),
      fun h ↦ nomatch h⟩ hb
  have hcall : Possible [meetingCaller, meetingCallee] (.entry meetingCaller) "b" .null :=
    .result (c := ⟨"b", "B", []⟩) mem_cons_self (by decide) rfl hresult
  exact .join ⟨⟨exampleNode "result" (.join ["again", "b"]), by decide,
    rfl, rfl⟩, by decide, fun h ↦ h⟩ (by decide) hcall

end Examples

end Codeclew.Values
