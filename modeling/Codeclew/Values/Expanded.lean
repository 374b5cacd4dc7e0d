import Codeclew.Values.Built

/-!
# Whole expansions

Each call keeps the layout or makes it grow, and so does a function with all of its calls. The only
condition is on the names of the entry's parameters, and only when the entry is expanded for its
result: then a recursive call is joined into them.
-/

namespace Codeclew.Values

open Std List

/-- No parameter of the entry is called like a context in which there is a definition `incoming`, or
no call is ever joined into the entry. -/
def Expansion.Fresh (x : Expansion) (entry : FunctionValues) : Prop :=
  x.entryTarget = "result" → ∀ k, 0 < k → k < x.maxContexts → "c" ++ toString k ∈ entry.parameters →
    ∀ f ∈ x.functions, ∀ n ∈ f.model.nodes, n.id ≠ "incoming"

theorem mem_zip_map_scopedId {k : ℕ} {ps as : List String} {p a : String}
    (h : (p, a) ∈ ps.zip as) :
    (p, scopedId k a) ∈ ps.zip (as.map (scopedId k)) := by
  rw [zip_map_right]
  exact mem_map.mpr ⟨(p, a), h, rfl⟩

/-- The frames of a stack are contexts of the layout. -/
def OnStack (l : Layout) (stack : List Builder.Frame) : Prop :=
  ∀ frame ∈ stack, ∃ g, l.contexts[frame.2.2]? = some (g, frame.2.1) ∧ g.owner = frame.1

theorem OnStack.mono {l l' : Layout} (hle : l ≤ l') {stack : List Builder.Frame}
    (h : OnStack l stack) : OnStack l' stack := by
  intro frame hframe
  obtain ⟨g, hg, howner⟩ := h frame hframe
  exact ⟨g, Layout.getElem?_of_le hle hg, howner⟩

section Runs

variable [Sha256] {x : Expansion} {entry : FunctionValues} {l : Layout} {b : Builder} {k : ℕ}
  {f : FunctionValues} {t : String}

variable {g : FunctionValues}

omit [Sha256] in
/-- What the parameters of a result's context were is kept apart from all definitions. -/
theorem apart_of_result (hx : x.Checked) (hfresh : x.Fresh entry)
    (hentry : l.contexts[0]? = some (entry, x.entryTarget)) {j : ℕ}
    (hj : l.contexts[j]? = some (g, "result")) {p : String} (hp : p ∈ g.parameters) :
    Apart x (scopedId j p) := by
  intro f hf n hn k hk heq
  obtain ⟨rfl, hk₀, rfl, hid⟩ := eq_of_scopedId_eq_incoming (hx.plain f hf n hn) heq
  rw [hentry, Option.some.injEq, Prod.mk.injEq] at hj
  obtain ⟨rfl, hresult⟩ := hj
  exact hfresh hresult k (Nat.pos_of_ne_zero hk₀) hk hp f hf n hn hid

/-- Arguments are joined into the parameters of an open context one by one. -/
theorem Built.joinParameters (h : Built x l b) (hx : x.Checked) {j : ℕ}
    (hj : l.contexts[j]? = some (g, t)) (hapart : ∀ p ∈ g.parameters, Apart x (scopedId j p))
    (pairs : List (String × String)) (hpairs : ∀ q ∈ pairs, q.1 ∈ g.parameters) :
    ∃ l', l ≤ l' ∧ Built x l' (pairs.foldl
        (fun b q ↦ b.joinParameter (scopedId j q.1) q.2) b) ∧
      ∀ q ∈ pairs, (scopedId j q.1, ValueOperation.copy q.2) ∈ l'.feeds := by
  induction pairs generalizing l b with
  | nil => exact ⟨l, Layout.le_refl l, h, fun q hq ↦ nomatch hq⟩
  | cons q pairs ih =>
    have hq : q.1 ∈ g.parameters := hpairs q mem_cons_self
    have hstep := h.joinParameter hx hj hq (hapart q.1 hq) q.2
    obtain ⟨l', hle, hbuilt, hfeeds⟩ := ih hstep hj fun q' hq' ↦
      hpairs q' (mem_cons_of_mem _ hq')
    have hgrown : l ≤ ⟨l.contexts, insert (scopedId j q.1, .copy q.2) l.feeds⟩ :=
      ⟨prefix_rfl, Set.subset_insert _ _⟩
    refine ⟨l', Layout.le_trans hgrown hle, hbuilt, ?_⟩
    intro q' hq'
    rcases mem_cons.mp hq' with rfl | hmem
    · exact hle.2 (Set.mem_insert _ _)
    · exact hfeeds q' hmem

variable {c : ExactValueCall}

/-- A recursive call is joined into the context that is open. -/
theorem Built.joinContext (h : Built x l b) (hx : x.Checked) (hk : l.contexts[k]? = some (f, t))
    (hc : c ∈ f.calls) (hrel : c.definition ∈ relevant f t) {j : ℕ}
    (hj : l.contexts[j]? = some (g, "result")) (hg : function? x.functions c.target = some g)
    (hapart : ∀ p ∈ g.parameters, Apart x (scopedId j p)) :
    ∃ l', l ≤ l' ∧ Built x l' (b.joinContext (scopedId k c.definition) j g
      (c.arguments.map (scopedId k))) := by
  obtain ⟨l', hle, hbuilt, hfeeds⟩ := h.joinParameters hx hj hapart
    (g.parameters.zip (c.arguments.map (scopedId k))) fun q hq ↦ (of_mem_zip hq).1
  have hlinked : Linked x l' k c (.copy (scopedId j "result")) :=
    .inr ⟨j, g, Layout.getElem?_of_le hle hj, hg, rfl, fun p a hpa ↦
      hfeeds (p, scopedId k a) (mem_zip_map_scopedId hpa)⟩
  exact ⟨l', hle, { hbuilt.answer hx (Layout.getElem?_of_le hle hk) hc hrel hlinked with }⟩

/-- A function that opens contexts: it adds one for the result of a function, with the arguments
bound to the parameters. -/
def Enters (x : Expansion) (l₀ : Layout)
    (enter : FunctionValues → List String → Builder → ℕ × Builder) : Prop :=
  ∀ l b g arguments, l₀ ≤ l → Built x l b → b.contexts < x.maxContexts → g ∈ x.functions →
    g.parameters.length = arguments.length →
    ∃ l', l ≤ l' ∧ Built x l' (enter g arguments b).2 ∧
      l'.contexts[(enter g arguments b).1]? = some (g, "result") ∧
      ∀ q ∈ g.parameters.zip arguments,
        (scopedId (enter g arguments b).1 q.1, ValueOperation.copy q.2) ∈ l'.feeds

variable {enter : FunctionValues → List String → Builder → ℕ × Builder} {stack : List Builder.Frame}

/-- One call, whatever becomes of it. -/
theorem Built.expandCall (h : Built x l b) (hx : x.Checked) (hfresh : x.Fresh entry)
    (hentry : l.contexts[0]? = some (entry, x.entryTarget)) {l₀ : Layout} (hl₀ : l₀ ≤ l)
    (henter : Enters x l₀ enter) (hstack : OnStack l stack) (hk : l.contexts[k]? = some (f, t))
    (hc : c ∈ f.calls) (hrel : c.definition ∈ relevant f t) :
    ∃ l', l ≤ l' ∧ Built x l' (b.expandCall x enter stack k c) := by
  have hunknown : ∀ {b' : Builder} (code : String), Built x l b' →
      Built x l (b'.unknown (scopedId k c.definition) code) := fun code hb' ↦
    hb'.answer hx hk hc hrel (.inl ⟨code, rfl⟩)
  rw [Builder.expandCall]
  split
  · exact ⟨l, Layout.le_refl l, hunknown _ h⟩
  · rename_i g hg
    obtain ⟨hgmem, howner⟩ := hx.function?_eq_some_iff.mp hg
    split
    · exact ⟨l, Layout.le_refl l, hunknown _ h⟩
    · split
      · rename_i owner target ancestor hfind
        obtain ⟨g', hg', howner'⟩ := hstack _ (mem_of_find?_eq_some hfind)
        have hframe : owner = c.target ∧ target = "result" := by
          simpa using List.find?_some hfind
        obtain ⟨rfl, rfl⟩ := hframe
        obtain rfl : g' = g := hx.eq_of_owner (h.mem_functions hg') hgmem
          (howner'.trans howner.symm)
        split
        · exact ⟨l, Layout.le_refl l, hunknown _ h⟩
        · exact h.joinContext hx hk hc hrel hg' hg fun p hp ↦
            apart_of_result hx hfresh hentry hg' hp
      · split
        · exact ⟨l, Layout.le_refl l, hunknown _ h⟩
        · rename_i hbudget
          obtain ⟨hprepared, -, -, -, hcontexts⟩ := h.prepare hx hgmem "result"
          dsimp only
          split
          · exact ⟨l, Layout.le_refl l, hunknown _ hprepared⟩
          · have harity : g.parameters.length = (c.arguments.map (scopedId k)).length := by
              rw [length_map]
              exact (hx.functions f (h.mem_functions hk)).arity c hc g hg
            obtain ⟨l', hle, hbuilt, hj, hfeeds⟩ := henter l _ g _ hl₀ hprepared
              (by rw [hcontexts]; omega) hgmem harity
            refine ⟨l', hle, hbuilt.answer hx (Layout.getElem?_of_le hle hk) hc hrel ?_⟩
            exact .inr ⟨_, g, hj, hg, rfl, fun p a hpa ↦
              hfeeds (p, scopedId k a) (mem_zip_map_scopedId hpa)⟩

/-- All calls of a context. -/
theorem Built.expandCalls (h : Built x l b) (hx : x.Checked) (hfresh : x.Fresh entry)
    (hentry : l.contexts[0]? = some (entry, x.entryTarget)) {l₀ : Layout} (hl₀ : l₀ ≤ l)
    (henter : Enters x l₀ enter) (hstack : OnStack l stack) (hk : l.contexts[k]? = some (f, t))
    {calls : List ExactValueCall} (hcalls : ∀ c ∈ calls, c ∈ f.calls ∧
      c.definition ∈ relevant f t) :
    ∃ l', l ≤ l' ∧ Built x l' (calls.foldl (Builder.expandCall x enter stack k) b) := by
  induction calls generalizing l b with
  | nil => exact ⟨l, Layout.le_refl l, h⟩
  | cons c calls ih =>
    obtain ⟨hc, hrel⟩ := hcalls c mem_cons_self
    obtain ⟨l₁, hle₁, hb₁⟩ := h.expandCall hx hfresh hentry hl₀ henter hstack hk hc hrel
    obtain ⟨l₂, hle₂, hb₂⟩ := ih hb₁ (Layout.getElem?_of_le hle₁ hentry)
      (Layout.le_trans hl₀ hle₁) (hstack.mono hle₁) (Layout.getElem?_of_le hle₁ hk)
      fun c' hc' ↦ hcalls c' (mem_cons_of_mem _ hc')
    exact ⟨l₂, Layout.le_trans hle₁ hle₂, hb₂⟩

/-- The calls that are expanded in a new context. -/
theorem Built.calls_openContext (h : Built x l b) (hx : x.Checked) (hf : f ∈ x.functions)
    (actuals : Option (List String)) : ∀ c ∈ (b.openContext x f actuals).1,
      c ∈ f.calls ∧ c.definition ∈ relevant f (x.selectedTarget b.contexts) := by
  obtain ⟨-, -, hcalls, -, -⟩ := h.prepare hx hf (x.selectedTarget b.contexts)
  intro c hc
  have hmem : c ∈ (b.prepare x f (x.selectedTarget b.contexts)).1.calls := hc
  rw [hcalls, Builder.summarize, mem_filter, decide_eq_true_eq] at hmem
  exact hmem

/-- A function with all of its calls. The depth is enough when it covers the contexts that may still
be opened. -/
theorem Built.instantiate (hx : x.Checked) (hfresh : x.Fresh entry) (depth : ℕ) (h : Built x l b)
    (hf : f ∈ x.functions) (hlt : b.contexts < x.maxContexts)
    (hdepth : x.maxContexts ≤ b.contexts + depth) {actuals : Option (List String)}
    (harity : ∀ arguments ∈ actuals, f.parameters.length = arguments.length)
    (hstack : OnStack l stack)
    (hentry : (l.withContext f (x.selectedTarget b.contexts) b.contexts actuals).contexts[0]?
      = some (entry, x.entryTarget)) :
    ∃ l', l.withContext f (x.selectedTarget b.contexts) b.contexts actuals ≤ l' ∧
      Built x l' (b.instantiate x depth f actuals stack).2 := by
  induction depth generalizing l b f actuals stack with
  | zero => omega
  | succ depth ih =>
    have hopened := h.openContext hx hf hlt harity
    set l₁ := l.withContext f (x.selectedTarget b.contexts) b.contexts actuals with hl₁
    have hthis : l₁.contexts[b.contexts]? = some (f, x.selectedTarget b.contexts) := by
      nth_rewrite 1 [h.count]
      exact Layout.getElem?_withContext_self
    have hframes : OnStack l₁ ((f.owner, x.selectedTarget b.contexts, b.contexts) :: stack) := by
      intro frame hframe
      rcases mem_cons.mp hframe with rfl | hmem
      · exact ⟨f, hthis, rfl⟩
      · exact hstack.mono Layout.le_withContext frame hmem
    refine hopened.expandCalls hx hfresh hentry (Layout.le_refl l₁) ?_ hframes hthis
      (h.calls_openContext hx hf actuals)
    -- a nested context has a number above this one, so one less is deep enough
    intro l₂ b₂ g arguments hle hb₂ hlt₂ hg harity₂
    have hcount : b.contexts + 1 ≤ b₂.contexts := by
      have hlen := hle.1.length_le
      rw [hb₂.count]
      simpa [hl₁, Layout.withContext, h.count] using hlen
    have htarget : x.selectedTarget b₂.contexts = "result" := if_neg (by omega)
    have hentry₂ : l₂.contexts[0]? = some (entry, x.entryTarget) :=
      Layout.getElem?_of_le hle hentry
    have harity₃ : ∀ bound ∈ some arguments, g.parameters.length = bound.length := by
      simpa using harity₂
    obtain ⟨l₃, hle₃, hb₃⟩ := ih hb₂ hg hlt₂ (by omega) harity₃ (hframes.mono hle)
      (Layout.getElem?_of_le Layout.le_withContext hentry₂)
    have hnew : (b₂.instantiate x depth g (some arguments)
        ((f.owner, x.selectedTarget b.contexts, b.contexts) :: stack)).1 = b₂.contexts := by
      cases depth <;> rfl
    refine ⟨l₃, Layout.le_trans Layout.le_withContext hle₃, hb₃, ?_, ?_⟩
    · rw [hnew]
      refine Layout.getElem?_of_le hle₃ ?_
      rw [← htarget, hb₂.count]
      exact Layout.getElem?_withContext_self
    · intro q hq
      rw [hnew]
      exact hle₃.2 (.inr ⟨q, hq, rfl⟩)

end Runs

end Codeclew.Values
