import Codeclew.Agent.Ledger

/-!
# The accounting never overspends

Every call on an account refines a step of its ledger (`Advance`), wherever it is cut off. The calls
of any number of runs, one after the other as the lock has it, are then steps of one ledger, of
which the invariants are known.
-/

namespace Codeclew.Agent

open Program Machine List
open Std (ExtTreeMap)

/-! ## The ledger of an account -/

/-- The slots of an account; none, if it was never saved. -/
def Root.slots (root : Root) (name : String) : Slots :=
  (root.accounts[name]?.map Account.slots).getD ∅

theorem getElem?_slots (account : Account) (id : String) :
    account.slots[id]? = account.reservations[id]?.map Reservation.slot := by
  rw [Account.slots, ExtTreeMap.getElem?_map]

theorem slots_insert (ledger : Account) (id : String) (r : Reservation) :
    ({ ledger with reservations := ledger.reservations.insert id r } : Account).slots =
      ledger.slots.insert id r.slot := by
  refine ExtTreeMap.ext_getElem? fun id' ↦ ?_
  rw [getElem?_slots, Slots.getElem?_insert, getElem?_slots, ExtTreeMap.getElem?_insert]
  simp only [Std.LawfulEqCmp.compare_eq_iff_eq]
  split_ifs with hid
  · rfl
  · rfl

theorem boundViolated_iff {ledger : Account} :
    BoundViolated ledger.reservations ↔ ledger.slots.Violated := by
  simp only [BoundViolated, mem_values, Slots.Violated, getElem?_slots, Option.map_eq_some_iff]
  constructor
  · rintro ⟨r, ⟨id, hr⟩, hstatus⟩
    exact ⟨id, r.slot, ⟨r, hr, rfl⟩, hstatus⟩
  · rintro ⟨id, -, ⟨r, hr, rfl⟩, hstatus⟩
    exact ⟨r, ⟨id, hr⟩, hstatus⟩

/-- The total of the slots is what the charges of all reservations add up to. -/
theorem total_slots (ledger : Account) :
    ledger.slots.total = ((values ledger.reservations).map (·.charged.cost)).sum := by
  have hkeys : ledger.slots.keys.toFinset = ledger.reservations.keys.toFinset := by
    ext id
    rw [Slots.mem_keys_iff, mem_toFinset, ExtTreeMap.mem_keys,
      ExtTreeMap.mem_iff_isSome_getElem?, getElem?_slots, Option.isSome_iff_exists]
    simp only [Option.map_eq_some_iff]
    exact ⟨fun ⟨_, r, hr, _⟩ ↦ ⟨r, hr⟩, fun ⟨r, hr⟩ ↦ ⟨_, r, hr, rfl⟩⟩
  rw [Slots.total, hkeys, sum_toFinset _ ExtTreeMap.nodup_keys,
    ← ExtTreeMap.map_fst_toList_eq_keys, values, map_map, map_map]
  congr 1
  refine map_congr_left fun entry hentry ↦ ?_
  have hget := ExtTreeMap.mem_toList_iff_getElem?_eq_some.mp hentry
  rw [Function.comp_apply, Slots.charge, getElem?_slots, hget]
  rfl

variable {root root' : Root} {budget : Budget} {ledger value : Account} {name id : String}
  {r r' : Reservation} {usage : Option Usage} {overhead : UInt64} {maximum charged : Amount}

/-! ## Refinement -/

/-- What may become of an account: it stays, or it is saved with the ledger a step further. -/
def Advance (root root' : Root) : Prop :=
  ∀ name : String, root'.accounts[name]? = root.accounts[name]? ∨
    ∃ saved, root'.accounts[name]? = some saved ∧
      (∀ before, root.accounts[name]? = some before → saved.stopLoss = before.stopLoss) ∧
      Slots.Step saved.stopLoss (root.slots name) saved.slots

theorem Advance.refl (root : Root) : Advance root root := fun _ ↦ .inl rfl

theorem Advance.of_accounts {root root' root'' : Root} (h : Advance root root')
    (haccounts : root''.accounts = root'.accounts) : Advance root root'' := by
  intro name
  rw [haccounts]
  exact h name

/-- The status of a reservation, if there is one. -/
def Root.status (root : Root) (name id : String) : Option Status :=
  (root.slots name)[id]?.map Slot.status

theorem slots_of_saved {saved : Account} (h : root.accounts[name]? = some saved) :
    root.slots name = saved.slots := by
  rw [Root.slots, h]
  rfl

theorem slots_of_none (h : root.accounts[name]? = none) :
    root.slots name = ∅ := by
  rw [Root.slots, h]
  rfl

/-- The ledgers of all accounts are sound. -/
def Root.Sound (root : Root) : Prop :=
  ∀ (name : String) (saved : Account), root.accounts[name]? = some saved →
    Slots.Sound saved.stopLoss saved.slots

section

variable (h : Advance root root')
include h

theorem Advance.slots (name : String) :
    root'.slots name = root.slots name ∨
      ∃ stopLoss, Slots.Step stopLoss (root.slots name) (root'.slots name) := by
  rcases h name with hsame | ⟨saved, hsaved, -, hstep⟩
  · exact .inl (by rw [Root.slots, Root.slots, hsame])
  · exact .inr ⟨saved.stopLoss, slots_of_saved hsaved ▸ hstep⟩

theorem Advance.moves (name id : String) :
    Slot.Moves (root.slots name)[id]? (root'.slots name)[id]? := by
  rcases h.slots name with hsame | ⟨stopLoss, hstep⟩
  · rw [hsame]
    exact .stay _
  · exact hstep.moves id

theorem Advance.closed (hviolated : (root.slots name).Violated) (id : String) (s : Slot)
    (hs : (root'.slots name)[id]? = some s)
    (hopen : s.status = .reserved ∨ s.status = .dispatched) :
    (root.slots name)[id]? = some s := by
  rcases h.slots name with hsame | ⟨stopLoss, hstep⟩
  · rwa [hsame] at hs
  · exact hstep.closed hviolated id s hs hopen

theorem Advance.sound (hsound : root.Sound) :
    root'.Sound := by
  intro name saved hsaved
  rcases h name with hsame | ⟨saved', hsaved', hstop, hstep⟩
  · exact hsound name saved (hsame ▸ hsaved)
  · obtain rfl := Option.some.inj (hsaved.symm.trans hsaved')
    refine hstep.sound ?_
    rcases hbefore : root.accounts[name]? with _ | before
    · rw [slots_of_none hbefore]
      exact Slots.sound_empty _
    · rw [slots_of_saved hbefore, hstop before hbefore]
      exact hsound name before hbefore

end

theorem violated_iff :
    (root.slots name).Violated ↔ ∃ id, root.status name id = some .boundViolated := by
  simp only [Slots.Violated, Root.status, Option.map_eq_some_iff]

/-- With a violated bound no reservation is added or dispatched. -/
theorem Advance.status_of_violated (h : Advance root root') (hviolated : (root.slots name).Violated)
    (id : String) :
    (root.status name id = none → root'.status name id = none) ∧
      (root'.status name id = some .dispatched → root.status name id = some .dispatched) := by
  constructor
  · intro hnone
    rw [Root.status, Option.map_eq_none_iff] at hnone
    rw [Root.status, Option.map_eq_none_iff, Option.eq_none_iff_forall_ne_some]
    intro s hs
    have hmove := h.moves name id
    rw [hnone, hs] at hmove
    cases hmove
    cases hnone.symm.trans (h.closed hviolated id _ hs (.inl rfl))
  · intro hdispatched
    obtain ⟨s, hs, hstatus⟩ := Option.map_eq_some_iff.mp hdispatched
    rw [Root.status, h.closed hviolated id s hs (.inr hstatus), Option.map_some, hstatus]

/-! ## Saving an account -/

theorem leaves_saveAccount_bind {R : Root → Prop} {α : Type}
    {g : Unit → Program Repository ClewError α} (hroot : R root)
    (h : Leaves (root.withAccount budget.account value) (g ()) R) :
    Leaves root (saveAccount budget value >>= g) R := by
  rw [saveAccount]
  simp only [bind_assoc]
  refine .require_bind hroot fun _ ↦ .lift_bind hroot fun path hpath ↦ ?_
  obtain ⟨-, hpath⟩ := ensure_bind_eq_ok_iff.mp hpath
  obtain rfl := Except.ok.inj hpath
  exact .write_bind hroot h

theorem leaves_saveAccount {R : Root → Prop} (hroot : R root)
    (h : R (root.withAccount budget.account value)) :
    Leaves root (saveAccount budget value) R := by
  have hbind := leaves_saveAccount_bind hroot (Leaves.pure (ε := ClewError) h ())
  exact fun machine hmachine ↦ by simpa using hbind machine hmachine

theorem getElem?_withAccount (root : Root) (name : String) (value : Account) (name' : String) :
    (root.withAccount name value).accounts[name']? =
      if name = name' then some value else root.accounts[name']? := by
  rw [Root.withAccount, ExtTreeMap.getElem?_insert]
  simp only [Std.LawfulEqCmp.compare_eq_iff_eq]

theorem saveAccount_of_fits (hlength : value.json.bytes.length ≤ accountMaxBytes)
    (hvalid : validId budget.account = true) (root : Root) (writes : ℕ) :
    saveAccount budget value ⟨root, writes + 1⟩ =
      (.ok (), ⟨root.withAccount budget.account value, writes⟩) := by
  have hpath : accountPath budget.account = .ok budget.account :=
    ensure_bind_eq_ok_iff.mpr ⟨hvalid, rfl⟩
  rw [saveAccount, require, if_pos hlength, hpath]
  rfl

theorem saveAccount_cases (budget : Budget) (value : Account) (machine : Repository) :
    (∃ error, saveAccount budget value machine = (.error error, machine)) ∨
      ∃ writes, saveAccount budget value machine =
        (.ok (), ⟨machine.disk.withAccount budget.account value, writes⟩) := by
  rw [saveAccount, require_bind]
  split_ifs
  · rw [accountPath, ensure]
    split_ifs
    · obtain ⟨disk, _ | writes⟩ := machine
      · exact .inl ⟨ioError, rfl⟩
      · exact .inr ⟨writes, rfl⟩
    · exact .inl ⟨_, rfl⟩
  · exact .inl ⟨_, rfl⟩

/-! ## Changes of a ledger -/

/-- The charges of an account, added up with the checks of the code. -/
theorem cost_foldlM_add {amounts : List Amount} {a total : Amount}
    (h : amounts.foldlM Amount.add a = .ok total) :
    total.cost = a.cost + (amounts.map Amount.cost).sum := by
  induction amounts generalizing a with
  | nil =>
    obtain rfl := Except.ok.inj h
    simp
  | cons b amounts ih =>
    rw [foldlM_cons] at h
    obtain ⟨c, hc, h⟩ := bind_eq_ok_iff.mp h
    rw [ih h, Amount.cost_add hc, map_cons, sum_cons, add_assoc]

/-- A ledger that has grown by open slots, and its total. -/
structure Grew (ledger : Account) (reservations : ExtTreeMap String Reservation compare)
    (total : Amount) : Prop where
  slot : ∀ id : String, ({ ledger with reservations } : Account).slots[id]? = ledger.slots[id]? ∨
    ledger.slots[id]? = none ∧ ∃ maximum,
      ({ ledger with reservations } : Account).slots[id]? = some ⟨maximum, maximum, .reserved, none⟩
  cost_eq : total.cost = ({ ledger with reservations } : Account).slots.total

theorem Grew.reserveCall [Sha256] {run : String}
    {state state' : ExtTreeMap String Reservation compare × Amount × List String}
    {call : String × Amount × ℕ} (h : Grew ledger state.1 state.2.1)
    (hcall : Agent.reserveCall run state call = .ok state') : Grew ledger state'.1 state'.2.1 := by
  obtain ⟨reservations, total, ids⟩ := state
  obtain ⟨role, maximum, ordinal⟩ := call
  obtain ⟨hnew, hcall⟩ := ensure_bind_eq_ok_iff.mp hcall
  obtain ⟨total', htotal, hcall⟩ := bind_eq_ok_iff.mp hcall
  obtain rfl := Except.ok.inj hcall
  have hnone : ({ ledger with reservations } : Account).slots[reservationId run role ordinal]? =
      none := by
    rw [getElem?_slots, Option.map_eq_none_iff]
    exact ExtTreeMap.getElem?_eq_none hnew
  have hslots := slots_insert { ledger with reservations } (reservationId run role ordinal)
    ⟨run, role, maximum, maximum, .reserved, none⟩
  constructor
  · intro id
    simp only at hslots ⊢
    rw [hslots, Slots.getElem?_insert]
    split_ifs with hid
    · subst hid
      refine .inr ⟨?_, maximum, rfl⟩
      rcases h.slot (reservationId run role ordinal) with hsame | ⟨hbefore, -⟩
      · exact hsame.symm.trans hnone
      · exact hbefore
    · exact h.slot id
  · simp only at hslots ⊢
    rw [hslots, Slots.total_insert hnone, Amount.cost_add htotal, h.cost_eq]
    rfl

/-- The calls of a run are reserved within the stop-loss. -/
theorem step_reserveCalls [Sha256] {config : Config} {run : String}
    {reservations : ExtTreeMap String Reservation compare} {ids : List String}
    (hviolated : ¬ledger.slots.Violated)
    (h : reserveCalls config run ledger = .ok (reservations, ids)) :
    Slots.Step ledger.stopLoss ledger.slots ({ ledger with reservations } : Account).slots := by
  obtain ⟨total, htotal, h⟩ := bind_eq_ok_iff.mp h
  obtain ⟨⟨reservations', total', ids'⟩, hcalls, h⟩ := bind_eq_ok_iff.mp h
  obtain ⟨hwithin, h⟩ := ensure_bind_eq_ok_iff.mp h
  obtain ⟨rfl, rfl⟩ := Prod.mk.inj (Except.ok.inj h)
  have hstart : Grew ledger ledger.reservations total := by
    refine ⟨fun _ ↦ .inl rfl, ?_⟩
    rw [cost_foldlM_add htotal, total_slots, map_map, Amount.cost_zero, zero_add]
    rfl
  have hgrew : Grew ledger reservations' total' :=
    of_foldlM_eq_ok (P := fun state ↦ Grew ledger state.1 state.2.1)
      (fun _ _ _ hstate hcall ↦ hstate.reserveCall hcall) hstart hcalls
  refine ⟨fun id ↦ ?_, fun h ↦ absurd h hviolated, .inr ?_⟩
  · rcases hgrew.slot id with hsame | ⟨hbefore, maximum, hafter⟩
    · rw [hsame]
      exact .stay _
    · rw [hbefore, hafter]
      exact .reserve maximum
  · rw [← hgrew.cost_eq]
    exact Amount.within_iff.mp hwithin

theorem moves_dispatch (h : r.status = .reserved) :
    Slot.Moves (some r.slot) (some ({ r with status := .dispatched } : Reservation).slot) :=
  .dispatch (s := r.slot) h

theorem settle_eq_ok {charged : Amount} {status : Status}
    (h : settle r usage charged status = .ok r') :
    (r.status = .dispatched ∧ r' = { r with charged, actual := usage, status }) ∨
      (r' = r ∧ r.charged = charged ∧ r.actual = usage ∧ r.status = status) := by
  rw [settle] at h
  split_ifs at h with hdispatched hsame
  · exact .inl ⟨hdispatched, (Except.ok.inj h).symm⟩
  · simp only [not_or, not_not] at hsame
    exact .inr ⟨(Except.ok.inj h).symm, hsame⟩

/-- A reservation that has the outcome of a call already is settled as it is. -/
theorem settle_of_slot_eq {status : Status} {violated : Bool}
    (hreconciliation : reconciliation maximum usage overhead = .ok (charged, status, violated))
    (hslot : r.slot = ⟨maximum, charged, status, usage⟩) :
    reconciliation r.maximum usage overhead = .ok (charged, status, violated) ∧
      settle r usage charged status = .ok r := by
  obtain ⟨rfl, rfl, rfl, rfl⟩ := Slot.mk.inj hslot
  obtain ⟨-, -, hstatus⟩ := of_reconciliation hreconciliation
  refine ⟨hreconciliation, ?_⟩
  rw [settle, if_neg, if_neg (by simp)]
  rcases hstatus with hstatus | hstatus | hstatus <;> rw [hstatus] <;> nofun

/-- Slots that were open are closed without a charge. -/
theorem step_releaseRun (ledger : Account) (run : String) :
    Slots.Step ledger.stopLoss ledger.slots
      ({ ledger with reservations := releaseRun run ledger.reservations } : Account).slots := by
  have hget (id : String) :
      ({ ledger with reservations := releaseRun run ledger.reservations } : Account).slots[id]? =
        ledger.reservations[id]?.map fun r ↦
          if r.run = run ∧ r.status = .reserved then (release r).slot else r.slot := by
    rw [getElem?_slots, releaseRun, ExtTreeMap.getElem?_map, Option.map_map]
    congr 1
    funext r
    exact apply_ite Reservation.slot _ _ _
  refine ⟨fun id ↦ ?_, fun _ id s hs hopen ↦ ?_, .inl fun id hnone ↦ ?_⟩
  · rw [hget, getElem?_slots]
    rcases ledger.reservations[id]? with _ | r
    · exact .stay none
    · simp only [Option.map_some]
      split_ifs with hrelease
      · exact .release (s := r.slot) hrelease.2
      · exact .stay _
  · rw [hget, Option.map_eq_some_iff] at hs
    obtain ⟨r, hr, rfl⟩ := hs
    rw [getElem?_slots, hr, Option.map_some]
    split_ifs at hopen ⊢ with hrelease
    · rcases hopen with hopen | hopen <;> cases hopen
    · rfl
  · rw [getElem?_slots, Option.map_eq_none_iff] at hnone
    rw [hget, hnone]
    rfl

section Calls

variable [YamlReader]

/-! ## The calls -/

theorem account_eq_ok (h : account root budget = .ok ledger) :
    validId budget.account = true ∧ ledger.slots = root.slots budget.account ∧
      ledger.stopLoss = budget.stopLoss ∧
      ∀ saved, root.accounts[budget.account]? = some saved → saved.stopLoss = budget.stopLoss := by
  obtain ⟨path, hpath, h⟩ := bind_eq_ok_iff.mp h
  obtain ⟨hvalid, hpath⟩ := ensure_bind_eq_ok_iff.mp hpath
  obtain rfl := Except.ok.inj hpath
  obtain ⟨-, h⟩ := ensure_bind_eq_ok_iff.mp h
  rw [Root.slots]
  split at h
  · next saved hsaved =>
    split at h
    · cases h
    · next a hread =>
      obtain ⟨⟨-, -, -, hstop⟩, h⟩ := ensure_bind_eq_ok_iff.mp h
      obtain rfl := Except.ok.inj h
      rw [hsaved]
      refine ⟨hvalid, YamlReader.slots_readAccount hread, hstop, ?_⟩
      intro before hbefore
      obtain rfl := Option.some.inj hbefore
      rw [← hstop, YamlReader.stopLoss_readAccount hread]
  · next hnone =>
    obtain rfl := Except.ok.inj h
    rw [hnone]
    refine ⟨hvalid, ?_, rfl, nofun⟩
    refine ExtTreeMap.ext_getElem? fun id ↦ ?_
    rw [getElem?_slots]
    simp

/-- The account of a budget is saved; it may have been saved before, by the same call. -/
theorem advance_insert (hledger : account root budget = .ok ledger)
    (hstop : value.stopLoss = ledger.stopLoss)
    (hstep : Slots.Step ledger.stopLoss ledger.slots value.slots)
    (hvalue : root'.accounts[budget.account]? = some value)
    (hothers : ∀ name : String, name ≠ budget.account →
      root'.accounts[name]? = root.accounts[name]?) : Advance root root' := by
  obtain ⟨-, hslots, hbudget, hsaved⟩ := account_eq_ok hledger
  intro name
  by_cases hname : name = budget.account
  · subst hname
    refine .inr ⟨value, hvalue, fun before hbefore ↦ ?_, ?_⟩
    · rw [hstop, hbudget, hsaved before hbefore]
    · rw [← hslots, hstop]
      exact hstep
  · exact .inl (hothers name hname)

/-- The account that was read is changed by a step and saved. -/
theorem advance_save (hledger : account root budget = .ok ledger)
    (hstop : value.stopLoss = ledger.stopLoss)
    (hstep : Slots.Step ledger.stopLoss ledger.slots value.slots) :
    Advance root (root.withAccount budget.account value) := by
  refine advance_insert hledger hstop hstep ?_ fun name hname ↦ ?_
  · rw [getElem?_withAccount, if_pos rfl]
  · rw [getElem?_withAccount, if_neg (Ne.symm hname)]

theorem leaves_reserve [Sha256] (root : Root) (config : Config) (run : String)
    (reviewRetry : Bool) :
    Leaves root (reserveWithAccountGuard config run reviewRetry) (Advance root) := by
  have hroot := Advance.refl root
  refine .lift_bind hroot fun _ _ ↦ .read_bind hroot fun ledger hledger ↦ ?_
  -- the account is saved as it is, and again with the reservations
  have hsaved := advance_save hledger rfl (.refl _ _)
  have hreserve : Leaves root (do
      saveAccount config.budget ledger
      require (¬BoundViolated ledger.reservations) boundViolatedError
      let calls ← lift (reserveCalls config run ledger)
      saveAccount config.budget { ledger with reservations := calls.1 }
      pure calls.2) (Advance root) := by
    refine leaves_saveAccount_bind hroot (.require_bind hsaved fun hviolated ↦ ?_)
    refine .lift_bind hsaved fun calls hcalls ↦ ?_
    rw [boundViolated_iff] at hviolated
    refine leaves_saveAccount_bind hsaved (.pure ?_ calls.2)
    have hstep := step_reserveCalls hviolated hcalls
    refine advance_insert hledger (by rfl) hstep ?_ fun name hname ↦ ?_
    · rw [getElem?_withAccount, if_pos rfl]
    · rw [getElem?_withAccount, if_neg (Ne.symm hname), getElem?_withAccount,
        if_neg (Ne.symm hname)]
  cases reviewRetry with
  | false => exact hreserve
  | true =>
    refine .require_bind hroot fun _ ↦ ?_
    split_ifs with hfull
    · exact .lift_bind hroot fun _ _ ↦ .pure hroot _
    · exact hreserve

/-- The change of one reservation. -/
theorem advance_saveReservation (hledger : account root budget = .ok ledger)
    (hr : ledger.reservations[id]? = some r) (hmove : Slot.Moves (some r.slot) (some r'.slot))
    (hclosed : ledger.slots.Violated → r'.status = .reserved ∨ r'.status = .dispatched →
      r'.slot = r.slot) :
    Advance root (root.withAccount budget.account
      { ledger with reservations := ledger.reservations.insert id r' }) := by
  refine advance_save hledger rfl ?_
  rw [slots_insert]
  refine Slots.Step.replace ?_ hmove hclosed
  rw [getElem?_slots, hr]
  rfl

theorem leaves_dispatch (root : Root) (budget : Budget) (run role : String) :
    Leaves root (dispatch budget run role) (Advance root) := by
  have hroot := Advance.refl root
  refine .read_bind hroot fun ledger hledger ↦ .require_bind hroot fun hviolated ↦ ?_
  rw [boundViolated_iff] at hviolated
  split
  · exact .fail hroot _
  · next id r hfind =>
    have hmem := ExtTreeMap.mem_toList_iff_getElem?_eq_some.mp (mem_of_find?_eq_some hfind)
    have hfound := List.find?_some hfind
    have hreserved := of_decide_eq_true hfound
    refine leaves_saveAccount_bind hroot (.pure ?_ id)
    exact advance_saveReservation hledger hmem (moves_dispatch hreserved.2.2) fun h ↦
      absurd h hviolated

theorem leaves_dispatchReserved (root : Root) (budget : Budget) (id run role : String) :
    Leaves root (dispatchReserved budget id run role) (Advance root) := by
  have hroot := Advance.refl root
  refine .read_bind hroot fun ledger hledger ↦ .require_bind hroot fun hviolated ↦ ?_
  rw [boundViolated_iff] at hviolated
  split
  · exact .fail hroot _
  · next r hr =>
    refine .require_bind hroot fun hreserved ↦ leaves_saveAccount hroot ?_
    exact advance_saveReservation hledger hr (moves_dispatch hreserved.2.2) fun h ↦
      absurd h hviolated

theorem leaves_reconcile (root : Root) (budget : Budget) (id : String) (usage : Option Usage)
    (overhead : UInt64) : Leaves root (reconcile budget id usage overhead) (Advance root) := by
  have hroot := Advance.refl root
  refine .read_bind hroot fun ledger hledger ↦ ?_
  split
  · exact .fail hroot _
  · next r hr =>
    refine .lift_bind hroot fun ⟨charged, status, violated⟩ hreconciliation ↦ ?_
    refine .lift_bind hroot fun r' hsettle ↦ leaves_saveAccount_bind hroot ?_
    have hsaved : Advance root (root.withAccount budget.account
        { ledger with reservations := ledger.reservations.insert id r' }) := by
      obtain ⟨-, -, hstatus⟩ := of_reconciliation hreconciliation
      rcases settle_eq_ok hsettle with ⟨hdispatched, rfl⟩ | ⟨rfl, -⟩
      · refine advance_saveReservation hledger hr
          (.settle (s := r.slot) hdispatched hreconciliation) fun _ hopen ↦ ?_
        rcases hstatus with rfl | rfl | rfl <;> rcases hopen with hopen | hopen <;> cases hopen
      · exact advance_saveReservation hledger hr (.stay _) fun _ _ ↦ rfl
    have hrequire := Leaves.require_bind (e := violationError) hsaved
      fun _ : violated = false ↦ Leaves.pure hsaved ()
    exact fun machine hmachine ↦ by simpa using hrequire machine hmachine

theorem leaves_releaseUnused (root : Root) (budget : Budget) (run : String) :
    Leaves root (releaseUnused budget run) (Advance root) := by
  have hroot := Advance.refl root
  refine .read_bind hroot fun ledger hledger ↦ leaves_saveAccount hroot ?_
  exact advance_save hledger (by rfl) (step_releaseRun ledger run)

theorem leaves_saveReport {root current : Root} (hcurrent : Advance root current)
    (report : RunReport) : Leaves current (saveReport report) (Advance root) := by
  refine .require_bind hcurrent fun _ ↦ .require_bind hcurrent fun _ ↦ .write_bind hcurrent ?_
  exact .write (hcurrent.of_accounts rfl) (hcurrent.of_accounts rfl)

theorem leaves_recordAccounting {root current : Root} (hcurrent : Advance root current)
    (report : RunReport) (accounting : Json) :
    Leaves current (recordAccounting report accounting) (Advance root) := by
  rw [recordAccounting]
  split_ifs
  · exact (leaves_saveReport hcurrent _).bind_pure fun _ ↦ _
  · exact .pure hcurrent _

theorem leaves_completeTerminalAccounting [Sha256] (root : Root) (config : Config)
    (report : RunReport) :
    Leaves root (completeTerminalAccounting config report) (Advance root) := by
  have hroot := Advance.refl root
  refine .read_bind hroot fun ledger hledger ↦ .require_bind hroot fun _ ↦ ?_
  refine .lift_bind hroot fun _ _ ↦ .require_bind hroot fun _ ↦ ?_
  rw [whenever]
  split_ifs with hchanged
  · refine leaves_saveAccount_bind hroot (leaves_recordAccounting ?_ report _)
    exact advance_save hledger (by rfl) (step_releaseRun ledger report.run)
  · exact leaves_recordAccounting hroot report _

/-! ## The system -/

/-- The calls that runs make, with any arguments. -/
inductive Call where
  | reserve (config : Config) (run : String)
  | ensureReserved (seen : Root) (config : Config) (run : String)
  | reserveReviewRetry (config : Config) (run : String)
  | reserveExpandingReviewRetry (config : Config) (run : String)
  | dispatch (budget : Budget) (run role : String)
  | dispatchReserved (budget : Budget) (id run role : String)
  | reconcile (budget : Budget) (id : String) (usage : Option Usage) (overhead : UInt64)
  | releaseUnused (budget : Budget) (run : String)
  | completeTerminalAccounting (config : Config) (report : RunReport)

def Call.run [Sha256] : Call → Program Repository ClewError Unit
  | reserve config run => discard (Agent.reserve config run)
  | ensureReserved seen config run => Agent.ensureReserved seen config run
  | reserveReviewRetry config run => Agent.reserveReviewRetry config run
  | reserveExpandingReviewRetry config run => Agent.reserveExpandingReviewRetry config run
  | dispatch budget run role => discard (Agent.dispatch budget run role)
  | dispatchReserved budget id run role => Agent.dispatchReserved budget id run role
  | reconcile budget id usage overhead => Agent.reconcile budget id usage overhead
  | releaseUnused budget run => Agent.releaseUnused budget run
  | completeTerminalAccounting config report =>
    discard (Agent.completeTerminalAccounting config report)

theorem leaves_run [Sha256] (root : Root) (call : Call) : Leaves root call.run (Advance root) := by
  have hroot := Advance.refl root
  cases call with
  | reserve config run => exact (leaves_reserve root config run false).discard
  | ensureReserved seen config run =>
    refine .lift_bind hroot fun ledger _ ↦ ?_
    dsimp only
    split_ifs
    · exact (leaves_reserve root config run false).discard
    · exact fun machine hmachine ↦ hmachine ▸ hroot
  | reserveReviewRetry config run =>
    exact .require_bind hroot fun _ ↦ (leaves_reserve root config run true).discard
  | reserveExpandingReviewRetry config run => exact (leaves_reserve root config run true).discard
  | dispatch budget run role => exact (leaves_dispatch root budget run role).discard
  | dispatchReserved budget id run role => exact leaves_dispatchReserved root budget id run role
  | reconcile budget id usage overhead => exact leaves_reconcile root budget id usage overhead
  | releaseUnused budget run => exact leaves_releaseUnused root budget run
  | completeTerminalAccounting config report =>
    exact (leaves_completeTerminalAccounting root config report).discard

/-- A call of some run, to its end or cut off after some of its writes. -/
def Step [Sha256] (root root' : Root) : Prop :=
  ∃ (call : Call) (writes : ℕ), (call.run ⟨root, writes⟩).2.disk = root'

/-- Any calls of any runs, one after the other. -/
def Steps [Sha256] : Root → Root → Prop := Relation.ReflTransGen Step

theorem Step.advance [Sha256] (h : Step root root') : Advance root root' := by
  obtain ⟨call, writes, rfl⟩ := h
  exact leaves_run root call ⟨root, writes⟩ rfl

/-! ## What holds along all calls -/

theorem Steps.sound [Sha256] {start root : Root} (hstart : start.accounts = ∅)
    (h : Steps start root) :
    root.Sound := by
  induction h with
  | refl =>
    intro name saved hsaved
    rw [hstart] at hsaved
    cases hsaved
  | tail _ hstep ih => exact hstep.advance.sound ih

/-- A slot that was taken up or closed stays so. -/
theorem Steps.ne_reserved [Sha256] (h : Steps root root') {name id : String}
    (hroot : root.status name id ≠ none ∧ root.status name id ≠ some .reserved) :
    root'.status name id ≠ none ∧ root'.status name id ≠ some .reserved := by
  induction h with
  | refl => exact hroot
  | tail _ hstep ih =>
    obtain ⟨s, hs⟩ :=
      Option.ne_none_iff_exists'.mp (fun hnone ↦ ih.1 (Option.map_eq_none_iff.mpr hnone))
    have hmove := hstep.advance.moves name id
    rw [hs] at hmove
    rw [Root.status, hs, Option.map_some] at ih
    refine ⟨fun hnone ↦ hmove.ne_none (Option.map_eq_none_iff.mp hnone), ?_⟩
    exact hmove.ne_reserved fun hreserved ↦ ih.2 (congrArg some hreserved)

/-- A closed slot keeps all it has. -/
theorem Steps.eq_of_closed [Sha256] (h : Steps root root') {name id : String} {s : Slot}
    (hs : (root.slots name)[id]? = some s) (hreserved : s.status ≠ .reserved)
    (hdispatched : s.status ≠ .dispatched) : (root'.slots name)[id]? = some s := by
  induction h with
  | refl => exact hs
  | tail _ hstep ih =>
    have hmove := hstep.advance.moves name id
    rw [ih] at hmove
    exact hmove.eq_of_closed hreserved hdispatched

theorem Steps.violated [Sha256] (h : Steps root root') (hviolated : (root.slots name).Violated) :
    (root'.slots name).Violated := by
  induction h with
  | refl => exact hviolated
  | tail _ hstep ih =>
    rcases hstep.advance.slots name with hsame | ⟨stopLoss, hslots⟩
    · rw [hsame]
      exact ih
    · exact hslots.violated ih

/-! ## Reconciling once more -/

/-- How a call ends that has saved the result. -/
def verdict (violated : Bool) : Except ClewError Unit :=
  if violated then .error violationError else .ok ()

/-- What a call reads and computes before it saves. -/
structure Reconciles (root : Root) (budget : Budget) (id : String) (usage : Option Usage)
    (overhead : UInt64) (ledger : Account) (r r' : Reservation) (violated : Bool) : Prop where
  account_eq : account root budget = .ok ledger
  reservation_eq : ledger.reservations[id]? = some r
  settled :
    ∃ charged status, reconciliation r.maximum usage overhead = .ok (charged, status, violated) ∧
    settle r usage charged status = .ok r'

variable {violated : Bool}

theorem Reconciles.reconcile_eq (h : Reconciles root budget id usage overhead ledger r r' violated)
    (writes : ℕ) :
    reconcile budget id usage overhead ⟨root, writes⟩ =
      (do
        saveAccount budget { ledger with reservations := ledger.reservations.insert id r' }
        require (violated = false) violationError : Program Repository ClewError Unit)
          ⟨root, writes⟩ := by
  obtain ⟨charged, status, hreconciliation, hsettle⟩ := h.settled
  rw [reconcile, read_bind, h.account_eq, lift_ok_bind, h.reservation_eq]
  simp only [hreconciliation, lift_ok_bind, hsettle]

theorem reconcile_cases (root : Root) (writes : ℕ) (budget : Budget) (id : String)
    (usage : Option Usage) (overhead : UInt64) :
    (reconcile budget id usage overhead ⟨root, writes⟩).2 = ⟨root, writes⟩ ∨
      ∃ ledger r r' violated writes',
        Reconciles root budget id usage overhead ledger r r' violated ∧
        reconcile budget id usage overhead ⟨root, writes⟩ =
          (verdict violated, ⟨root.withAccount budget.account
            { ledger with reservations := ledger.reservations.insert id r' }, writes'⟩) := by
  rcases haccount : account root budget with error | ledger
  · exact .inl (by rw [reconcile, read_bind, haccount]; rfl)
  rcases hr : ledger.reservations[id]? with _ | r
  · exact .inl (by rw [reconcile, read_bind, haccount, lift_ok_bind, hr]; rfl)
  rcases hreconciliation :
    reconciliation r.maximum usage overhead with error | ⟨charged, status, violated⟩
  · refine .inl ?_
    rw [reconcile, read_bind, haccount, lift_ok_bind, hr]
    simp only [hreconciliation]
    rfl
  rcases hsettle : settle r usage charged status with error | r'
  · refine .inl ?_
    rw [reconcile, read_bind, haccount, lift_ok_bind, hr]
    simp only [hreconciliation, lift_ok_bind, hsettle]
    rfl
  have hreconciles : Reconciles root budget id usage overhead ledger r r' violated :=
    ⟨haccount, hr, charged, status, hreconciliation, hsettle⟩
  rcases saveAccount_cases budget { ledger with reservations := ledger.reservations.insert id r' }
    ⟨root, writes⟩ with ⟨error, hsave⟩ | ⟨writes', hsave⟩
  · exact .inl (by rw [hreconciles.reconcile_eq, bind_of_error hsave])
  · refine .inr ⟨ledger, r, r', violated, writes', hreconciles, ?_⟩
    rw [hreconciles.reconcile_eq, bind_of_ok hsave, verdict, require]
    rcases violated with _ | _ <;> rfl

/-- The slot of a reservation that was reconciled: it is closed, and has the outcome. -/
theorem Reconciles.slot_eq (h : Reconciles root budget id usage overhead ledger r r' violated) :
    ∃ charged status, reconciliation r'.maximum usage overhead = .ok (charged, status, violated) ∧
      r'.slot = ⟨r'.maximum, charged, status, usage⟩ := by
  obtain ⟨charged, status, hreconciliation, hsettle⟩ := h.settled
  refine ⟨charged, status, ?_⟩
  rcases settle_eq_ok hsettle with ⟨-, rfl⟩ | ⟨rfl, rfl, rfl, rfl⟩
  · exact ⟨hreconciliation, rfl⟩
  · exact ⟨hreconciliation, rfl⟩

/-- Where the outcome of a call is in the account, the call reads it and saves the account as it
is. -/
theorem reconciles_again {status : Status}
    (hreconciliation : reconciliation maximum usage overhead = .ok (charged, status, violated))
    (hslot : (root.slots budget.account)[id]? = some ⟨maximum, charged, status, usage⟩)
    (hledger : account root budget = .ok ledger) :
    ∃ r, Reconciles root budget id usage overhead ledger r r violated := by
  obtain ⟨-, hslots, -, -⟩ := account_eq_ok hledger
  rw [← hslots, getElem?_slots, Option.map_eq_some_iff] at hslot
  obtain ⟨r, hr, hrslot⟩ := hslot
  exact ⟨r, hledger, hr, charged, status, settle_of_slot_eq hreconciliation hrslot⟩

/-- A call that is made again, any time after it was saved, changes nothing in the account; it ends
as it did before, unless the account cannot be read or saved. -/
theorem reconcile_again [Sha256] {root root' root'' : Root} {writes writes' : ℕ}
    {outcome : Except ClewError Unit}
    (hfirst : reconcile budget id usage overhead ⟨root, writes⟩ = (outcome, ⟨root', writes'⟩))
    (hsaved : writes' ≠ writes) (hsteps : Steps root' root'') (writes'' : ℕ) :
    (reconcile budget id usage overhead ⟨root'', writes''⟩).2.disk.slots budget.account =
        root''.slots budget.account ∧
      ∀ ledger, account root'' budget = .ok ledger → ledger.json.bytes.length ≤ accountMaxBytes →
        writes'' ≠ 0 → (reconcile budget id usage overhead ⟨root'', writes''⟩).1 = outcome := by
  rcases reconcile_cases root writes budget id usage overhead with
    hsame | ⟨ledger₀, r, r', violated, _, hreconciles, hrun⟩
  · rw [hfirst] at hsame
    exact absurd (congrArg Machine.writes hsame) hsaved
  rw [hfirst] at hrun
  obtain ⟨rfl, hmachine⟩ := Prod.mk.inj hrun
  obtain ⟨rfl, -⟩ := Machine.mk.inj hmachine
  -- the slot has the outcome from then on
  obtain ⟨charged, status, hreconciliation, hslot⟩ := hreconciles.slot_eq
  obtain ⟨-, -, hstatus⟩ := of_reconciliation hreconciliation
  have hthen : ((root.withAccount budget.account { ledger₀ with
      reservations := ledger₀.reservations.insert id r' }).slots budget.account)[id]? =
      some ⟨r'.maximum, charged, status, usage⟩ := by
    rw [slots_of_saved (by rw [getElem?_withAccount, if_pos rfl]), slots_insert,
      Slots.getElem?_insert, if_pos rfl, hslot]
  have hnow := hsteps.eq_of_closed hthen
    (by rcases hstatus with rfl | rfl | rfl <;> nofun)
    (by rcases hstatus with rfl | rfl | rfl <;> nofun)
  constructor
  · rcases reconcile_cases root'' writes'' budget id usage overhead with
      hsame | ⟨ledger, r₁, r₂, violated₁, writes₁, hreconciles₁, hrun₁⟩
    · rw [hsame]
    · obtain ⟨r₃, hagain⟩ := reconciles_again hreconciliation hnow hreconciles₁.account_eq
      obtain ⟨-, hslots, -, -⟩ := account_eq_ok hreconciles₁.account_eq
      obtain rfl := Option.some.inj (hagain.reservation_eq.symm.trans hreconciles₁.reservation_eq)
      obtain ⟨_, _, hrec₁, hsettle₁⟩ := hreconciles₁.settled
      obtain ⟨_, _, hrec₃, hsettle₃⟩ := hagain.settled
      obtain ⟨rfl, rfl, -⟩ := Prod.mk.injEq .. ▸ Except.ok.inj (hrec₁.symm.trans hrec₃)
      obtain rfl := Except.ok.inj (hsettle₁.symm.trans hsettle₃)
      rw [hrun₁, slots_of_saved (by rw [getElem?_withAccount, if_pos rfl]),
        insert_self hreconciles₁.reservation_eq]
      exact hslots
  · intro ledger hledger hlength hwrites
    obtain ⟨writes₁, rfl⟩ := Nat.exists_eq_succ_of_ne_zero hwrites
    obtain ⟨r₃, hagain⟩ := reconciles_again hreconciliation hnow hledger
    obtain ⟨hvalid, -, -, -⟩ := account_eq_ok hledger
    rw [hagain.reconcile_eq, insert_self hagain.reservation_eq,
      bind_of_ok (saveAccount_of_fits hlength hvalid root'' writes₁), verdict, require]
    rcases violated with _ | _ <;> rfl

/-! ## The account -/

/-- A reservation is dispatched. -/
def Dispatches (root root' : Root) (name id : String) : Prop :=
  root.status name id = some .reserved ∧ root'.status name id = some .dispatched

/-- The accounting never overspends. Along any calls of any runs, complete or cut off between two
saves: as long as no bound is violated, the charges add up to no more than the stop-loss; a charge
is over its maximum exactly where the bound is violated; statuses go their ways, so that a
reservation is dispatched at most once; with a violated bound no reservation is added or dispatched
any more; and to reconcile once more with the same result changes nothing. -/
theorem accounting_never_overspends [Sha256] {start root : Root} (hstart : start.accounts = ∅)
    (hreach : Steps start root) (name : String) :
    (∀ saved, root.accounts[name]? = some saved →
      ((∀ r ∈ values saved.reservations, r.status ≠ .boundViolated) →
        ((values saved.reservations).map (·.charged.cost)).sum ≤ saved.stopLoss.cost) ∧
      ∀ r ∈ values saved.reservations, ¬r.charged.Within r.maximum ↔ r.status = .boundViolated) ∧
    (∀ root', Step root root' → ∀ id,
      Status.Moves (root.status name id) (root'.status name id) ∧
      (Dispatches root root' name id → ∀ root₁ root₂, Steps root' root₁ → Step root₁ root₂ →
        ¬Dispatches root₁ root₂ name id)) ∧
    ((∃ id, root.status name id = some .boundViolated) →
      ∀ root₁ root₂, Steps root root₁ → Step root₁ root₂ → ∀ id,
        (root₁.status name id = none → root₂.status name id = none) ∧
        ¬Dispatches root₁ root₂ name id) ∧
    (∀ budget id usage overhead writes outcome root' writes', budget.account = name →
      reconcile budget id usage overhead ⟨root, writes⟩ = (outcome, ⟨root', writes'⟩) →
      writes' ≠ writes → ∀ root'' writes'', Steps root' root'' →
        (reconcile budget id usage overhead ⟨root'', writes''⟩).2.disk.slots name =
          root''.slots name ∧
        ∀ ledger, account root'' budget = .ok ledger → ledger.json.bytes.length ≤ accountMaxBytes →
          writes'' ≠ 0 → (reconcile budget id usage overhead ⟨root'', writes''⟩).1 = outcome) := by
  refine ⟨fun saved hsaved ↦ ?_, fun root' hstep id ↦
    ⟨?_, fun hdispatch root₁ root₂ h₁ _ hagain ↦ ?_⟩,
    fun hviolated root₁ root₂ h₁ hstep id ↦ ?_, ?_⟩
  · have hsound := hreach.sound hstart name saved hsaved
    refine ⟨fun hnone ↦ ?_, fun r hr ↦ ?_⟩
    · rw [← total_slots]
      refine hsound.total_le fun hviolated ↦ ?_
      obtain ⟨r, hr, hstatus⟩ := boundViolated_iff.mpr hviolated
      exact hnone r hr hstatus
    · obtain ⟨id, hid⟩ := mem_values.mp hr
      exact (hsound.sane id r.slot (by rw [getElem?_slots, hid]; rfl)).exceeds_iff
  · exact (hstep.advance.moves name id).status
  · have hopen : root'.status name id ≠ none ∧ root'.status name id ≠ some .reserved := by
      rw [hdispatch.2]
      exact ⟨nofun, nofun⟩
    exact (h₁.ne_reserved hopen).2 hagain.1
  · obtain ⟨hadded, hdispatched⟩ :=
      hstep.advance.status_of_violated (h₁.violated (violated_iff.mpr hviolated)) id
    refine ⟨hadded, fun hdispatches ↦ ?_⟩
    cases hdispatches.1.symm.trans (hdispatched hdispatches.2)
  · rintro budget id usage overhead writes outcome root' writes' rfl hfirst hsaved root''
      writes'' hsteps
    exact reconcile_again hfirst hsaved hsteps writes''

end Calls

section Examples

attribute [local instance] Sha256.standard

/-- A reader that reads every document as it was written. -/
@[reducible] def YamlReader.exact : YamlReader where
  readAccount := some
  reportLength _ := 0
  stopLoss_readAccount h := by rw [Option.some.inj h]
  slots_readAccount h := by rw [Option.some.inj h]

attribute [local instance] YamlReader.exact

def exampleRole : Role := ⟨"cli", "m", none, "TRANSPORT_METADATA", ⟨⟨10, 10, 1⟩, 2⟩⟩

/-- One call of an author and one of a reviewer. -/
def exampleConfig : Config where
  author := exampleRole
  reviewer := exampleRole
  fallback := none
  authorCalls := 1
  reviewerCalls := 1
  fallbackCalls := 0
  budget := ⟨"main", "eur", ⟨100, 100, 10⟩, ⟨50, 50, 5⟩⟩

def exampleStart : Root := ⟨∅, [], ∅, ∅⟩

def exampleReserved : Root :=
  ((Call.reserve exampleConfig "r").run ⟨exampleStart, 3⟩).2.disk

/-- Both calls are reserved, and the author is dispatched. -/
def exampleDispatched : Root :=
  ((Call.dispatch exampleConfig.budget "r" "author").run ⟨exampleReserved, 3⟩).2.disk

theorem accounting_never_overspends_dispatched :
    exampleDispatched.status "main" (reservationId "r" "author" 0) = some .dispatched ∧
      exampleDispatched.status "main" (reservationId "r" "reviewer" 0) = some .reserved ∧
      (∃ saved, exampleDispatched.accounts["main"]? = some saved ∧
        ((values saved.reservations).map (·.charged.cost)).sum ≤ saved.stopLoss.cost) ∧
      ∀ root', Step exampleDispatched root' →
        Status.Moves (some .reserved) (root'.status "main" (reservationId "r" "reviewer" 0)) := by
  have hauthor : exampleDispatched.status "main" (reservationId "r" "author" 0) =
      some .dispatched := by
    decide +kernel
  have hreviewer : exampleDispatched.status "main" (reservationId "r" "reviewer" 0) =
      some .reserved := by
    decide +kernel
  have hsaved : ∃ saved ∈ exampleDispatched.accounts["main"]?,
      ∀ r ∈ values saved.reservations, r.status ≠ .boundViolated := by
    decide +kernel
  have hreach : Steps exampleStart exampleDispatched :=
    (Relation.ReflTransGen.single ⟨.reserve exampleConfig "r", 3, rfl⟩).tail
      ⟨.dispatch exampleConfig.budget "r" "author", 3, rfl⟩
  obtain ⟨hspent, hmoves, -⟩ := accounting_never_overspends rfl hreach "main"
  obtain ⟨saved, hget, hnone⟩ := hsaved
  exact ⟨hauthor, hreviewer, ⟨saved, hget, (hspent saved hget).1 hnone⟩,
    fun root' hstep ↦ hreviewer ▸ (hmoves root' hstep _).1⟩

end Examples

end Codeclew.Agent
