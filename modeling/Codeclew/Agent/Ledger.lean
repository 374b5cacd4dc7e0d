import Codeclew.Agent.Accounts

/-!
# A ledger under a stop-loss

What the accounting is for, without files and names: slots that are opened at their maximum, taken
up once, and closed at what they cost. `Slots.Step` says what one change of a ledger may do, and
what holds of a ledger follows from it: as long as no bound is violated, all that is charged stays
below the stop-loss.
-/

namespace Codeclew.Agent

open Option

/-! ## One slot -/

/-- The ways of a status; `none` is a slot that is not there. -/
inductive Status.Moves : Option Status → Option Status → Prop
  | stay (status : Option Status) : Moves status status
  | reserve : Moves none (some .reserved)
  | dispatch : Moves (some .reserved) (some .dispatched)
  | reconcile : Moves (some .dispatched) (some .reconciled)
  | retain : Moves (some .dispatched) (some .unreconciledMaximumRetained)
  | violate : Moves (some .dispatched) (some .boundViolated)
  | release : Moves (some .reserved) (some .releasedNotDispatched)

/-- The outcome of a call: it is violated where the charge is over the maximum, and closed. -/
theorem of_reconciliation {maximum charged : Amount} {usage : Option Usage} {overhead : UInt64}
    {status : Status} {violated : Bool}
    (h : reconciliation maximum usage overhead = .ok (charged, status, violated)) :
    (¬charged.Within maximum ↔ status = .boundViolated) ∧
      (violated = true ↔ status = .boundViolated) ∧
      (status = .boundViolated ∨ status = .unreconciledMaximumRetained ∨ status = .reconciled) := by
  obtain ⟨actualInput, -, h⟩ := bind_eq_ok_iff.mp h
  simp only [pure, Except.pure, Except.ok.injEq, Prod.mk.injEq] at h
  obtain ⟨rfl, rfl, rfl⟩ := h
  split_ifs with hwithin hmissing
  · simp [hwithin]
  · simp [hwithin]
  · simp [hwithin]

namespace Slot

/-- What may become of a slot. -/
inductive Moves : Option Slot → Option Slot → Prop
  | stay (s : Option Slot) : Moves s s
  | reserve (maximum : Amount) : Moves none (some ⟨maximum, maximum, .reserved, none⟩)
  | dispatch {s : Slot} (h : s.status = .reserved) :
      Moves (some s) (some { s with status := .dispatched })
  | settle {s : Slot} {usage : Option Usage} {overhead : UInt64} {charged : Amount}
    {status : Status}
      {violated : Bool} (h : s.status = .dispatched)
      (hreconciliation :
        reconciliation s.maximum usage overhead = .ok (charged, status, violated)) :
      Moves (some s) (some ⟨s.maximum, charged, status, usage⟩)
  | release {s : Slot} (h : s.status = .reserved) :
      Moves (some s) (some { s with status := .releasedNotDispatched, charged := .zero })

theorem Moves.status {s s' : Option Slot} (h : Moves s s') :
    Status.Moves (s.map Slot.status) (s'.map Slot.status) := by
  cases h with
  | stay s => exact .stay _
  | reserve maximum => exact .reserve
  | dispatch h => simpa [h] using Status.Moves.dispatch
  | release h => simpa [h] using Status.Moves.release
  | settle h hreconciliation =>
    obtain ⟨-, -, rfl | rfl | rfl⟩ := of_reconciliation hreconciliation
    · simpa [h] using Status.Moves.violate
    · simpa [h] using Status.Moves.retain
    · simpa [h] using Status.Moves.reconcile

/-- The invariant of a slot. -/
structure Sane (s : Slot) : Prop where
  exceeds_iff : ¬s.charged.Within s.maximum ↔ s.status = .boundViolated
  charged_eq : s.status = .reserved ∨ s.status = .dispatched → s.charged = s.maximum

variable {s : Slot}

theorem sane_of_eq (hcharged : s.charged = s.maximum) (hstatus : s.status ≠ .boundViolated) :
    s.Sane where
  exceeds_iff := by
    have hwithin : s.charged.Within s.maximum := Amount.within_iff.mpr (hcharged ▸ le_rfl)
    exact ⟨fun h ↦ absurd hwithin h, fun h ↦ absurd h hstatus⟩
  charged_eq _ := hcharged

theorem Moves.sane {s s' : Option Slot} (h : Moves s s') (hs : ∀ t, s = some t → t.Sane) {t' : Slot}
    (ht' : s' = some t') : t'.Sane := by
  cases h with
  | stay s => exact hs t' ht'
  | reserve maximum =>
    obtain rfl := Option.some.inj ht'
    exact sane_of_eq rfl nofun
  | @dispatch s h =>
    obtain rfl := Option.some.inj ht'
    exact sane_of_eq ((hs s rfl).charged_eq (.inl h)) nofun
  | @release s h =>
    obtain rfl := Option.some.inj ht'
    refine ⟨⟨fun hover ↦ absurd ?_ hover, nofun⟩, by rintro (h | h) <;> cases h⟩
    exact Amount.within_iff.mpr (by simp)
  | settle h hreconciliation =>
    obtain rfl := Option.some.inj ht'
    obtain ⟨hover, -, hstatus⟩ := of_reconciliation hreconciliation
    refine ⟨hover, ?_⟩
    rintro (h | h) <;> obtain rfl : _ = _ := h <;> rcases hstatus with h | h | h <;> cases h

/-- A slot is not charged more than before, unless its bound is violated now. -/
theorem Moves.charged_le {s t' : Slot} (h : Moves (some s) (some t')) (hs : s.Sane)
    (hviolated : t'.status ≠ .boundViolated) : t'.charged.cost ≤ s.charged.cost := by
  cases h with
  | stay => exact le_rfl
  | dispatch h => exact le_rfl
  | release h =>
    exact zero_le
  | settle h hreconciliation =>
    obtain ⟨hover, -, -⟩ := of_reconciliation hreconciliation
    rw [hs.charged_eq (.inr h)]
    exact Amount.within_iff.mp (not_not.mp fun hnot ↦ hviolated (hover.mp hnot))

variable {s' : Option Slot}

/-- A slot that is closed stays as it is. -/
theorem Moves.eq_of_closed (h : Moves (some s) s') (hreserved : s.status ≠ .reserved)
    (hdispatched : s.status ≠ .dispatched) : s' = some s := by
  cases h with
  | stay => rfl
  | dispatch h => exact absurd h hreserved
  | release h => exact absurd h hreserved
  | settle h _ => exact absurd h hdispatched

theorem Moves.ne_none (h : Moves (some s) s') : s' ≠ none := by
  rintro rfl
  cases h

/-- A slot that was taken up or closed is not open again. -/
theorem Moves.ne_reserved (h : Moves (some s) s') (hs : s.status ≠ .reserved) :
    s'.map Slot.status ≠ some .reserved := by
  have hstatus := h.status
  intro hreserved
  rw [hreserved, map_some] at hstatus
  generalize hstat : s.status = status at hstatus hs
  cases hstatus
  exact hs rfl

end Slot

/-! ## All slots -/

namespace Slots

/-- What a slot is charged; nothing, if it is not there. -/
def charge (slots : Slots) (id : String) : ℕ × ℕ × ℕ :=
  (slots[id]?.map fun s ↦ s.charged.cost).getD 0

/-- The sum of all charges, component by component. -/
def total (slots : Slots) : ℕ × ℕ × ℕ := ∑ id ∈ slots.keys.toFinset, slots.charge id

abbrev Violated (slots : Slots) : Prop :=
  ∃ (id : String) (s : Slot), slots[id]? = some s ∧ s.status = .boundViolated

/-- What one change of a ledger may do. -/
structure Step (stopLoss : Amount) (slots slots' : Slots) : Prop where
  moves : ∀ id : String, Slot.Moves slots[id]? slots'[id]?
  /-- With a violated bound nothing is opened or taken up. -/
  closed : slots.Violated → ∀ (id : String) (s : Slot), slots'[id]? = some s →
    s.status = .reserved ∨ s.status = .dispatched → slots[id]? = some s
  /-- Slots are added within the stop-loss only. -/
  covered : (∀ id : String, slots[id]? = none → slots'[id]? = none) ∨ slots'.total ≤ stopLoss.cost

theorem Step.refl (stopLoss : Amount) (slots : Slots) : Step stopLoss slots slots where
  moves _ := .stay _
  closed _ _ _ h _ := h
  covered := .inl fun _ ↦ id

/-- The invariant of a ledger. -/
structure Sound (stopLoss : Amount) (slots : Slots) : Prop where
  sane : ∀ (id : String) (s : Slot), slots[id]? = some s → s.Sane
  total_le : ¬slots.Violated → slots.total ≤ stopLoss.cost

variable {id : String}

theorem mem_keys_iff {slots : Slots} :
    id ∈ slots.keys.toFinset ↔ ∃ s : Slot, slots[id]? = some s := by
  rw [List.mem_toFinset, Std.ExtTreeMap.mem_keys, Std.ExtTreeMap.mem_iff_isSome_getElem?,
    isSome_iff_exists]

theorem sound_empty (stopLoss : Amount) : Sound stopLoss ∅ where
  sane _ _ h := nomatch h
  total_le _ := by
    have hkeys : (∅ : Slots).keys.toFinset = ∅ :=
      Finset.eq_empty_of_forall_notMem fun id hid ↦ nomatch (mem_keys_iff.mp hid).choose_spec
    rw [total, hkeys, Finset.sum_empty]
    exact zero_le

variable {slots slots' : Slots} {stopLoss : Amount}

section

variable (h : Step stopLoss slots slots')
include h

theorem Step.violated (hviolated : slots.Violated) :
    slots'.Violated := by
  obtain ⟨id, s, hs, hstatus⟩ := hviolated
  have hmove := h.moves id
  rw [hs] at hmove
  refine ⟨id, s, hmove.eq_of_closed ?_ ?_, hstatus⟩
  · rw [hstatus]
    nofun
  · rw [hstatus]
    nofun

/-- Where no slot is added and no bound is violated, the total does not grow. -/
theorem Step.total_le (hsound : Sound stopLoss slots) (hviolated : ¬slots'.Violated)
    (hkeys : ∀ id : String, slots[id]? = none → slots'[id]? = none) :
    slots'.total ≤ slots.total := by
  have hsame : slots'.keys.toFinset = slots.keys.toFinset := by
    ext id
    rw [mem_keys_iff, mem_keys_iff, ← ne_none_iff_exists', ← ne_none_iff_exists']
    refine ⟨fun hne hnone ↦ hne (hkeys id hnone), fun hne ↦ ?_⟩
    obtain ⟨s, hs⟩ := ne_none_iff_exists'.mp hne
    have hmove := h.moves id
    rw [hs] at hmove
    exact hmove.ne_none
  rw [total, total, hsame]
  refine Finset.sum_le_sum fun id hid ↦ ?_
  obtain ⟨s, hs⟩ := mem_keys_iff.mp hid
  obtain ⟨s', hs'⟩ := mem_keys_iff.mp (hsame ▸ hid)
  have hmove := h.moves id
  rw [hs, hs'] at hmove
  rw [charge, charge, hs, hs']
  exact hmove.charged_le (hsound.sane id s hs) fun hstatus ↦ hviolated ⟨id, s', hs', hstatus⟩

theorem Step.sound (hsound : Sound stopLoss slots) :
    Sound stopLoss slots' where
  sane id s' hs' := (h.moves id).sane (hsound.sane id) hs'
  total_le hviolated := by
    rcases h.covered with hkeys | hcovered
    · have hbefore : ¬slots.Violated := fun hbefore ↦ hviolated (h.violated hbefore)
      exact (h.total_le hsound hviolated hkeys).trans (hsound.total_le hbefore)
    · exact hcovered

end

/-! ## Changes of one slot -/

theorem getElem?_insert (slots : Slots) (id : String) (s : Slot) (id' : String) :
    (slots.insert id s)[id']? = if id = id' then some s else slots[id']? := by
  rw [Std.ExtTreeMap.getElem?_insert]
  simp only [Std.LawfulEqCmp.compare_eq_iff_eq]

theorem total_insert {slots : Slots} (h : slots[id]? = none) (s : Slot) :
    total (slots.insert id s) = slots.total + s.charged.cost := by
  have hkeys : (slots.insert id s).keys.toFinset = insert id slots.keys.toFinset := by
    ext id'
    rw [Finset.mem_insert, mem_keys_iff, mem_keys_iff, getElem?_insert]
    by_cases hid : id = id'
    · simp [hid]
    · simp [hid, Ne.symm hid]
  have hnew : id ∉ slots.keys.toFinset := fun hid ↦ by
    obtain ⟨s', hs'⟩ := mem_keys_iff.mp hid
    cases h.symm.trans hs'
  rw [total, hkeys, Finset.sum_insert hnew, add_comm]
  congr 1
  · refine Finset.sum_congr rfl fun id' hid' ↦ ?_
    have hne : id ≠ id' := fun hne ↦ hnew (hne ▸ hid')
    rw [charge, charge, getElem?_insert, if_neg hne]
  · rw [charge, getElem?_insert, if_pos rfl]
    rfl

/-- A slot that was there is replaced. -/
theorem Step.replace {slots : Slots} {s s' : Slot} (hs : slots[id]? = some s)
    (hmove : Slot.Moves (some s) (some s'))
    (hclosed : slots.Violated → s'.status = .reserved ∨ s'.status = .dispatched → s' = s) :
    Step stopLoss slots (slots.insert id s') where
  moves id' := by
    rw [getElem?_insert]
    split_ifs with hid
    · rw [← hid, hs]
      exact hmove
    · exact .stay _
  closed hviolated id' t ht hstatus := by
    rw [getElem?_insert] at ht
    split_ifs at ht with hid
    · obtain rfl := Option.some.inj ht
      rw [← hid, hs, hclosed hviolated hstatus]
    · exact ht
  covered := .inl fun id' hnone ↦ by
    rw [getElem?_insert, if_neg ?_]
    · exact hnone
    · rintro rfl
      cases hs.symm.trans hnone

end Slots

end Codeclew.Agent
