import Mathlib

/-!
# Runs of writes to a map

A write puts a value under a key; some writes do so only if the key is there already. What a run of
writes leaves under one key depends on the writes to that key alone: `getElem?_run`. Once there is a
value under the key, it is the last of them that counts: `settle_some`.
-/

namespace Codeclew

open Std

variable {κ β : Type} [Ord κ] [DecidableEq κ] [TransOrd κ] [LawfulEqOrd κ]

/-- A value for a key, which may be meant for a key that is there already. -/
structure Write (κ β : Type) where
  key : κ
  value : β
  ifPresent : Bool

namespace Write

def apply (m : ExtTreeMap κ β compare) (w : Write κ β) : ExtTreeMap κ β compare :=
  if w.ifPresent ∧ w.key ∉ m then m else m.insert w.key w.value

/-- What a run of writes makes of a map. -/
def run (ws : List (Write κ β)) (m : ExtTreeMap κ β compare) : ExtTreeMap κ β compare :=
  ws.foldl apply m

/-- What a run of writes makes of what is under the key `k`. -/
def settle (k : κ) (ws : List (Write κ β)) (current : Option β) : Option β :=
  ws.foldl (fun current w ↦
    if w.key = k ∧ (w.ifPresent → current.isSome) then some w.value else current) current

omit [Ord κ] [TransOrd κ] [LawfulEqOrd κ] in
theorem settle_append (k : κ) (ws ws' : List (Write κ β)) (current : Option β) :
    settle k (ws ++ ws') current = settle k ws' (settle k ws current) :=
  List.foldl_append

omit [Ord κ] [TransOrd κ] [LawfulEqOrd κ] in
theorem settle_cons_always (k : κ) (v : β) (ws : List (Write κ β)) (current : Option β) :
    settle k (⟨k, v, false⟩ :: ws) current = settle k ws (some v) := by
  simp [settle]

theorem getElem?_apply (m : ExtTreeMap κ β compare) (w : Write κ β) (k : κ) :
    (apply m w)[k]?
      = if w.key = k ∧ (w.ifPresent → m[k]?.isSome) then some w.value else m[k]? := by
  rw [apply]
  by_cases hk : w.key = k
  · subst hk
    cases hp : w.ifPresent with
    | false => simp
    | true =>
      by_cases hm : w.key ∈ m
      · simp [hm]
      · simp [hm]
  · split
    · simp [hk]
    · simp [hk, ExtTreeMap.getElem?_insert]

/-- A run of writes is seen under each key on its own. -/
theorem getElem?_run (ws : List (Write κ β)) (m : ExtTreeMap κ β compare) (k : κ) :
    (run ws m)[k]? = settle k ws m[k]? := by
  induction ws generalizing m with
  | nil => rfl
  | cons w ws ih =>
    change (run ws (apply m w))[k]? = settle k ws _
    rw [ih, getElem?_apply]

/-- The last value that is written to `k`, if there is one. -/
def last (k : κ) (ws : List (Write κ β)) : Option β :=
  ((ws.filter (·.key = k)).getLast?).map (·.value)

omit [Ord κ] [TransOrd κ] [LawfulEqOrd κ] in
/-- Under a key that is there, the last write counts. -/
theorem settle_some (k : κ) (ws : List (Write κ β)) (v : β) :
    settle k ws (some v) = some ((last k ws).getD v) := by
  induction ws generalizing v with
  | nil => rfl
  | cons w ws ih =>
    have hstep : settle k (w :: ws) (some v) =
        settle k ws (some (if w.key = k then w.value else v)) := by
      change settle k ws _ = _
      by_cases hk : w.key = k <;> simp [hk]
    rw [hstep, ih]
    by_cases hk : w.key = k
    · rw [if_pos hk, last, last, List.filter_cons_of_pos (by simpa using hk), List.getLast?_cons]
      cases (ws.filter (·.key = k)).getLast? <;> rfl
    · rw [if_neg hk, last, last, List.filter_cons_of_neg (by simpa using hk)]

omit [Ord κ] [TransOrd κ] [LawfulEqOrd κ] in
/-- Writes that need the key do not put it there. -/
theorem settle_none {k : κ} {ws : List (Write κ β)}
    (h : ∀ w ∈ ws, w.key = k → w.ifPresent = true) : settle k ws none = none := by
  induction ws with
  | nil => rfl
  | cons w ws ih =>
    obtain ⟨hw, hws⟩ := List.forall_mem_cons.mp h
    have hstep : settle k (w :: ws) none = settle k ws none := by
      refine congrArg (settle k ws) (if_neg ?_)
      rintro ⟨hkey, hpresent⟩
      cases hpresent (hw hkey)
    rw [hstep, ih hws]

omit [Ord κ] [TransOrd κ] [LawfulEqOrd κ] in
theorem last_append (k : κ) (ws ws' : List (Write κ β)) :
    last k (ws ++ ws') = (last k ws').or (last k ws) := by
  rw [last, List.filter_append, List.getLast?_append, last, last]
  cases (ws'.filter (·.key = k)).getLast? <;> rfl

omit [Ord κ] [TransOrd κ] [LawfulEqOrd κ] in
theorem last_eq_none_iff {k : κ} {ws : List (Write κ β)} :
    last k ws = none ↔ ∀ w ∈ ws, w.key ≠ k := by
  simp [last]

omit [Ord κ] [TransOrd κ] [LawfulEqOrd κ] in
theorem mem_of_last_eq_some {k : κ} {ws : List (Write κ β)} {v : β} (h : last k ws = some v) :
    ∃ w ∈ ws, w.key = k ∧ w.value = v := by
  obtain ⟨w, hw, rfl⟩ := Option.map_eq_some_iff.mp h
  obtain ⟨hmem, hkey⟩ := List.mem_filter.mp (List.mem_of_getLast? hw)
  exact ⟨w, hmem, by simpa using hkey, rfl⟩

omit [Ord κ] [TransOrd κ] [LawfulEqOrd κ] in
/-- The last of the elements that write to `k`. -/
theorem last_filterMap_eq_some_iff {α : Type} {f : α → Option (Write κ β)} {k : κ} {as : List α}
    {v : β} : last k (as.filterMap f) = some v ↔ ∃ earlier a later, as = earlier ++ a :: later ∧
      (∃ ifPresent, f a = some ⟨k, v, ifPresent⟩) ∧
      ∀ other ∈ later, ∀ w, f other = some w → w.key ≠ k := by
  constructor
  · intro h
    induction as with
    | nil => cases h
    | cons a as ih =>
      rcases hlast : last k (as.filterMap f) with _ | v'
      · -- then it is the first
        refine ⟨[], a, as, rfl, ?_, fun other hother w hw ↦
          last_eq_none_iff.mp hlast w (List.mem_filterMap.mpr ⟨other, hother, hw⟩)⟩
        rw [← List.singleton_append, List.filterMap_append, last_append, hlast, Option.none_or] at h
        obtain ⟨w, hw, rfl, rfl⟩ := mem_of_last_eq_some h
        exact ⟨w.ifPresent, by simpa using hw⟩
      · rw [← List.singleton_append, List.filterMap_append, last_append, hlast, Option.some_or] at h
        obtain ⟨earlier, b, later, rfl, hb, hlater⟩ := ih (hlast.trans h)
        exact ⟨a :: earlier, b, later, rfl, hb, hlater⟩
  · rintro ⟨earlier, a, later, rfl, ⟨ifPresent, ha⟩, hlater⟩
    have hnone : last k (later.filterMap f) = none := by
      refine last_eq_none_iff.mpr fun w hw ↦ ?_
      obtain ⟨other, hother, hw⟩ := List.mem_filterMap.mp hw
      exact hlater other hother w hw
    rw [List.filterMap_append, List.filterMap_cons_some ha, ← List.singleton_append, last_append,
      last_append, hnone]
    simp [last]

end Write

end Codeclew
