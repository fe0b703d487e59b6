import Mathlib

/-!
# Handles and slot tables

A history of operations on handles (descriptors, pointers, sessions), newest first,
and a table of slots that may hold a handle.

* `live_nodup`, `count_acquire`: in a proper history a handle is live at most once,
  and it has been released as often as it has been acquired, up to the live one.
* `proper_releaseAll_iff`: when the releases of a list of handles are proper.
* `reduceOption_set_some`, `reduceOption_set_none`: filling and clearing one slot of a
  table.
-/

namespace Handle

variable {α : Type*}

inductive Event (α : Type*)
  | acquire (a : α)
  | use (a : α)
  | release (a : α)
deriving DecidableEq

section History

variable [DecidableEq α]

/-- The handles acquired and not released. -/
def live : List (Event α) → List α
  | [] => []
  | .acquire a :: h => a :: live h
  | .use _ :: h => live h
  | .release a :: h => (live h).erase a

/-- Only live handles are used and released, and no live one is handed out again. -/
def Proper : List (Event α) → Prop
  | [] => True
  | .acquire a :: h => Proper h ∧ a ∉ live h
  | .use a :: h => Proper h ∧ a ∈ live h
  | .release a :: h => Proper h ∧ a ∈ live h

theorem live_nodup : ∀ {h : List (Event α)}, Proper h → (live h).Nodup
  | [], _ => List.nodup_nil
  | .acquire a :: h, hp => by
    obtain ⟨hp, ha⟩ := hp
    exact List.nodup_cons.2 ⟨ha, live_nodup hp⟩
  | .use a :: h, hp => live_nodup (h := h) hp.1
  | .release a :: h, hp => (live_nodup (h := h) hp.1).erase a

/-- **The balance of a handle.** -/
theorem count_acquire (a : α) : ∀ {h : List (Event α)}, Proper h →
    h.count (.acquire a) = h.count (.release a) + (live h).count a
  | [], _ => by simp [live]
  | .acquire b :: h, hp => by
    have ih := count_acquire a hp.1
    simp only [live, List.count_cons, beq_iff_eq, Event.acquire.injEq, reduceCtorEq, if_false]
    omega
  | .use b :: h, hp => by
    have ih := count_acquire a hp.1
    simp only [live, List.count_cons, beq_iff_eq, reduceCtorEq, if_false]
    omega
  | .release b :: h, hp => by
    have ih := count_acquire a hp.1
    simp only [live, List.count_cons, beq_iff_eq, Event.release.injEq, reduceCtorEq, if_false]
    by_cases hab : b = a
    · subst hab
      have hpos : 0 < (live h).count b := List.count_pos_iff.2 hp.2
      rw [List.count_erase_self, if_pos rfl]
      omega
    · rw [List.count_erase_of_ne (Ne.symm hab), if_neg hab]
      omega

/-- Once no handle is live, each has been released as often as it was acquired. -/
theorem count_acquire_of_live_nil {h : List (Event α)} (hp : Proper h) (h0 : live h = []) (a : α) :
    h.count (.acquire a) = h.count (.release a) := by
  have := count_acquire a hp
  rw [h0] at this
  simpa using this

/-- Releasing one handle after the other. -/
def releaseAll (h : List (Event α)) (as : List α) : List (Event α) := as.foldl (fun h a => .release a :: h) h

theorem live_releaseAll (as : List α) : ∀ h : List (Event α), live (releaseAll h as) = (live h).diff as := by
  induction as with
  | nil => exact fun _ => rfl
  | cons a as ih =>
    intro h
    rw [List.diff_cons]
    exact ih (.release a :: h)

theorem proper_of_releaseAll (as : List α) : ∀ {h : List (Event α)}, Proper (releaseAll h as) → Proper h := by
  induction as with
  | nil => exact fun hp => hp
  | cons a as ih => exact fun hp => (ih hp).1

/-- **All releases are of live handles** exactly if these have each of them. -/
theorem proper_releaseAll_iff (as : List α) : ∀ {h : List (Event α)}, Proper h →
    (Proper (releaseAll h as) ↔ as.Subperm (live h)) := by
  induction as with
  | nil => exact fun hp => iff_of_true hp List.nil_subperm
  | cons a as ih =>
    intro h hp
    by_cases ha : a ∈ live h
    · have hp' : Proper (.release a :: h) := ⟨hp, ha⟩
      refine (ih hp').trans ⟨fun hsub => ?_, fun hsub => ?_⟩
      · exact ((List.subperm_cons a).2 hsub).trans (List.perm_cons_erase ha).symm.subperm
      · have herase := hsub.erase a
        rwa [List.erase_cons_head] at herase
    · refine iff_of_false (fun hall => ha (proper_of_releaseAll as hall).2) fun hsub => ha ?_
      exact hsub.subset List.mem_cons_self

end History

/-! ## Slot tables

`List.reduceOption` lists the handles in a table. -/

variable {t : List (Option α)} {k : ℕ} {a : α}

theorem reduceOption_set_some (h : t[k]? = some none) :
    (t.set k (some a)).reduceOption.Perm (a :: t.reduceOption) := by
  induction t generalizing k with
  | nil => simp at h
  | cons o t ih =>
    cases k with
    | zero =>
      have ho : o = none := by simpa using h
      rw [ho, List.set_cons_zero, List.reduceOption_cons_of_some, List.reduceOption_cons_of_none]
    | succ k =>
      rw [List.set_cons_succ]
      have ih := ih (k := k) (by simpa using h)
      cases o with
      | none => simpa using ih
      | some b =>
        rw [List.reduceOption_cons_of_some, List.reduceOption_cons_of_some]
        exact (ih.cons b).trans (List.Perm.swap a b _)

theorem set_none_of_none (h : t[k]? = some none) : t.set k none = t := by
  obtain ⟨hk, he⟩ := List.getElem?_eq_some_iff.1 h
  rw [← he, List.set_getElem_self]

theorem reduceOption_set_none (h : t[k]? = some (some a)) :
    (a :: (t.set k none).reduceOption).Perm t.reduceOption := by
  obtain ⟨hk, he⟩ := List.getElem?_eq_some_iff.1 h
  have hempty : (t.set k none)[k]? = some none := by
    rw [List.getElem?_set_self hk]
  have hback : (t.set k none).set k (some a) = t := by
    rw [List.set_set, ← he, List.set_getElem_self]
  have := reduceOption_set_some (a := a) hempty
  rw [hback] at this
  exact this.symm

/-- The rest of a table behind a slot. -/
theorem reduceOption_drop {o : Option α} (h : t[k]? = some o) :
    (t.drop k).reduceOption = (o :: t.drop (k + 1)).reduceOption := by
  obtain ⟨hk, he⟩ := List.getElem?_eq_some_iff.1 h
  rw [List.drop_eq_getElem_cons hk, he]

/-- In a table without duplicates a handle has one slot. -/
theorem slot_unique {i j : ℕ} (hn : t.reduceOption.Nodup) (hi : t[i]? = some (some a))
    (hj : t[j]? = some (some a)) : i = j := by
  by_contra hne
  -- clearing slot `i` leaves the handle in slot `j`
  have hnd := (reduceOption_set_none hi).nodup_iff.2 hn
  have hmem : a ∈ (t.set i none).reduceOption := by
    rw [List.reduceOption_mem_iff]
    apply List.mem_of_getElem? (i := j)
    rw [List.getElem?_set_ne hne, hj]
  exact (List.nodup_cons.1 hnd).1 hmem

/-- A table with fewer handles than slots has a free slot. -/
theorem exists_free (h : t.reduceOption.length < t.length) :
    ∃ k, t.findIdx? (·.isNone) = some k ∧ t[k]? = some none := by
  cases hf : t.findIdx? (·.isNone) with
  | none =>
    have hall : ∀ o ∈ t, o.isSome := by
      intro o ho
      have := List.findIdx?_eq_none_iff.1 hf o ho
      simpa using this
    have := List.reduceOption_length_eq_iff.2 hall
    omega
  | some k =>
    obtain ⟨hlt, hnone, -⟩ := List.findIdx?_eq_some_iff_getElem.1 hf
    have hfree : t[k] = none := by simpa using hnone
    exact ⟨k, rfl, List.getElem?_eq_some_iff.2 ⟨hlt, hfree⟩⟩

end Handle
