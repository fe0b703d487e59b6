import Mathlib

/-!
# Checksums in lanes

A text is folded into a few accumulators, its lanes: each element goes to the lane of its
index modulo their number, under an operation that is associative and commutative.

* `fold_split`: what one element contributes can be split off.
* `fold_replace`: **an element replaced by another changes its lane**, if the operation can
  be cancelled.
* `fold_injective`: so do other accumulators to start from.
-/

namespace Lanes

variable {α : Type*} {op : α → α → α} {T : ℕ} {acc acc' l : List α} {src pre post : List (α × ℕ)} {i j : ℕ} {b b' : α}

/-- The elements of `src`, given with their indices, in `T` lanes. -/
def fold (op : α → α → α) (T : ℕ) (acc : List α) (src : List (α × ℕ)) : List α :=
  src.foldl (fun acc p => acc.modify (p.2 % T) (op · p.1)) acc

theorem fold_cons (p : α × ℕ) : fold op T acc (p :: src) = fold op T (acc.modify (p.2 % T) (op · p.1)) src := rfl

/-- The rest of a text goes on from the lanes of its beginning. -/
theorem fold_append : fold op T acc (pre ++ post) = fold op T (fold op T acc pre) post :=
  List.foldl_append

@[simp] theorem length_fold : (fold op T acc src).length = acc.length := by
  induction src generalizing acc with
  | nil => rfl
  | cons p src ih => rw [fold_cons, ih, List.length_modify]

/-! ## Splitting off one element -/

section Commutative

variable [Std.Associative op] [Std.Commutative op]

/-- Two contributions to a lane may be swapped. -/
theorem op_right_comm (a b c : α) : op (op a b) c = op (op a c) b := by
  ac_rfl

/-- So may two contributions to any two lanes. -/
theorem modify_comm : (l.modify i (op · b)).modify j (op · b') = (l.modify j (op · b')).modify i (op · b) := by
  by_cases h : i = j
  · subst h
    rw [List.modify_modify_eq, List.modify_modify_eq]
    congr 1
    funext a
    exact op_right_comm a b b'
  · exact List.modify_modify_ne _ _ _ h

/-- A contribution may be made before or after the rest of the text. -/
theorem fold_modify : fold op T (acc.modify i (op · b)) src = (fold op T acc src).modify i (op · b) := by
  induction src generalizing acc with
  | nil => rfl
  | cons p src ih => rw [fold_cons, fold_cons, modify_comm, ih]

/-- **One element splits off**: the lanes are those of the text without it, and its own
contribution. -/
theorem fold_split : fold op T acc (pre ++ (b, i) :: post) = (fold op T acc (pre ++ post)).modify (i % T) (op · b) := by
  rw [fold_append, fold_cons, fold_modify, fold_append]

end Commutative

/-! ## Changes -/

section Cancel

variable (hcancel : ∀ b, Function.Injective (op · b)) (hcancel' : ∀ a, Function.Injective (op a))

include hcancel in
/-- A contribution can be taken back. -/
theorem modify_injective (h : l.modify i (op · b) = acc.modify i (op · b)) : l = acc := by
  have hlen := congrArg List.length h
  rw [List.length_modify, List.length_modify] at hlen
  apply List.ext_getElem hlen
  intro k hk hk'
  have hget := List.getElem_of_eq h (i := k) (by rwa [List.length_modify])
  rw [List.getElem_modify, List.getElem_modify] at hget
  split at hget
  · exact hcancel b hget
  · exact hget

include hcancel in
/-- **Other accumulators, other lanes.** -/
theorem fold_injective (h : fold op T acc src = fold op T acc' src) : acc = acc' := by
  induction src generalizing acc acc' with
  | nil => exact h
  | cons p src ih =>
    rw [fold_cons, fold_cons] at h
    exact modify_injective hcancel (ih h)

include hcancel' in
/-- **A replaced element changes its lane.** -/
theorem fold_replace [Std.Associative op] [Std.Commutative op] (hi : i % T < acc.length)
    (h : fold op T acc (pre ++ (b, i) :: post) = fold op T acc (pre ++ (b', i) :: post)) : b = b' := by
  rw [fold_split, fold_split] at h
  have hget := List.getElem_of_eq h (i := i % T) (by rwa [List.length_modify, length_fold])
  rw [List.getElem_modify_eq, List.getElem_modify_eq] at hget
  exact hcancel' _ hget

end Cancel

end Lanes
