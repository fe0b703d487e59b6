import Mathlib

/-!
# Streams that are cut

What a reader knows of a stream that arrives in pieces, or only in part.

* `holds_iff_length`: a property that more data does not undo holds from one length on.
* `flatten_fragments`: cutting a list every `n` elements loses nothing.
-/

namespace Streams

variable {α : Type*} {stream r : List α} {k : ℕ}

/-- **A property that grows with the data** holds of a beginning of a stream iff this is long
enough. -/
theorem holds_iff_length {P : List α → Prop} (hmono : ∀ xs ys, P xs → P (xs ++ ys)) (hin : P (stream.take (k + 1)))
    (hout : ¬ P (stream.take k)) (hr : r <+: stream) : P r ↔ k + 1 ≤ r.length := by
  obtain ⟨more, rfl⟩ := hr
  constructor
  · intro h
    by_contra hlen
    refine hout ?_
    rw [List.take_append, List.take_of_length_le (by omega)]
    exact hmono _ _ h
  · intro hlen
    rw [List.take_append_of_le_length hlen] at hin
    rw [← List.take_append_drop (k + 1) r]
    exact hmono _ _ hin

/-- The pieces `xs[i:i+n]` for `i` in `range(0, len(xs), n)`. -/
def fragments (xs : List α) (n : ℕ) : List (List α) :=
  (List.range ((xs.length + n - 1) / n)).map fun i => (xs.drop (i * n)).take n

/-- The first `m` pieces of length `n` are the first `m * n` elements. -/
theorem flatten_pieces (n : ℕ) (xs : List α) (m : ℕ) :
    ((List.range m).map fun i => (xs.drop (i * n)).take n).flatten = xs.take (m * n) := by
  induction m with
  | zero => simp
  | succ m ih =>
    rw [List.range_succ, List.map_append, List.flatten_append, ih, Nat.succ_mul, List.take_add]
    simp

/-- **Fragments** put together again are the list. -/
theorem flatten_fragments {n : ℕ} (hn : 0 < n) (xs : List α) : (fragments xs n).flatten = xs := by
  have hall : xs.length ≤ (xs.length + n - 1) / n * n := by
    have := Nat.lt_div_mul_add hn (a := xs.length + n - 1)
    omega
  rw [fragments, flatten_pieces, List.take_of_length_le hall]

/-- Every piece has elements, at most `n` of them. -/
theorem mem_fragments {n : ℕ} {xs piece : List α} (hn : 0 < n) (h : piece ∈ fragments xs n) :
    piece ≠ [] ∧ piece.length ≤ n := by
  obtain ⟨i, hi, rfl⟩ := List.mem_map.1 h
  have hi := List.mem_range.1 hi
  have hlt : i * n < xs.length := by
    have hmul := Nat.mul_le_of_le_div n (i + 1) _ hi
    rw [Nat.succ_mul] at hmul
    omega
  refine ⟨?_, List.length_take_le n _⟩
  rw [← List.length_pos_iff, List.length_take, List.length_drop]
  omega

end Streams
