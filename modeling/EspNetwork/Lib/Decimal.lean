import EspNetwork.Lib.Bytes

/-!
# Decimal numbers in C: `sprintf("%ld")` and `strtol`

* `strtol_printLd`: `strtol` reads back what `sprintf("%ld")` wrote, and stops
  where it ends.
* `length_printLd_le`: a 64-bit `long` takes at most 20 characters.
* `printLd_injective`: the text determines the number.
-/

namespace CLib

/-- `LONG_MAX` for a 64-bit `long`. -/
def LONG_MAX : Int := 2 ^ 63 - 1

/-- `LONG_MIN` for a 64-bit `long`. -/
def LONG_MIN : Int := -2 ^ 63

def isdigit (b : Byte) : Bool := 48 ≤ b && b ≤ 57

/-- A natural number in decimal, without leading zeros. -/
def decimal (n : Nat) : Bytes :=
  if n = 0 then [48] else (Nat.digits 10 n).reverse.map fun d => UInt8.ofNat (48 + d)

/-- The text `sprintf("%ld", n)` produces. -/
def printLd (n : Int) : Bytes := if n < 0 then 45 :: decimal n.natAbs else decimal n.natAbs

/-- The `long` closest to a number. -/
def clampLong (v : Int) : Int := max LONG_MIN (min LONG_MAX v)

/-- The number a run of digits denotes. -/
def digitsVal (ds : Bytes) : Nat := ds.foldl (fun n b => 10 * n + (b.toNat - 48)) 0

/-- `strtol(s, &end, 10)`: the number, clamped to the range of `long`, and `end - s`. -/
def strtol (s : Bytes) : Int × Nat :=
  let sp := s.takeWhile isspace
  let t := s.dropWhile isspace
  let sign := if t.head? = some 43 ∨ t.head? = some 45 then 1 else 0
  let ds := (t.drop sign).takeWhile isdigit
  -- no digits: nothing is converted, `end` is `s` itself
  if ds = [] then (0, 0)
  else
    let v : Int := if t.head? = some 45 then -digitsVal ds else digitsVal ds
    (clampLong v, sp.length + sign + ds.length)

/-! ## Digits -/

theorem toNat_digit {d : Nat} (h : d < 10) : (UInt8.ofNat (48 + d)).toNat = 48 + d := by
  simp only [UInt8.toNat_ofNat']; omega

theorem isdigit_digit {d : Nat} (h : d < 10) : isdigit (UInt8.ofNat (48 + d)) = true := by
  simp only [isdigit, Bool.and_eq_true, decide_eq_true_eq, UInt8.le_iff_toNat_le, toNat_digit h]
  exact ⟨by simp, by simp; omega⟩

theorem isdigit_of_mem_decimal {n : Nat} {b : Byte} (h : b ∈ decimal n) : isdigit b = true := by
  unfold decimal at h
  split at h
  · simp only [List.mem_singleton] at h; subst h; decide
  · simp only [List.mem_map, List.mem_reverse] at h
    obtain ⟨d, hd, rfl⟩ := h
    exact isdigit_digit (Nat.digits_lt_base (by norm_num) hd)

theorem decimal_ne_nil (n : Nat) : decimal n ≠ [] := by
  unfold decimal
  split
  · simp
  · simpa [Nat.digits_eq_nil_iff_eq_zero] using ‹¬n = 0›

/-- **The digits denote the number.** -/
theorem digitsVal_decimal (n : Nat) : digitsVal (decimal n) = n := by
  unfold decimal
  split
  · rename_i h; subst h; decide
  · have key : ∀ l : List Nat, (∀ d ∈ l, d < 10) →
        digitsVal (l.reverse.map fun d => UInt8.ofNat (48 + d)) = Nat.ofDigits 10 l := by
      intro l hl
      rw [digitsVal, List.map_reverse, List.foldl_reverse]
      induction l with
      | nil => rfl
      | cons d l ih =>
        simp only [List.map_cons, List.foldr_cons, Nat.ofDigits_cons]
        rw [ih fun x hx => hl x (List.mem_cons_of_mem _ hx), toNat_digit (hl d List.mem_cons_self)]
        omega
    rw [key _ fun d hd => Nat.digits_lt_base (by norm_num) hd, Nat.ofDigits_digits]

theorem length_decimal_le {n k : Nat} (hk : 0 < k) (h : n < 10 ^ k) : (decimal n).length ≤ k := by
  unfold decimal
  split
  · exact hk
  · rw [List.length_map, List.length_reverse]
    exact (Nat.digits_length_le_iff (by norm_num) n).2 h

/-! ## Round trip -/

theorem not_isspace_of_isdigit {b : Byte} (h : isdigit b = true) : isspace b = false := by
  simp only [isdigit, isspace, Bool.and_eq_true, decide_eq_true_eq, UInt8.le_iff_toNat_le] at *
  have h32 : b ≠ 32 := by rintro rfl; simp at h
  simp only [Bool.or_eq_false_iff, beq_eq_false_iff_ne, ne_eq, h32, not_false_eq_true, true_and]
  have := h.1
  simp only [Bool.and_eq_false_iff, decide_eq_false_iff_not, not_le]
  right; simp at this ⊢; omega

theorem takeWhile_isdigit {ds r : Bytes} (hd : ∀ b ∈ ds, isdigit b = true)
    (hr : ∀ b ∈ r.head?, isdigit b = false) : (ds ++ r).takeWhile isdigit = ds := by
  rw [List.takeWhile_append_of_pos hd]
  cases r with
  | nil => simp
  | cons c r => simp [hr c (by simp)]

/-- `strtol` on a sign and digits followed by something else. -/
theorem strtol_digits {ds r : Bytes} (neg : Bool) (hne : ds ≠ []) (hd : ∀ b ∈ ds, isdigit b = true)
    (hr : ∀ b ∈ r.head?, isdigit b = false) :
    strtol ((if neg then 45 :: ds else ds) ++ r) =
      (clampLong (if neg then -(digitsVal ds : Int) else digitsVal ds),
        (if neg then 45 :: ds else ds).length) := by
  have htw := takeWhile_isdigit hd hr
  obtain ⟨d, ds', rfl⟩ := List.exists_cons_of_ne_nil hne
  have hd0 := hd d List.mem_cons_self
  have hsp := not_isspace_of_isdigit hd0
  have h43 : d ≠ 43 := by rintro rfl; revert hd0; decide
  have h45 : d ≠ 45 := by rintro rfl; revert hd0; decide
  cases neg with
  | true =>
    have hs45 : isspace 45 = false := by decide
    simp only [strtol, if_true, List.cons_append, List.takeWhile_cons, List.dropWhile_cons, hs45,
      Bool.false_eq_true, if_false, List.head?_cons, or_true, List.drop_succ_cons, List.drop_zero]
    rw [List.cons_append, List.takeWhile_cons] at htw
    rw [htw, if_neg hne]
    simp; omega
  | false =>
    rw [List.cons_append] at htw
    simp only [strtol, if_false, Bool.false_eq_true, List.cons_append, List.takeWhile_cons,
      List.dropWhile_cons, hsp, List.head?_cons, Option.some.injEq, h43, h45, or_self, List.drop_zero]
    rw [List.takeWhile_cons] at htw
    rw [htw, if_neg hne]
    simp

/-- **Round trip**: `strtol` reads back what `sprintf("%ld")` wrote. -/
theorem strtol_printLd {n : Int} {r : Bytes} (h0 : LONG_MIN ≤ n) (h1 : n ≤ LONG_MAX)
    (hr : ∀ b ∈ r.head?, isdigit b = false) :
    strtol (printLd n ++ r) = (n, (printLd n).length) := by
  have hd := fun b (hb : b ∈ decimal n.natAbs) => isdigit_of_mem_decimal hb
  have h := strtol_digits (n < 0) (decimal_ne_nil n.natAbs) hd hr
  rw [digitsVal_decimal] at h
  have hv : (if n < 0 then -(n.natAbs : Int) else n.natAbs) = n := by split <;> omega
  simp only [decide_eq_true_eq] at h
  rw [hv, clampLong, min_eq_right h1, max_eq_right h0] at h
  exact h

theorem strtol_range (s : Bytes) : LONG_MIN ≤ (strtol s).1 ∧ (strtol s).1 ≤ LONG_MAX := by
  have hc : ∀ v, LONG_MIN ≤ clampLong v ∧ clampLong v ≤ LONG_MAX := fun v =>
    ⟨le_max_left _ _, max_le (by decide) (min_le_left _ _)⟩
  unfold strtol
  dsimp only
  by_cases hds : ((s.dropWhile isspace).drop (if (s.dropWhile isspace).head? = some 43 ∨
      (s.dropWhile isspace).head? = some 45 then 1 else 0)).takeWhile isdigit = []
  · rw [if_pos hds]; decide
  · rw [if_neg hds]; exact hc _

/-- An optional sign and at least one digit, and whatever follows. -/
def DecimalInteger (s : Bytes) : Prop :=
  ∃ sign ds r, s = sign ++ ds ++ r ∧ (sign = [] ∨ sign = [43] ∨ sign = [45]) ∧ ds ≠ [] ∧ ∀ b ∈ ds, isdigit b = true

/-- The length of the sign, if there is one. -/
def signLength (s : Bytes) : Nat := if s.head? = some 43 ∨ s.head? = some 45 then 1 else 0

/-- `strtol` where no white space has to be skipped. -/
theorem strtol_eq {s : Bytes} (h : ∀ b ∈ s.head?, isspace b = false) :
    strtol s = if (s.drop (signLength s)).takeWhile isdigit = [] then (0, 0)
      else (clampLong (if s.head? = some 45 then -digitsVal ((s.drop (signLength s)).takeWhile isdigit)
          else digitsVal ((s.drop (signLength s)).takeWhile isdigit)),
        signLength s + ((s.drop (signLength s)).takeWhile isdigit).length) := by
  have hsp : s.takeWhile isspace = [] ∧ s.dropWhile isspace = s := by
    cases s with
    | nil => exact ⟨rfl, rfl⟩
    | cons b s => simp [h b rfl]
  unfold strtol signLength
  dsimp only
  rw [hsp.1, hsp.2, List.length_nil, Nat.zero_add]

/-- Without a decimal integer nothing is converted. -/
theorem strtol_of_not_integer {s : Bytes} (h : ∀ b ∈ s.head?, isspace b = false) (hs : ¬ DecimalInteger s) :
    strtol s = (0, 0) := by
  rw [strtol_eq h]
  by_cases hne : (s.drop (signLength s)).takeWhile isdigit = []
  · rw [if_pos hne]
  · refine absurd ⟨s.take (signLength s), _, (s.drop (signLength s)).dropWhile isdigit, ?_, ?_, hne,
      fun b hb => List.mem_takeWhile_imp hb⟩ hs
    · rw [List.append_assoc, List.takeWhile_append_dropWhile, List.take_append_drop]
    · cases s with
      | nil => simp
      | cons b s =>
        unfold signLength
        split
        · rename_i hb
          simp only [List.head?_cons, Option.some.injEq] at hb
          rcases hb with rfl | rfl <;> simp
        · simp

/-- A decimal integer is at least one byte of the text. -/
theorem strtol_of_integer {s : Bytes} (h : ∀ b ∈ s.head?, isspace b = false) (hs : DecimalInteger s) :
    (strtol s).2 ≠ 0 := by
  obtain ⟨sign, ds, r, rfl, hsign, hne, hd⟩ := hs
  obtain ⟨d, ds, rfl⟩ := List.exists_cons_of_ne_nil hne
  have hd0 := hd d List.mem_cons_self
  have h43 : d ≠ 43 := by rintro rfl; revert hd0; decide
  have h45 : d ≠ 45 := by rintro rfl; revert hd0; decide
  rw [strtol_eq h]
  rcases hsign with rfl | rfl | rfl
  · simp [signLength, h43, h45, hd0]
  · simp [signLength, hd0]
  · simp [signLength, hd0]

/-- What is converted is part of the text. -/
theorem strtol_length_le {s : Bytes} (h : ∀ b ∈ s.head?, isspace b = false) : (strtol s).2 ≤ s.length := by
  have hsign : signLength s ≤ s.length := by
    unfold signLength
    split
    · rename_i hhead
      apply List.length_pos_iff.2
      rintro rfl
      simp at hhead
    · exact Nat.zero_le _
  have htake := (List.takeWhile_prefix isdigit (l := s.drop (signLength s))).length_le
  rw [List.length_drop] at htake
  rw [strtol_eq h]
  split
  · exact Nat.zero_le _
  · dsimp only
    omega

/-- A 64-bit `long` takes at most 20 characters. -/
theorem length_printLd_le {n : Int} (h0 : LONG_MIN ≤ n) (h1 : n ≤ LONG_MAX) : (printLd n).length ≤ 20 := by
  have hn : n.natAbs < 10 ^ 19 := by
    unfold LONG_MIN at h0; unfold LONG_MAX at h1; omega
  have := length_decimal_le (by norm_num) hn
  unfold printLd
  split
  · simp only [List.length_cons]; omega
  · omega

/-- A sign or a digit. -/
theorem mem_printLd {n : Int} {b : Byte} (h : b ∈ printLd n) : b = 45 ∨ isdigit b = true := by
  unfold printLd at h
  split at h
  · rcases List.mem_cons.1 h with h | h
    · exact .inl h
    · exact .inr (isdigit_of_mem_decimal h)
  · exact .inr (isdigit_of_mem_decimal h)

theorem not_mem_printLd {b : Byte} (hs : b ≠ 45) (hd : isdigit b = false) (n : Int) : b ∉ printLd n := by
  intro h
  rcases mem_printLd h with h | h
  · exact hs h
  · rw [hd] at h
    exact absurd h (by simp)

theorem printLd_ne_nil (n : Int) : printLd n ≠ [] := by
  unfold printLd
  split
  · simp
  · exact decimal_ne_nil _

/-- Two integers with one text are equal. -/
theorem printLd_injective : Function.Injective printLd := by
  intro m n h
  have hsign : ∀ k l : Nat, (45 : Byte) :: decimal k ≠ decimal l := by
    intro k l he
    have hmem : (45 : Byte) ∈ decimal l := by rw [← he]; exact List.mem_cons_self
    exact absurd (isdigit_of_mem_decimal hmem) (by decide)
  have habs : ∀ k l : Nat, decimal k = decimal l → k = l := by
    intro k l he
    have := congrArg digitsVal he
    rwa [digitsVal_decimal, digitsVal_decimal] at this
  unfold printLd at h
  by_cases hm : m < 0
  · by_cases hn : n < 0
    · rw [if_pos hm, if_pos hn] at h
      have := habs _ _ (List.cons.inj h).2
      omega
    · rw [if_pos hm, if_neg hn] at h
      exact absurd h (hsign _ _)
  · by_cases hn : n < 0
    · rw [if_neg hm, if_pos hn] at h
      exact absurd h.symm (hsign _ _)
    · rw [if_neg hm, if_neg hn] at h
      have := habs _ _ h
      omega
end CLib
