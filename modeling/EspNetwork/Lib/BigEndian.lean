import EspNetwork.Lib.Bytes

/-!
# Big-endian numbers

* `ofBe_toBe`: the `k` low bytes of a number, read back, give it modulo `256 ^ k`.
* `toBe_injective`: numbers below `256 ^ k` have different encodings.
-/

namespace CLib

/-- The `k` low bytes of `x`, the most significant first. -/
def toBe : Nat → Nat → Bytes
  | 0, _ => []
  | k + 1, x => toBe k (x / 256) ++ [UInt8.ofNat (x % 256)]

/-- The number a big-endian text denotes. -/
def ofBe (s : Bytes) : Nat := s.foldl (fun x b => x * 256 + b.toNat) 0

@[simp] theorem length_toBe (k x : Nat) : (toBe k x).length = k := by
  induction k generalizing x with
  | zero => rfl
  | succ k ih => rw [toBe, List.length_append, ih, List.length_singleton]

/-- The last byte is the least significant. -/
theorem ofBe_append_singleton (s : Bytes) (b : Byte) : ofBe (s ++ [b]) = ofBe s * 256 + b.toNat := by
  simp [ofBe, List.foldl_append]

/-- **Reading back** what was written. -/
theorem ofBe_toBe (k x : Nat) : ofBe (toBe k x) = x % 256 ^ k := by
  induction k generalizing x with
  | zero => simp [toBe, ofBe, Nat.mod_one]
  | succ k ih =>
    have hb : (UInt8.ofNat (x % 256)).toNat = x % 256 := by simp
    rw [toBe, ofBe_append_singleton, ih, hb, Nat.pow_succ', Nat.mod_mul]
    omega

/-- **The encoding is injective** on the numbers that fit. -/
theorem toBe_injective {k x y : Nat} (hx : x < 256 ^ k) (hy : y < 256 ^ k) (h : toBe k x = toBe k y) : x = y := by
  have := congrArg ofBe h
  rwa [ofBe_toBe, ofBe_toBe, Nat.mod_eq_of_lt hx, Nat.mod_eq_of_lt hy] at this

end CLib
