import Mathlib

/-!
# C strings and C arrays

Byte strings are lists of `UInt8`. A C string is the part of a memory area before
its first NUL (`cstr`); an array is a list of a fixed length (`Arr`), and a store
that leaves it fails.

* `strchr_append`, `strstr_eq_some_iff`: the searches return the first occurrence.
* `strstr_skip`, `strstr_cons`: a search text can only start at its first byte.
* `Arr.store_isSome_iff`, `Arr.cstr_store`: when a store succeeds, and the string
  it leaves.
-/

namespace CLib

abbrev Byte := UInt8

abbrev Bytes := List Byte

/-- An ASCII character as a byte. -/
def chr (c : Char) : Byte := c.toNat.toUInt8

/-- An ASCII text as bytes. -/
def bytes (s : String) : Bytes := s.toList.map chr

/-- The C string at the start of a memory area. -/
def cstr (m : Bytes) : Bytes := m.takeWhile (· ≠ 0)

/-- `strchr`, as an offset from the start of the string. -/
def strchr (s : Bytes) (c : Byte) : Option Nat := s.idxOf? c

/-- `strstr`, as an offset from the start of the haystack. -/
def strstr : Bytes → Bytes → Option Nat
  | [], n => if n.isPrefixOf [] then some 0 else none
  | b :: s, n => if n.isPrefixOf (b :: s) then some 0 else (strstr s n).map (· + 1)

/-- The bytes `strncpy(dst, src, n)` stores: `n` bytes of `src`, padded with NULs. -/
def strncpyBytes (src : Bytes) (n : Nat) : Bytes := src.take n ++ List.replicate (n - src.length) 0

/-- Conversion of a length or pointer difference to a 32-bit `int`. -/
def toInt (n : Nat) : Int := (n : Int).bmod (2 ^ 32)

/-- `isspace` in the C locale. -/
def isspace (b : Byte) : Bool := b == 32 || (9 ≤ b && b ≤ 13)

/-! ## Searches -/

theorem strchr_eq_none_iff {s : Bytes} {c : Byte} : strchr s c = none ↔ c ∉ s :=
  List.idxOf?_eq_none_iff

/-- The first occurrence is the one behind what has none. -/
theorem strchr_append {u t : Bytes} {c : Byte} (h : c ∉ u) : strchr (u ++ c :: t) c = some u.length := by
  induction u with
  | nil => simp [strchr, List.idxOf?_cons]
  | cons b u ih =>
    rw [List.mem_cons, not_or] at h
    have hb : (b == c) = false := by simpa using fun e => h.1 e.symm
    have := ih h.2
    simp only [strchr] at this ⊢
    simp [List.idxOf?_cons, hb, this]

/-- A split at the first occurrence is unique. -/
theorem split_unique {u u' t t' : Bytes} {c : Byte} (hu : c ∉ u) (hu' : c ∉ u')
    (h : u ++ c :: t = u' ++ c :: t') : u = u' ∧ t = t' := by
  have hl : u.length = u'.length := by
    have := strchr_append (t := t) hu
    rw [h, strchr_append hu'] at this
    exact (Option.some.inj this).symm
  obtain ⟨h1, h2⟩ := List.append_inj h hl
  exact ⟨h1, (List.cons.inj h2).2⟩

theorem strstr_eq_zero {s n : Bytes} (h : n <+: s) : strstr s n = some 0 := by
  cases s <;> simp [strstr, List.isPrefixOf_iff_prefix, h]

/-- The search goes on behind a byte at which the text does not begin. -/
theorem strstr_cons_skip {b : Byte} {s n : Bytes} (h : ¬ n <+: b :: s) :
    strstr (b :: s) n = (strstr s n).map (· + 1) := by
  simp [strstr, List.isPrefixOf_iff_prefix, h]

theorem strstr_nil_cons (c : Byte) (n : Bytes) : strstr [] (c :: n) = none := by simp [strstr]

/-- A search text does not start before an occurrence of its first byte. -/
theorem strstr_skip {c : Byte} {n t : Bytes} : ∀ {u : Bytes}, c ∉ u →
    strstr (u ++ t) (c :: n) = (strstr t (c :: n)).map (· + u.length)
  | [], _ => by simp
  | b :: u, h => by
    rw [List.mem_cons, not_or] at h
    have hp : ¬ c :: n <+: b :: (u ++ t) := fun hp => h.1 (List.cons_prefix_cons.1 hp).1
    rw [List.cons_append, strstr_cons_skip hp, strstr_skip h.2, Option.map_map]
    rfl

/-- At its first byte, a search text either matches or the search goes on. -/
theorem strstr_cons {c : Byte} {n t : Bytes} (h : ¬ n <+: t) :
    strstr (c :: t) (c :: n) = (strstr t (c :: n)).map (· + 1) :=
  strstr_cons_skip fun hp => h (List.cons_prefix_cons.1 hp).2

/-- **`strstr` returns the first occurrence.** -/
theorem strstr_eq_some_iff {s n : Bytes} {k : Nat} : strstr s n = some k ↔
    (∃ a b, s = a ++ n ++ b ∧ a.length = k) ∧ ∀ a b, s = a ++ n ++ b → k ≤ a.length := by
  induction s generalizing k with
  | nil =>
    cases n with
    | nil => simp [strstr, eq_comm]
    | cons c n => simp [strstr_nil_cons]
  | cons x s ih =>
    by_cases hp : n <+: x :: s
    · rw [strstr_eq_zero hp]
      obtain ⟨r, hr⟩ := hp
      constructor
      · rintro ⟨⟩; exact ⟨⟨[], r, by simp [hr], rfl⟩, fun _ _ _ => Nat.zero_le _⟩
      · rintro ⟨-, hmin⟩
        have := hmin [] r (by simp [hr])
        simp at this; simp [this]
    · rw [strstr_cons_skip hp]
      -- every occurrence starts after the first byte
      have hne : ∀ a b, x :: s = a ++ n ++ b → ∃ a', a = x :: a' ∧ s = a' ++ n ++ b := by
        intro a b hab
        cases a with
        | nil => exact absurd ⟨b, by simpa using hab.symm⟩ hp
        | cons y a' =>
          simp only [List.cons_append, List.cons.injEq] at hab
          exact ⟨a', by rw [hab.1], hab.2⟩
      constructor
      · intro h
        obtain ⟨j, hj, rfl⟩ := Option.map_eq_some_iff.1 h
        obtain ⟨⟨a, b, hab, rfl⟩, hmin⟩ := ih.1 hj
        refine ⟨⟨x :: a, b, by simp [hab], rfl⟩, fun a' b' h' => ?_⟩
        obtain ⟨a'', rfl, h''⟩ := hne a' b' h'
        have := hmin a'' b' h''
        simp only [List.length_cons]; omega
      · rintro ⟨⟨a, b, hab, rfl⟩, hmin⟩
        obtain ⟨a', rfl, h'⟩ := hne a b hab
        have : strstr s n = some a'.length := ih.2 ⟨⟨a', b, h', rfl⟩, fun a'' b'' h'' => by
          have := hmin (x :: a'') b'' (by simp [h''])
          simpa using this⟩
        simp [this]

/-! ## Lengths and counts -/

/-- A length below 2 GiB keeps its value. -/
theorem toInt_of_lt {k : Nat} (h : k < 2 ^ 31) : toInt k = k := by
  unfold toInt; rw [Int.bmod_eq_of_le] <;> omega

/-- The two halves of the range of a 32-bit length. -/
theorem toInt_cases (k : Nat) : (k % 2 ^ 32 < 2 ^ 31 ∧ toInt k = (k % 2 ^ 32 : Nat)) ∨
    (2 ^ 31 ≤ k % 2 ^ 32 ∧ toInt k = (k % 2 ^ 32 : Nat) - 2 ^ 32) := by
  have hmod : (k : Int) % ((2 ^ 32 : Nat) : Int) = (k % 2 ^ 32 : Nat) := by omega
  unfold toInt
  rw [Int.bmod_def, hmod]
  split <;> omega

theorem toInt_le (k : Nat) : toInt k ≤ k := by
  have := Nat.mod_le k (2 ^ 32)
  rcases toInt_cases k with ⟨-, h⟩ | ⟨-, h⟩ <;> omega

theorem toInt_lt (k : Nat) : toInt k < 2 ^ 31 := by
  have := toInt_cases k
  omega

/-- Without padding, `strncpy` copies the first `k` bytes. -/
theorem strncpyBytes_of_le {src : Bytes} {k : Nat} (h : k ≤ src.length) : strncpyBytes src k = src.take k := by
  simp [strncpyBytes, Nat.sub_eq_zero_of_le h]

/-! ## C strings in memory -/

/-- A text ends at the NUL behind it. -/
theorem cstr_append {s t : Bytes} (h : 0 ∉ s) : cstr (s ++ 0 :: t) = s := by
  unfold cstr
  rw [List.takeWhile_append_of_pos (fun b hb => by simpa using fun e : b = 0 => h (e ▸ hb))]
  simp

theorem cstr_eq_self {s : Bytes} (h : 0 ∉ s) : cstr s = s := by
  rw [cstr, List.takeWhile_eq_self_iff]
  intro b hb; simpa using fun e : b = 0 => h (e ▸ hb)

theorem cstr_replicate (n : Nat) : cstr (List.replicate n 0) = [] := by
  cases n <;> simp [cstr, List.replicate_succ]

theorem cstr_cons {b : Byte} (h : b ≠ 0) (m : Bytes) : cstr (b :: m) = b :: cstr m := by
  simp [cstr, h]

/-- What follows a terminated string is not part of it. -/
theorem cstr_append_of_lt {u v : Bytes} (h : (cstr u).length < u.length) : cstr (u ++ v) = cstr u := by
  induction u with
  | nil => simp at h
  | cons b u ih =>
    by_cases hb : b = 0
    · simp [cstr, hb]
    · rw [cstr_cons hb, List.length_cons, List.length_cons] at h
      rw [List.cons_append, cstr_cons hb, cstr_cons hb, ih (by omega)]

theorem not_mem_cstr (m : Bytes) : 0 ∉ cstr m := fun h => by simpa using List.mem_takeWhile_imp h

theorem length_cstr_le (m : Bytes) : (cstr m).length ≤ m.length := (List.takeWhile_prefix _).length_le

/-- What is behind a NUL does not count. -/
theorem cstr_append_of_mem {u : Bytes} (h : 0 ∈ u) (v : Bytes) : cstr (u ++ v) = cstr u := by
  refine cstr_append_of_lt (lt_of_le_of_ne (length_cstr_le u) fun he => ?_)
  rw [← (List.takeWhile_prefix _).eq_of_length he] at h
  exact not_mem_cstr u h

/-- Without a NUL the text goes on. -/
theorem cstr_append_of_not_mem {u : Bytes} (h : 0 ∉ u) (v : Bytes) : cstr (u ++ v) = u ++ cstr v := by
  unfold cstr
  rw [List.takeWhile_append_of_pos fun b hb => by simpa using fun e : b = 0 => h (e ▸ hb)]

/-- A NUL inside the first `k` bytes ends the string there, whatever follows. -/
theorem cstr_take {m : Bytes} {k : Nat} (h : (cstr m).length < k) : cstr (m.take k) = cstr m := by
  induction m generalizing k with
  | nil => simp
  | cons b m ih =>
    obtain ⟨k, rfl⟩ : ∃ j, k = j + 1 := ⟨k - 1, by omega⟩
    by_cases hb : b = 0
    · simp [cstr, hb]
    · rw [cstr_cons hb, List.length_cons] at h
      rw [List.take_succ_cons, cstr_cons hb, cstr_cons hb, ih (by omega)]

/-! ## Arrays -/

/-- A C array of `n` bytes. -/
structure Arr (n : Nat) where
  data : Bytes
  size_eq : data.length = n
deriving DecidableEq

namespace Arr

variable {n : Nat}

/-- An array initialised with `{0}`. -/
def zeros (n : Nat) : Arr n := ⟨List.replicate n 0, List.length_replicate⟩

instance : Inhabited (Arr n) := ⟨zeros n⟩

/-- Store `bs` at offset `i`; a store that leaves the array fails. -/
def store (a : Arr n) (i : Nat) (bs : Bytes) : Option (Arr n) :=
  if h : i + bs.length ≤ n then
    some ⟨a.data.take i ++ bs ++ a.data.drop (i + bs.length), by
      have := a.size_eq
      simp only [List.length_append, List.length_take, List.length_drop]; omega⟩
  else none

variable {a b : Arr n} {i j : Nat} {bs : Bytes}

/-- **A store succeeds** iff it ends inside the array. -/
theorem store_isSome_iff : (a.store i bs).isSome ↔ i + bs.length ≤ n := by
  unfold store; split <;> simp [*]

/-- What a store leaves: the bytes before it, its own, and those behind it. -/
theorem store_eq_some_iff : a.store i bs = some b ↔
    i + bs.length ≤ n ∧ b.data = a.data.take i ++ bs ++ a.data.drop (i + bs.length) := by
  obtain ⟨d, hd⟩ := b
  unfold store
  split
  · rename_i h; simp [h, eq_comm]
  · rename_i h; simp [h]

theorem store_eq_none_iff : a.store i bs = none ↔ n < i + bs.length := by
  unfold store; split <;> simp <;> omega

theorem exists_store (a : Arr n) (i : Nat) (bs : Bytes) (h : i + bs.length ≤ n) :
    ∃ b, a.store i bs = some b := Option.isSome_iff_exists.1 (store_isSome_iff.2 h)

/-- Two adjacent stores are one. -/
theorem store_append {cs : Bytes} : ((a.store i bs).bind fun b => b.store (i + bs.length) cs) =
    a.store i (bs ++ cs) := by
  have hl := a.size_eq
  by_cases h : i + bs.length ≤ n
  · obtain ⟨b, hb⟩ := exists_store a i bs h
    rw [hb, Option.bind_some]
    have hbd := (store_eq_some_iff.1 hb).2
    by_cases h' : i + bs.length + cs.length ≤ n
    · have hlt : (a.data.take i ++ bs).length = i + bs.length := by simp; omega
      obtain ⟨c, hc⟩ := exists_store a i (bs ++ cs) (by rw [List.length_append]; omega)
      rw [hc, store_eq_some_iff]
      refine ⟨h', ?_⟩
      have ht : b.data.take (i + bs.length) = a.data.take i ++ bs := by
        rw [hbd, List.take_left' hlt]
      have hd : b.data.drop (i + bs.length + cs.length) = a.data.drop (i + bs.length + cs.length) := by
        rw [hbd, ← List.drop_drop, List.drop_left' hlt, List.drop_drop]
      rw [(store_eq_some_iff.1 hc).2, ht, hd]
      simp [Nat.add_assoc]
    · rw [store_eq_none_iff.2 (by omega), eq_comm, store_eq_none_iff, List.length_append]; omega
  · rw [store_eq_none_iff.2 (by omega), Option.bind_none, eq_comm, store_eq_none_iff,
      List.length_append]
    omega

/-- Memory behind a store is unchanged. -/
theorem drop_store (h : a.store i bs = some b) (hj : i + bs.length ≤ j) : b.data.drop j = a.data.drop j := by
  obtain ⟨hi, hb⟩ := store_eq_some_iff.1 h
  have hl := a.size_eq
  rw [hb, List.drop_append, List.drop_eq_nil_of_le (by simp; omega), List.nil_append, List.drop_drop]
  congr 1
  simp only [List.length_append, List.length_take]; omega

/-- Memory before a store is unchanged. -/
theorem take_store (h : a.store i bs = some b) : b.data.take i = a.data.take i := by
  obtain ⟨hi, hb⟩ := store_eq_some_iff.1 h
  have hl := a.size_eq
  rw [hb, List.append_assoc, List.take_append_of_le_length (by simp; omega), List.take_take, min_self]

/-- **The string a store leaves**: a stored text and its NUL are read back. -/
theorem cstr_store {s : Bytes} (h : a.store i (s ++ [0]) = some b) (hs : 0 ∉ s) :
    cstr (b.data.drop i) = s := by
  obtain ⟨hi, hb⟩ := store_eq_some_iff.1 h
  have hl := a.size_eq
  have hlt : (a.data.take i).length = i := by rw [List.length_take]; omega
  rw [hb, List.append_assoc, List.drop_left' hlt, List.append_assoc, List.singleton_append, cstr_append hs]

/-- A string that ends before a store is unchanged by it. -/
theorem cstr_store_of_lt (h : a.store i bs = some b) (hj : j + (cstr (a.data.drop j)).length < i) :
    cstr (b.data.drop j) = cstr (a.data.drop j) := by
  have hlt : (cstr (a.data.drop j)).length < i - j := by omega
  have htake : (b.data.drop j).take (i - j) = (a.data.drop j).take (i - j) := by
    rw [← List.drop_take, ← List.drop_take, take_store h]
  have ha := cstr_take hlt
  rw [← htake] at ha
  rw [← ha]
  -- the terminator found in `a` is found in `b`
  have hmem : (cstr ((b.data.drop j).take (i - j))).length < ((b.data.drop j).take (i - j)).length := by
    rw [ha, htake]
    have hi := (store_eq_some_iff.1 h).1
    have := a.size_eq
    simp; omega
  conv_lhs => rw [← List.take_append_drop (i - j) (b.data.drop j)]
  exact cstr_append_of_lt hmem

end Arr

end CLib
