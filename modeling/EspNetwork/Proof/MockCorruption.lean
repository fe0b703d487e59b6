import EspNetwork.Lib.Lanes
import EspNetwork.Proof.MockAead

/-!
# The mock AEAD detects a single corrupted byte

The tag is a fold of ciphertext and associated data into 16 lanes, which start from key and
nonce.

* `fakeTag_ciphertext`, `fakeTag_ad`, `fakeTag_nonce`, `fakeTag_key`: one byte replaced in
  one of them gives another tag.
* `corruption_detected`: **decryption rejects a packet with one byte replaced**, in the
  packet or in what it is decrypted with.
-/

namespace EspNetwork.Aead

open CLib

variable {n n' : Nat} {z : Sizes} {npub npub' k k' ad ad' m c c' x y : Bytes}

/-- `y` is `x` with one byte replaced by a different one. -/
def Replaced (x y : Bytes) : Prop := ∃ pre b b' post, x = pre ++ b :: post ∧ y = pre ++ b' :: post ∧ b ≠ b'

/-- A replaced byte makes another text. -/
theorem Replaced.ne (h : Replaced x y) : x ≠ y := by
  obtain ⟨pre, b, b', post, rfl, rfl, hne⟩ := h
  intro he
  exact hne (List.cons.inj (List.append_cancel_left he)).1

/-- Replacing a byte keeps the length. -/
theorem Replaced.length_eq (h : Replaced x y) : x.length = y.length := by
  obtain ⟨pre, b, b', post, rfl, rfl, -⟩ := h
  simp

/-- The byte that was replaced. -/
theorem Replaced.getD_ne (h : Replaced x y) : ∃ i < x.length, x.getD i 0 ≠ y.getD i 0 := by
  obtain ⟨pre, b, b', post, rfl, rfl, hne⟩ := h
  refine ⟨pre.length, by simp, ?_⟩
  simpa using hne

/-- A byte of two texts is one of the first or of the second. -/
theorem replaced_append {t z : Bytes} (h : Replaced (x ++ t) z) :
    (∃ y, Replaced x y ∧ z = y ++ t) ∨ ∃ u, Replaced t u ∧ z = x ++ u := by
  obtain ⟨pre, b, b', post, he, rfl, hne⟩ := h
  rcases List.append_eq_append_iff.1 he with ⟨r, rfl, ht⟩ | ⟨r, rfl, ht⟩
  · exact .inr ⟨r ++ b' :: post, ⟨r, b, b', post, ht, rfl, hne⟩, by simp⟩
  · cases r with
    | nil =>
      rw [List.nil_append] at ht
      exact .inr ⟨b' :: post, ⟨[], b, b', post, ht.symm, rfl, hne⟩, by simp⟩
    | cons a r =>
      obtain ⟨rfl, rfl⟩ := List.cons.inj ht
      exact .inl ⟨pre ++ b' :: r, ⟨pre, b, b', r, rfl, rfl, hne⟩, by simp⟩

/-! ## The lanes of the tag -/

theorem xorLoop_eq (acc src : Bytes) : xorLoop z acc src = Lanes.fold (· ^^^ ·) z.tagLen acc src.zipIdx := rfl

theorem xor_injective (b : Byte) : Function.Injective (b ^^^ ·) := by
  intro x y h
  exact (UInt8.xor_right_inj b).1 h

theorem xor_injective' (b : Byte) : Function.Injective (· ^^^ b) := by
  intro x y h
  exact (UInt8.xor_left_inj b).1 h

/-- Other accumulators give other tags. -/
theorem xorLoop_injective {acc acc' src : Bytes} (h : xorLoop z acc src = xorLoop z acc' src) : acc = acc' :=
  Lanes.fold_injective xor_injective' h

/-- A byte replaced in what is folded changes its lane. -/
theorem xorLoop_replaced {acc : Bytes} (h0 : 0 < z.tagLen) (hacc : acc.length = z.tagLen) (h : Replaced x y) :
    xorLoop z acc x ≠ xorLoop z acc y := by
  obtain ⟨pre, b, b', post, rfl, rfl, hne⟩ := h
  intro he
  rw [xorLoop_eq, xorLoop_eq, List.zipIdx_append, List.zipIdx_append, List.zipIdx_cons, List.zipIdx_cons] at he
  apply hne
  apply Lanes.fold_replace xor_injective _ he
  rw [hacc]
  exact Nat.mod_lt _ h0

/-- The lanes before the two loops. -/
def lanes (z : Sizes) (npub k : Bytes) : Bytes := (List.range z.tagLen).map (pad z npub k)

theorem length_lanes : (lanes z npub k).length = z.tagLen := by
  rw [lanes, List.length_map, List.length_range]

/-- The tag starts from nonce and key and folds in the ciphertext, then the associated data. -/
theorem fakeTag_eq : fakeTag z c ad npub k = xorLoop z (xorLoop z (lanes z npub k) c) ad := rfl

theorem length_xorLoop_lanes : (xorLoop z (lanes z npub k) c).length = z.tagLen := by
  rw [length_xorLoop, length_lanes]

/-- One changed byte of the ciphertext changes the tag. -/
theorem fakeTag_ciphertext (h0 : 0 < z.tagLen) (h : Replaced c c') : fakeTag z c ad npub k ≠ fakeTag z c' ad npub k := by
  intro he
  rw [fakeTag_eq, fakeTag_eq] at he
  exact xorLoop_replaced h0 length_lanes h (xorLoop_injective he)

/-- The same for the associated data. -/
theorem fakeTag_ad (h0 : 0 < z.tagLen) (h : Replaced ad ad') : fakeTag z c ad npub k ≠ fakeTag z c ad' npub k := by
  rw [fakeTag_eq, fakeTag_eq]
  exact xorLoop_replaced h0 length_xorLoop_lanes h

/-- Lanes that differ in one place. -/
theorem fakeTag_lanes {i : ℕ} (hi : i < z.tagLen) (hp : pad z npub k i ≠ pad z npub' k' i) :
    fakeTag z c ad npub k ≠ fakeTag z c ad npub' k' := by
  intro he
  rw [fakeTag_eq, fakeTag_eq] at he
  have hlanes : lanes z npub k = lanes z npub' k' := xorLoop_injective (xorLoop_injective he)
  have hget := List.getElem_of_eq hlanes (i := i) (by rwa [length_lanes])
  simp only [lanes, List.getElem_map, List.getElem_range] at hget
  exact hp hget

/-- The same for the nonce, all of whose bytes have a lane. -/
theorem fakeTag_nonce (hz : z.nonceLen ≤ z.tagLen) (hn : npub.length = z.nonceLen) (h : Replaced npub npub') :
    fakeTag z c ad npub k ≠ fakeTag z c ad npub' k := by
  obtain ⟨i, hi, hne⟩ := h.getD_ne
  rw [hn] at hi
  apply fakeTag_lanes (lt_of_lt_of_le hi hz)
  unfold pad
  rw [Nat.mod_eq_of_lt hi]
  exact fun he => hne (xor_injective _ he)

/-- The same for the key. -/
theorem fakeTag_key (hz : z.keyLen ≤ z.tagLen) (hk : k.length = z.keyLen) (h : Replaced k k') :
    fakeTag z c ad npub k ≠ fakeTag z c ad npub k' := by
  obtain ⟨i, hi, hne⟩ := h.getD_ne
  rw [hk] at hi
  apply fakeTag_lanes (lt_of_lt_of_le hi hz)
  unfold pad
  rw [Nat.mod_eq_of_lt hi]
  exact fun he => hne (xor_injective' _ he)

/-! ## Decryption -/

/-- One byte replaced in a packet, or in what it is decrypted with. -/
inductive Corruption (c ad npub k : Bytes) : Bytes → Bytes → Bytes → Bytes → Prop
  /-- in the ciphertext or the tag -/
  | packet {c' : Bytes} (h : Replaced c c') : Corruption c ad npub k c' ad npub k
  | ad {ad' : Bytes} (h : Replaced ad ad') : Corruption c ad npub k c ad' npub k
  | nonce {npub' : Bytes} (h : Replaced npub npub') : Corruption c ad npub k c ad npub' k
  | key {k' : Bytes} (h : Replaced k k') : Corruption c ad npub k c ad npub k'

/-- A tag that does not fit is refused, the buffer untouched. -/
theorem aeadDecrypt_of_tag {ct tag : Bytes} (out : Arr n) (mlen : Nat) (ht : tag.length = z.tagLen)
    (h : fakeTag z ct ad npub k ≠ tag) : aeadDecrypt z out mlen (ct ++ tag) ad npub k = some ⟨out, mlen, -1⟩ := by
  rw [aeadDecrypt_append out mlen ht, if_neg h]

/-- **A corrupted packet is rejected**, where the tag is as long as nonce and key. -/
theorem sealed_corrupted (out : Arr n) (mlen : Nat) (h0 : 0 < z.tagLen) (hz : z.nonceLen ≤ z.tagLen ∧ z.keyLen ≤ z.tagLen)
    (hn : npub.length = z.nonceLen) (hk : k.length = z.keyLen)
    (h : Corruption (sealed z ad npub k m) ad npub k c' ad' npub' k') :
    aeadDecrypt z out mlen c' ad' npub' k' = some ⟨out, mlen, -1⟩ := by
  have hlen := length_fakeTag (z := z) (cryptBytes z npub k 0 m) ad npub k
  cases h with
  | packet h =>
    rcases replaced_append h with ⟨ct, hct, rfl⟩ | ⟨tag, htag, rfl⟩
    · exact aeadDecrypt_of_tag out mlen hlen (fakeTag_ciphertext h0 hct).symm
    · exact aeadDecrypt_of_tag out mlen (htag.length_eq.symm.trans hlen) htag.ne
  | ad h => exact aeadDecrypt_of_tag out mlen hlen (fakeTag_ad h0 h).symm
  | nonce h => exact aeadDecrypt_of_tag out mlen hlen (fakeTag_nonce hz.1 hn h).symm
  | key h => exact aeadDecrypt_of_tag out mlen hlen (fakeTag_key hz.2 hk h).symm

/-- **The mock AEAD detects every single-byte corruption**: what `aead_encrypt` stored, with
one byte replaced in it, in the associated data, the nonce or the key, is rejected, and
nothing is stored. -/
theorem corruption_detected {buf : Arr n} {clen : Nat} {o : Out n} (hk : k.length = Impl.mock.sizes.keyLen)
    (hn : npub.length = Impl.mock.sizes.nonceLen) (henc : aeadEncrypt Impl.mock.sizes buf clen m ad npub k = some o)
    (h : Corruption (o.buf.data.take o.len) ad npub k c' ad' npub' k') (out : Arr n') (mlen : Nat) :
    aeadDecrypt Impl.mock.sizes out mlen c' ad' npub' k' = some ⟨out, mlen, -1⟩ := by
  rw [aeadEncrypt_eq] at henc
  obtain ⟨b, hb, rfl⟩ := Option.map_eq_some_iff.1 henc
  have hdata := (Arr.store_eq_some_iff.1 hb).2
  rw [List.take_zero, List.nil_append] at hdata
  have hpacket : b.data.take (m.length + Impl.mock.sizes.tagLen) = sealed Impl.mock.sizes ad npub k m := by
    rw [hdata, List.take_left' length_sealed]
  rw [hpacket] at h
  exact sealed_corrupted out mlen (by decide) ⟨by decide, by decide⟩ hn hk h

/-- Another first byte of the nonce. -/
theorem corruption_detected_nonce : ∃ o : Out 32,
    aeadEncrypt Impl.mock.sizes (Arr.zeros 32) 0 (bytes "hello") [] (List.replicate 16 0) (gKey Impl.mock.sizes) = some o ∧
    aeadDecrypt Impl.mock.sizes (Arr.zeros 8) 0 (o.buf.data.take o.len) [] (1 :: List.replicate 15 0)
      (gKey Impl.mock.sizes) = some ⟨Arr.zeros 8, 0, -1⟩ := by
  have hsome : (aeadEncrypt Impl.mock.sizes (Arr.zeros 32) 0 (bytes "hello") [] (List.replicate 16 0)
      (gKey Impl.mock.sizes)).isSome := by decide +kernel
  obtain ⟨o, ho⟩ := Option.isSome_iff_exists.1 hsome
  have hreplaced : Replaced (List.replicate 16 0) (1 :: List.replicate 15 0) :=
    ⟨[], 0, 1, List.replicate 15 0, rfl, rfl, by decide⟩
  exact ⟨o, ho, corruption_detected (by decide) (by decide) ho (.nonce hreplaced) (Arr.zeros 8) 0⟩

end EspNetwork.Aead
