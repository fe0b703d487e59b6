import EspNetwork.Spec.AeadReceiver

/-!
# Bounds of the AEAD receiver

* `bytesToHex_exists`: `bytes_to_hex` never leaves its output array.
* `cryptLoop_isSome_iff`: the decrypt loop leaves `m` iff the plaintext is too long.
* `receivePass_isSome_iff`: with the mock provider built for any of the supported
  sizes, a pass of the receive loop stays in bounds iff the plaintext fits `pt` or
  the tag is rejected. The receive loop does not check the first.
-/

namespace EspNetwork.Aead

open CLib

variable {n : Nat} {z : Sizes} {npub k key : Bytes}

/-! ## The two loops -/

theorem cryptLoop_isSome_iff : ∀ {src : Bytes} {dst : Arr n} {i : Nat}, i ≤ n →
    ((cryptLoop z npub k dst i src).isSome ↔ i + src.length ≤ n) := by
  intro src
  induction src with
  | nil => intro dst i hi; simpa [cryptLoop] using hi
  | cons b src ih =>
    intro dst i hi
    simp only [cryptLoop, Option.bind_eq_bind, List.length_cons]
    by_cases h : i + 1 ≤ n
    · obtain ⟨dst', hd⟩ := Arr.exists_store dst i [b ^^^ pad z npub k i] (by simpa using h)
      rw [hd, Option.bind_some, ih h]
      omega
    · have hn : dst.store i [b ^^^ pad z npub k i] = none := by
        rw [Arr.store_eq_none_iff, List.length_singleton]; omega
      rw [hn]
      simp only [Option.bind_none, Option.isSome_none, Bool.false_eq_true, false_iff]
      omega

theorem hexLoop_exists : ∀ (src : Bytes) (out : Arr n) (i : Nat), 2 * (i + src.length) ≤ n →
    ∃ out', hexLoop out i src = some out' := by
  intro src
  induction src with
  | nil => intro out i _; exact ⟨out, rfl⟩
  | cons b src ih =>
    intro out i h
    rw [List.length_cons] at h
    obtain ⟨out1, h1⟩ := Arr.exists_store out (2 * i) [hexDigits.getD (b >>> 4 &&& 0xF).toNat 0]
      (by rw [List.length_singleton]; omega)
    obtain ⟨out2, h2⟩ := Arr.exists_store out1 (2 * i + 1) [hexDigits.getD (b &&& 0xF).toNat 0]
      (by rw [List.length_singleton]; omega)
    obtain ⟨out', h'⟩ := ih out2 (i + 1) (by omega)
    exact ⟨out', by simp only [hexLoop, Option.bind_eq_bind, h1, h2, Option.bind_some, h']⟩

/-- `bytes_to_hex` never leaves its output array: it stores nothing when the text
does not fit. -/
theorem bytesToHex_exists (src : Bytes) (out : Arr n) : ∃ out', bytesToHex src out = some out' := by
  unfold bytesToHex
  split
  · exact ⟨out, rfl⟩
  · rename_i h
    obtain ⟨out1, h1⟩ := hexLoop_exists src out 0 (by omega)
    obtain ⟨out2, h2⟩ := Arr.exists_store out1 (2 * src.length) [0]
      (by rw [List.length_singleton]; omega)
    exact ⟨out2, by rw [Option.bind_eq_bind, h1, Option.bind_some, h2]⟩

/-! ## The provider call -/

/-- The mock decryption of a ciphertext with its tag split off. -/
theorem aeadDecrypt_append (m : Arr n) (mlen : Nat) {ct tag ad : Bytes} (ht : tag.length = z.tagLen) :
    aeadDecrypt z m mlen (ct ++ tag) ad npub k =
      if fakeTag z ct ad npub k = tag then (cryptLoop z npub k m 0 ct).map fun m => ⟨m, ct.length, 0⟩
      else some ⟨m, mlen, -1⟩ := by
  have hl : (ct ++ tag).length = ct.length + z.tagLen := by rw [List.length_append, ht]
  have hs : subSize (ct ++ tag).length z.tagLen = some ct.length := by
    rw [subSize, if_pos (by omega), hl, Nat.add_sub_cancel]
  unfold aeadDecrypt
  rw [if_neg (by omega), hs]
  simp only [Option.bind_eq_bind, Option.bind_some, List.take_left' rfl, List.drop_left' rfl]
  by_cases h : fakeTag z ct ad npub k = tag
  · rw [if_neg (by simpa using h), if_pos h]
    cases cryptLoop z npub k m 0 ct <;> rfl
  · rw [if_pos (by simpa using h), if_neg h]
    rfl

/-- The mock decryption leaves `m` iff it accepts a plaintext longer than `m`. -/
theorem aeadDecrypt_isSome_iff (m : Arr n) (mlen : Nat) {ct tag ad : Bytes} (ht : tag.length = z.tagLen) :
    (aeadDecrypt z m mlen (ct ++ tag) ad npub k).isSome ↔
      (fakeTag z ct ad npub k = tag → ct.length ≤ n) := by
  rw [aeadDecrypt_append m mlen ht]
  by_cases h : fakeTag z ct ad npub k = tag
  · have hloop : (cryptLoop z npub k m 0 ct).isSome ↔ 0 + ct.length ≤ n := cryptLoop_isSome_iff (Nat.zero_le _)
    rw [if_pos h, Option.isSome_map, hloop]
    simp [h]
  · rw [if_neg h]; simp [h]

/-! ## One pass of the receive loop -/

/-- A datagram without room for a nonce and a tag is only stored. -/
theorem receivePass_short (p : Provider) (st : Statics p.sizes) {dgram : Bytes}
    (h : dgram.length < p.sizes.nonceLen + p.sizes.tagLen) (hr : dgram.length ≤ 2048) :
    (receivePass p key st dgram).isSome := by
  obtain ⟨buf, hb⟩ := Arr.exists_store st.buf 0 dgram (by omega)
  unfold receivePass
  simp only [hb, Option.bind_eq_bind, Option.bind_some]
  rw [if_pos h]
  rfl

/-- **What a pass does** with a datagram that has room for a nonce and a tag: all of it
is stored, its first 8 bytes are the associated data, and what follows the nonce is
decrypted. -/
theorem receivePass_eq (p : Provider) (key : Bytes) (st : Statics p.sizes) {nonce c : Bytes}
    (hn : nonce.length = p.sizes.nonceLen) (h8 : 8 ≤ p.sizes.nonceLen) (hc : p.sizes.tagLen ≤ c.length)
    (hr : (nonce ++ c).length ≤ 2048) :
    ∃ (buf : Arr 2048) (aad : Arr 8) (nonceHex : Arr (p.sizes.nonceLen * 2 + 1)) (ctHex : Arr 1024),
      buf.data = nonce ++ c ++ st.buf.data.drop (nonce ++ c).length ∧ aad.data = nonce.take 8 ∧
      bytesToHex nonce st.nonceHex = some nonceHex ∧ bytesToHex c st.ctHex = some ctHex ∧
      receivePass p key st (nonce ++ c) = (p.decrypt st.pt 0 c (nonce.take 8) nonce key).bind fun dec =>
        if dec.ret = 0 then
          (dec.buf.store (if dec.len < 1024 - 1 then dec.len else 1024 - 1) [0]).map fun pt =>
            (⟨buf, aad, pt, nonceHex, ctHex⟩, .plaintext (cstr nonceHex.data) (cstr ctHex.data) (cstr pt.data))
        else some (⟨buf, aad, dec.buf, nonceHex, ctHex⟩, .authFailure (cstr nonceHex.data) (cstr ctHex.data)) := by
  obtain ⟨buf, hb⟩ := Arr.exists_store st.buf 0 (nonce ++ c) (by omega)
  have hbd : buf.data = nonce ++ c ++ st.buf.data.drop (nonce ++ c).length := by
    have := (Arr.store_eq_some_iff.1 hb).2
    simpa using this
  rw [List.length_append] at hr
  have hnonce : buf.data.take p.sizes.nonceLen = nonce := by
    rw [hbd, List.append_assoc, List.take_left' hn]
  have hct : (buf.data.drop p.sizes.nonceLen).take c.length = c := by
    rw [hbd, List.append_assoc, List.drop_left' hn, List.take_left' rfl]
  have h8' : buf.data.take 8 = nonce.take 8 := by
    rw [← hnonce, List.take_take, min_eq_left h8]
  have hlen : (nonce.take 8).length = 8 := by rw [List.length_take]; omega
  obtain ⟨aad, ha⟩ := Arr.exists_store st.aad 0 (nonce.take 8) (by omega)
  -- the associated data is overwritten as a whole
  have had : aad.data = nonce.take 8 := by
    have := (Arr.store_eq_some_iff.1 ha).2
    rw [this, hlen, List.drop_eq_nil_of_le (by rw [st.aad.size_eq])]
    simp
  have hsub : subSize (nonce ++ c).length p.sizes.nonceLen = some c.length := by
    rw [subSize, List.length_append, if_pos (by omega), hn, Nat.add_sub_cancel_left]
  obtain ⟨nonceHex, hnh⟩ := bytesToHex_exists nonce st.nonceHex
  obtain ⟨ctHex, hch⟩ := bytesToHex_exists c st.ctHex
  refine ⟨buf, aad, nonceHex, ctHex, hbd, had, hnh, hch, ?_⟩
  unfold receivePass
  simp only [hb, Option.bind_eq_bind, Option.bind_some]
  rw [if_neg (by rw [List.length_append]; omega), hsub]
  simp only [Option.bind_some, hct, h8', hnonce, ha, had, hnh, hch]
  congr 1
  funext dec
  split
  · cases dec.buf.store (if dec.len < 1024 - 1 then dec.len else 1024 - 1) [0] <;> rfl
  · rfl

/-- **A pass stays in bounds iff the decryption does**, whatever the provider. -/
theorem receivePass_provider (p : Provider) (st : Statics p.sizes) {nonce c : Bytes}
    (hn : nonce.length = p.sizes.nonceLen) (h8 : 8 ≤ p.sizes.nonceLen) (hc : p.sizes.tagLen ≤ c.length)
    (hr : (nonce ++ c).length ≤ 2048) : (receivePass p key st (nonce ++ c)).isSome ↔
      (p.decrypt st.pt 0 c (nonce.take 8) nonce key).isSome := by
  obtain ⟨buf, aad, nonceHex, ctHex, -, -, -, -, he⟩ := receivePass_eq p key st hn h8 hc hr
  rw [he]
  cases hdec : p.decrypt st.pt 0 c (nonce.take 8) nonce key with
  | none => simp
  | some dec =>
    simp only [Option.bind_some, Option.isSome_some, iff_true]
    split
    · -- the terminating NUL is clamped to the last byte of `pt`
      rw [Option.isSome_map, Arr.store_isSome_iff, List.length_singleton]
      split <;> omega
    · rfl

/-- A datagram whose tag the mock provider accepts. -/
def Authentic (z : Sizes) (key dgram : Bytes) : Prop :=
  ∃ nonce ct tag, dgram = nonce ++ (ct ++ tag) ∧ nonce.length = z.nonceLen ∧ tag.length = z.tagLen ∧
    fakeTag z ct (nonce.take 8) nonce key = tag

/-- A long enough datagram splits into nonce, ciphertext and tag. -/
theorem dgram_split {N T : Nat} {d : Bytes} (h : N + T ≤ d.length) : ∃ nonce ct tag,
    d = nonce ++ (ct ++ tag) ∧ nonce.length = N ∧ tag.length = T := by
  refine ⟨d.take N, (d.drop N).take (d.length - N - T), (d.drop N).drop (d.length - N - T), ?_, ?_, ?_⟩
  · rw [List.take_append_drop, List.take_append_drop]
  · rw [List.length_take]; omega
  · rw [List.length_drop, List.length_drop]; omega

theorem receivePass_isSome_core (st : Statics z) {dgram : Bytes} (h8 : 8 ≤ z.nonceLen)
    (hr : dgram.length ≤ 2048) : (receivePass (mockProvider z) key st dgram).isSome ↔
      dgram.length ≤ z.nonceLen + z.tagLen + 1024 ∨ ¬ Authentic z key dgram := by
  by_cases hshort : dgram.length < z.nonceLen + z.tagLen
  · exact iff_of_true (receivePass_short (mockProvider z) st hshort hr) (.inl (by omega))
  obtain ⟨nonce, ct, tag, rfl, hn, ht⟩ := dgram_split (Nat.le_of_not_lt hshort)
  have hc : z.tagLen ≤ (ct ++ tag).length := by rw [List.length_append]; omega
  have hp : (receivePass (mockProvider z) key st (nonce ++ (ct ++ tag))).isSome ↔ _ :=
    receivePass_provider (mockProvider z) st hn h8 hc hr
  have hd : ((mockProvider z).decrypt st.pt 0 (ct ++ tag) (nonce.take 8) nonce key).isSome ↔
      (fakeTag z ct (nonce.take 8) nonce key = tag → ct.length ≤ 1024) := aeadDecrypt_isSome_iff st.pt 0 ht
  rw [hp, hd]
  simp only [List.length_append]
  constructor
  · intro h
    by_cases hct : ct.length ≤ 1024
    · left; omega
    · right
      intro hauth
      obtain ⟨nonce', ct', tag', he, hn', ht', hf⟩ := hauth
      obtain ⟨e1, he'⟩ := List.append_inj he (hn.trans hn'.symm)
      obtain ⟨e2, e3⟩ := List.append_inj' he' (ht.trans ht'.symm)
      subst e1 e2 e3
      exact hct (h hf)
  · intro h hf
    rcases h with h | h
    · omega
    · exact absurd ⟨nonce, ct, tag, rfl, hn, ht, hf⟩ h

theorem Impl.nonceLen_ge (i : Impl) : 8 ≤ i.sizes.nonceLen := by cases i <;> decide

/-- **When the receiver stays in bounds.** For every provider's sizes, a pass over a
datagram of at most 2048 bytes neither underflows nor leaves an array iff the
plaintext is at most 1024 bytes long or the tag is rejected. -/
theorem receivePass_isSome_iff (i : Impl) (key : Bytes) (st : Statics i.sizes) (dgram : Bytes)
    (hr : dgram.length ≤ 2048) : (receivePass (mockProvider i.sizes) key st dgram).isSome ↔
      dgram.length ≤ i.sizes.nonceLen + i.sizes.tagLen + 1024 ∨ ¬ Authentic i.sizes key dgram :=
  receivePass_isSome_core st i.nonceLen_ge hr

/-- A datagram of 1056 bytes: nonce and ciphertext all zero, and the tag the mock provider
computes for them. -/
def fullDgram : Bytes := List.replicate 16 0 ++ (List.replicate 1024 0 ++ gKey Impl.mock.sizes)

/-- `receivePass_isSome_iff` at `fullDgram`, whose plaintext fills `pt`. -/
theorem receivePass_isSome_iff_full : Authentic Impl.mock.sizes (gKey Impl.mock.sizes) fullDgram ∧
    (receivePass (mockProvider Impl.mock.sizes) (gKey Impl.mock.sizes) (Statics.init _) fullDgram).isSome := by
  have hlen : fullDgram.length = 1056 := by
    rw [fullDgram, List.length_append, List.length_append, List.length_replicate, List.length_replicate]
    rfl
  refine ⟨⟨List.replicate 16 0, List.replicate 1024 0, gKey Impl.mock.sizes, rfl, rfl, rfl, by decide +kernel⟩, ?_⟩
  refine (receivePass_isSome_iff .mock (gKey Impl.mock.sizes) (Statics.init _) fullDgram (by omega)).2 (.inl ?_)
  rw [hlen]
  decide

/-- A 1057-byte datagram: nonce and ciphertext all zero, and the tag the mock
provider computes for them. -/
def longDgram : Bytes := List.replicate 16 0 ++ (List.replicate 1025 0 ++ gKey Impl.mock.sizes)

/-- The mock provider accepts `longDgram`, and its plaintext leaves `pt`. -/
theorem receivePass_longDgram : longDgram.length ≤ 2048 ∧
    receivePass (mockProvider Impl.mock.sizes) (gKey Impl.mock.sizes) (Statics.init _) longDgram = none := by
  have hlen : longDgram.length = 1057 := by
    rw [longDgram, List.length_append, List.length_append, List.length_replicate, List.length_replicate]
    rfl
  have hauth : Authentic Impl.mock.sizes (gKey Impl.mock.sizes) longDgram :=
    ⟨List.replicate 16 0, List.replicate 1025 0, gKey Impl.mock.sizes, rfl, rfl, rfl, by decide +kernel⟩
  refine ⟨by omega, ?_⟩
  rw [← Option.not_isSome_iff_eq_none]
  intro hs
  rcases (receivePass_isSome_core (Statics.init _) (by decide) (by omega)).1 hs with h | h
  · rw [hlen] at h; exact absurd h (by decide)
  · exact h hauth

end EspNetwork.Aead
