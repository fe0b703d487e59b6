import EspNetwork.Proof.Receiver

/-!
# The mock AEAD is a bijection onto the ciphertexts it accepts

* `cryptLoop_eq`: the crypt loop stores its source, XORed with the pad, in one piece.
* `aeadEncrypt_eq`: encryption stores ciphertext and tag (`sealed`).
* `aeadDecrypt_sealed`, `aeadDecrypt_reject`: decryption returns the message that was
  sealed and rejects, without a store, what was not.
* `aead_inverse`: **encryption and decryption are mutually inverse.**
-/

namespace EspNetwork.Aead

open CLib

variable {n : Nat} {z : Sizes} {npub k ad m c : Bytes}

/-! ## The crypt loop -/

/-- `src`, the bytes of a text from index `i` on, XORed with the pad. -/
def cryptBytes (z : Sizes) (npub k : Bytes) : Nat → Bytes → Bytes
  | _, [] => []
  | i, b :: src => (b ^^^ pad z npub k i) :: cryptBytes z npub k (i + 1) src

@[simp] theorem length_cryptBytes (i : Nat) (src : Bytes) : (cryptBytes z npub k i src).length = src.length := by
  induction src generalizing i with
  | nil => rfl
  | cons b src ih => rw [cryptBytes, List.length_cons, List.length_cons, ih]

/-- XORing twice with the pad is the identity. -/
@[simp] theorem cryptBytes_cryptBytes (i : Nat) (src : Bytes) :
    cryptBytes z npub k i (cryptBytes z npub k i src) = src := by
  induction src generalizing i with
  | nil => rfl
  | cons b src ih => rw [cryptBytes, cryptBytes, ih, UInt8.xor_assoc, UInt8.xor_self, UInt8.xor_zero]

/-- **The loop is one store.** -/
theorem cryptLoop_eq (dst : Arr n) {i : Nat} (hi : i ≤ n) (src : Bytes) :
    cryptLoop z npub k dst i src = dst.store i (cryptBytes z npub k i src) := by
  induction src generalizing dst i with
  | nil =>
    rw [cryptLoop, cryptBytes, eq_comm, Arr.store_eq_some_iff]
    exact ⟨by simpa using hi, by simp⟩
  | cons b src ih =>
    have happ : ((dst.store i [b ^^^ pad z npub k i]).bind fun d =>
        d.store (i + 1) (cryptBytes z npub k (i + 1) src)) = dst.store i (cryptBytes z npub k i (b :: src)) :=
      Arr.store_append
    rw [cryptLoop, ← happ, Option.bind_eq_bind]
    cases hd : dst.store i [b ^^^ pad z npub k i] with
    | none => rfl
    | some d =>
      have hi' := (Arr.store_eq_some_iff.1 hd).1
      rw [Option.bind_some, Option.bind_some]
      exact ih d hi'

/-! ## The tag -/

theorem length_xorLoop (acc src : Bytes) : (xorLoop z acc src).length = acc.length := by
  unfold xorLoop
  generalize src.zipIdx = ps
  induction ps generalizing acc with
  | nil => rfl
  | cons p ps ih => rw [List.foldl_cons, ih, List.length_modify]

@[simp] theorem length_fakeTag (c ad npub k : Bytes) : (fakeTag z c ad npub k).length = z.tagLen := by
  rw [fakeTag, length_xorLoop, length_xorLoop, List.length_map, List.length_range]

/-! ## Encryption -/

/-- The ciphertext of `m` and its tag. -/
def sealed (z : Sizes) (ad npub k m : Bytes) : Bytes :=
  cryptBytes z npub k 0 m ++ fakeTag z (cryptBytes z npub k 0 m) ad npub k

@[simp] theorem length_sealed : (sealed z ad npub k m).length = m.length + z.tagLen := by
  rw [sealed, List.length_append, length_cryptBytes, length_fakeTag]

/-- **Encryption stores the sealed message**, and reports its length. -/
theorem aeadEncrypt_eq (buf : Arr n) (clen : Nat) (ad npub k m : Bytes) : aeadEncrypt z buf clen m ad npub k =
    (buf.store 0 (sealed z ad npub k m)).map fun c => ⟨c, m.length + z.tagLen, 0⟩ := by
  unfold aeadEncrypt
  rw [cryptLoop_eq buf (Nat.zero_le n), sealed, ← Arr.store_append]
  cases hb : buf.store 0 (cryptBytes z npub k 0 m) with
  | none => rfl
  | some c =>
    -- the tag is computed over the ciphertext just stored
    have htake : c.data.take m.length = cryptBytes z npub k 0 m := by
      rw [(Arr.store_eq_some_iff.1 hb).2, List.take_zero, List.nil_append]
      exact List.take_left' (length_cryptBytes 0 m)
    simp only [Option.bind_eq_bind, Option.bind_some, htake, length_cryptBytes, Nat.zero_add]
    cases c.store m.length (fakeTag z (cryptBytes z npub k 0 m) ad npub k) <;> rfl

/-! ## Decryption -/

/-- **Decryption returns the message that was sealed.** -/
theorem aeadDecrypt_sealed (buf : Arr n) (mlen : Nat) (ad npub k m : Bytes) :
    aeadDecrypt z buf mlen (sealed z ad npub k m) ad npub k =
      (buf.store 0 m).map fun b => ⟨b, m.length, 0⟩ := by
  rw [sealed, aeadDecrypt_append buf mlen (length_fakeTag _ _ _ _), if_pos rfl,
    cryptLoop_eq buf (Nat.zero_le n), cryptBytes_cryptBytes, length_cryptBytes]

/-- The message a byte string with room for a tag would seal. -/
theorem sealed_of_tag {ct tag : Bytes} (h : fakeTag z ct ad npub k = tag) :
    sealed z ad npub k (cryptBytes z npub k 0 ct) = ct ++ tag := by
  rw [sealed, cryptBytes_cryptBytes, h]

/-- **What was not sealed is rejected**: nothing is stored. -/
theorem aeadDecrypt_reject (buf : Arr n) (mlen : Nat) (h : ∀ m, sealed z ad npub k m ≠ c) :
    aeadDecrypt z buf mlen c ad npub k = some ⟨buf, mlen, -1⟩ := by
  by_cases hlen : c.length < z.tagLen
  · rw [aeadDecrypt, if_pos hlen]
  · obtain ⟨ct, tag, rfl, htag⟩ : ∃ ct tag : Bytes, c = ct ++ tag ∧ tag.length = z.tagLen :=
      ⟨c.take (c.length - z.tagLen), c.drop (c.length - z.tagLen), (List.take_append_drop _ _).symm,
        by rw [List.length_drop]; omega⟩
    rw [aeadDecrypt_append buf mlen htag, if_neg]
    intro hf
    exact h _ (sealed_of_tag hf)

/-- Messages with the same sealed text are the same. -/
theorem sealed_injective {m' : Bytes} (h : sealed z ad npub k m = sealed z ad npub k m') : m = m' := by
  have hlen : m.length = m'.length := by
    have := congrArg List.length h
    rw [length_sealed, length_sealed] at this
    omega
  have hct := (List.append_inj h (by rw [length_cryptBytes, length_cryptBytes, hlen])).1
  have := congrArg (cryptBytes z npub k 0) hct
  rwa [cryptBytes_cryptBytes, cryptBytes_cryptBytes] at this

/-! ## The two functions as inverses -/

/-- `aead_encrypt` turns `m` into `c`: into every buffer that has the room it stores
`c`, reports its length and returns 0. -/
def Encrypts (z : Sizes) (ad npub k m c : Bytes) : Prop :=
  ∀ {n : Nat} (buf : Arr n) (clen : Nat), m.length + z.tagLen ≤ n → ∃ o, aeadEncrypt z buf clen m ad npub k = some o ∧
    o.ret = 0 ∧ o.len = m.length + z.tagLen ∧ o.buf.data = c ++ buf.data.drop o.len

theorem encrypts_iff : Encrypts z ad npub k m c ↔ sealed z ad npub k m = c := by
  have hstore : ∀ {n : Nat} (buf : Arr n) (clen : Nat), m.length + z.tagLen ≤ n →
      ∃ b, aeadEncrypt z buf clen m ad npub k = some ⟨b, m.length + z.tagLen, 0⟩ ∧
        b.data = sealed z ad npub k m ++ buf.data.drop (m.length + z.tagLen) := by
    intro n buf clen hn
    obtain ⟨b, hb⟩ := Arr.exists_store buf 0 (sealed z ad npub k m) (by rw [length_sealed]; omega)
    have hbd := (Arr.store_eq_some_iff.1 hb).2
    rw [length_sealed, Nat.zero_add, List.take_zero, List.nil_append] at hbd
    exact ⟨b, by rw [aeadEncrypt_eq, hb]; rfl, hbd⟩
  constructor
  · intro h
    obtain ⟨b, he, hb⟩ := hstore (Arr.zeros (m.length + z.tagLen)) 0 le_rfl
    obtain ⟨o, ho, -, -, hd⟩ := h (Arr.zeros (m.length + z.tagLen)) 0 le_rfl
    rw [he, Option.some.injEq] at ho
    subst ho
    exact List.append_cancel_right (hb.symm.trans hd)
  · rintro rfl n buf clen hn
    obtain ⟨b, he, hb⟩ := hstore buf clen hn
    exact ⟨_, he, rfl, rfl, hb⟩

/-- **Encryption and decryption are mutually inverse.** Every message has a ciphertext
of `|m| + AEAD_TAG_LEN` bytes, from which decryption returns it. Decryption succeeds
on exactly the ciphertexts, each of one message, which it returns; on every other byte
string it returns `-1` and leaves the buffer and `*mlen` as they were. -/
theorem aead_inverse (z : Sizes) (key npub ad : Bytes) :
    (∀ m, ∃ c, Encrypts z ad npub key m c ∧ c.length = m.length + z.tagLen) ∧
    (∀ {n : Nat} (buf : Arr n) (mlen : Nat) (c : Bytes), c.length ≤ n + z.tagLen →
      ((∃ o, aeadDecrypt z buf mlen c ad npub key = some o ∧ o.ret = 0) ↔ ∃ m, Encrypts z ad npub key m c) ∧
      (∀ m, Encrypts z ad npub key m c → (∀ m', Encrypts z ad npub key m' c → m' = m) ∧
        ∃ o, aeadDecrypt z buf mlen c ad npub key = some o ∧ o.ret = 0 ∧ o.len = m.length ∧
          o.buf.data = m ++ buf.data.drop m.length)) ∧
    (∀ {n : Nat} (buf : Arr n) (mlen : Nat) (c : Bytes),
      (c.length < z.tagLen → ¬ ∃ m, Encrypts z ad npub key m c) ∧
      ((¬ ∃ m, Encrypts z ad npub key m c) → aeadDecrypt z buf mlen c ad npub key = some ⟨buf, mlen, -1⟩)) := by
  have hreject : ∀ {n : Nat} (buf : Arr n) (mlen : Nat) (c : Bytes), (¬ ∃ m, Encrypts z ad npub key m c) →
      aeadDecrypt z buf mlen c ad npub key = some ⟨buf, mlen, -1⟩ := by
    intro n buf mlen c h
    exact aeadDecrypt_reject buf mlen fun m hm => h ⟨m, encrypts_iff.2 hm⟩
  have haccept : ∀ {n : Nat} (buf : Arr n) (mlen : Nat) (c : Bytes), c.length ≤ n + z.tagLen →
      ∀ m, Encrypts z ad npub key m c → ∃ o, aeadDecrypt z buf mlen c ad npub key = some o ∧ o.ret = 0 ∧
        o.len = m.length ∧ o.buf.data = m ++ buf.data.drop m.length := by
    intro n buf mlen c hc m hm
    rw [encrypts_iff] at hm
    subst hm
    rw [length_sealed] at hc
    obtain ⟨b, hb⟩ := Arr.exists_store buf 0 m (by omega)
    refine ⟨⟨b, m.length, 0⟩, by rw [aeadDecrypt_sealed, hb]; rfl, rfl, rfl, ?_⟩
    simpa using (Arr.store_eq_some_iff.1 hb).2
  refine ⟨?_, ?_, ?_⟩
  · intro m
    exact ⟨sealed z ad npub key m, encrypts_iff.2 rfl, length_sealed⟩
  · intro n buf mlen c hc
    refine ⟨⟨?_, ?_⟩, ?_⟩
    · rintro ⟨o, ho, hret⟩
      by_contra hne
      rw [hreject buf mlen c hne, Option.some.injEq] at ho
      subst ho
      have hneg : (-1 : Int) = 0 := hret
      omega
    · rintro ⟨m, hm⟩
      obtain ⟨o, ho, hret, -⟩ := haccept buf mlen c hc m hm
      exact ⟨o, ho, hret⟩
    · intro m hm
      refine ⟨?_, haccept buf mlen c hc m hm⟩
      intro m' hm'
      exact sealed_injective ((encrypts_iff.1 hm').trans (encrypts_iff.1 hm).symm)
  · intro n buf mlen c
    refine ⟨?_, hreject buf mlen c⟩
    rintro hc ⟨m, hm⟩
    have := congrArg List.length (encrypts_iff.1 hm)
    rw [length_sealed] at this
    omega

end EspNetwork.Aead
