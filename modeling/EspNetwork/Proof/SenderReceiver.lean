import EspNetwork.Lib.BigEndian
import EspNetwork.Spec.AeadSender
import EspNetwork.Proof.Providers

/-!
# Sender and receiver agree

* `be64_eq`: `be64` writes the counter as 8 big-endian bytes.
* `nonce_eq`: in every pass the nonce is the counter, padded with zeros.
* `sendPass_sent`: what a sent datagram is made of.
* `Provider.Inverts`: decryption inverts encryption; `Libs.inverts_provider` derives
  it for each provider from the same property of its library.
* `sender_receiver_agree`: **the receiver gets the plaintext that was sent**, and
  different counters give different nonces.
-/

namespace EspNetwork.Aead

open CLib Lts

variable {n : Nat} {key m : Bytes} {counter : UInt64}

/-! ## The counter -/

theorem lowByte_eq (x : UInt64) : (x &&& 0xFF).toUInt8 = UInt8.ofNat (x.toNat % 256) := by
  apply UInt8.toNat_inj.1
  have hand : x.toNat % 256 &&& 255 = x.toNat % 256 % 256 := Nat.and_two_pow_sub_one_eq_mod (x.toNat % 256) 8
  simp [hand]

theorem shift_toNat (x : UInt64) : (x >>> 8).toNat = x.toNat / 256 := by
  simp [Nat.shiftRight_eq_div_pow]

/-- The loop, with `i` bytes to store, writes the `i` low bytes of `x`. -/
theorem be64Loop_eq (out : Arr n) {i : Nat} (x : UInt64) (hi : i ≤ n) :
    ∃ out', be64Loop out i x = some out' ∧ out'.data = toBe i x.toNat ++ out.data.drop i := by
  induction i generalizing out x with
  | zero => exact ⟨out, rfl, rfl⟩
  | succ i ih =>
    obtain ⟨out1, h1⟩ := Arr.exists_store out i [(x &&& 0xFF).toUInt8] (by rw [List.length_singleton]; omega)
    obtain ⟨out2, h2, hd2⟩ := ih out1 (x >>> 8) (by omega)
    refine ⟨out2, by simp only [be64Loop, Option.bind_eq_bind, h1, Option.bind_some, h2], ?_⟩
    have hd1 : out1.data.drop i = [(x &&& 0xFF).toUInt8] ++ out.data.drop (i + 1) := by
      have hlt : (out.data.take i).length = i := by rw [List.length_take, out.size_eq]; omega
      rw [(Arr.store_eq_some_iff.1 h1).2, List.append_assoc, List.drop_left' hlt, List.length_singleton]
    rw [hd2, hd1, toBe, shift_toNat, lowByte_eq, List.append_assoc]

/-- **`be64` writes the counter big-endian** into the first 8 bytes. -/
theorem be64_eq (out : Arr n) (x : UInt64) (h8 : 8 ≤ n) :
    ∃ out', be64 out x = some out' ∧ out'.data = toBe 8 x.toNat ++ out.data.drop 8 :=
  be64Loop_eq out x h8

/-- The nonce of a counter: 8 big-endian bytes, padded with zeros. -/
def nonceOf (z : Sizes) (counter : UInt64) : Bytes :=
  toBe 8 counter.toNat ++ List.replicate (z.nonceLen - 8) 0

theorem length_nonceOf {z : Sizes} (h8 : 8 ≤ z.nonceLen) (counter : UInt64) :
    (nonceOf z counter).length = z.nonceLen := by
  rw [nonceOf, List.length_append, length_toBe, List.length_replicate]; omega

theorem take_nonceOf (z : Sizes) (counter : UInt64) : (nonceOf z counter).take 8 = toBe 8 counter.toNat :=
  List.take_left' (length_toBe 8 _)

/-- **Different counters, different nonces.** -/
theorem nonceOf_injective {z : Sizes} {c c' : UInt64} (h : nonceOf z c = nonceOf z c') : c = c' := by
  have hbe := congrArg (List.take 8) h
  rw [take_nonceOf, take_nonceOf] at hbe
  have hb : ∀ x : UInt64, x.toNat < 256 ^ 8 := fun x => x.toNat_lt
  exact UInt64.toNat_inj.1 (toBe_injective (hb c) (hb c') hbe)

/-! ## The sender -/

variable {p : Provider} {st st' : SendStatics p.sizes} {sent : Int} {log : SendLog}

/-- The nonce buffer behind the counter is still zero. -/
def Padded {z : Sizes} (st : SendStatics z) : Prop := st.nonce.data.drop 8 = List.replicate (z.nonceLen - 8) 0

/-- A pass computes the nonce of its counter, whatever it finds in the first 8 bytes. -/
theorem nonce_eq (h8 : 8 ≤ p.sizes.nonceLen) (hpad : Padded st) (counter : UInt64) :
    ∃ nonce, be64 st.nonce counter = some nonce ∧ nonce.data = nonceOf p.sizes counter := by
  obtain ⟨nonce, hn, hd⟩ := be64_eq st.nonce counter h8
  exact ⟨nonce, hn, by rw [hd, hpad, nonceOf]⟩

/-- The associated data of a pass is the counter. -/
theorem aad_eq (counter : UInt64) : ∃ aad, be64 (Arr.zeros 8) counter = some aad ∧
    aad.data = toBe 8 counter.toNat := by
  obtain ⟨aad, ha, hd⟩ := be64_eq (Arr.zeros 8) counter le_rfl
  refine ⟨aad, ha, ?_⟩
  rw [hd, List.drop_eq_nil_of_le (Arr.zeros 8).size_eq.le, List.append_nil]

/-- What a pass leaves in the nonce buffer. -/
theorem sendPass_padded (h8 : 8 ≤ p.sizes.nonceLen) (hpad : Padded st)
    (h : sendPass p key st counter m sent = some (st', log)) : Padded st' := by
  obtain ⟨nonce, hn, hnd⟩ := nonce_eq h8 hpad counter
  obtain ⟨aad, ha, -⟩ := aad_eq counter
  have hdrop : nonce.data.drop 8 = List.replicate (p.sizes.nonceLen - 8) 0 := by
    rw [hnd, nonceOf, List.drop_left' (length_toBe 8 _)]
  unfold sendPass at h
  simp only [hn, ha, Option.bind_eq_bind, Option.bind_some] at h
  obtain ⟨enc, -, h⟩ := Option.bind_eq_some_iff.1 h
  -- every way out of the pass keeps the nonce just written
  have hout : st'.nonce = nonce := by
    split at h
    · simp only [Option.pure_def, Option.some.injEq, Prod.mk.injEq] at h
      rw [← h.1]
    split at h
    · simp only [Option.pure_def, Option.some.injEq, Prod.mk.injEq] at h
      rw [← h.1]
    obtain ⟨p1, -, h⟩ := Option.bind_eq_some_iff.1 h
    obtain ⟨p2, -, h⟩ := Option.bind_eq_some_iff.1 h
    split at h
    · simp only [Option.pure_def, Option.some.injEq, Prod.mk.injEq] at h
      rw [← h.1]
    obtain ⟨h1, -, h⟩ := Option.bind_eq_some_iff.1 h
    obtain ⟨h2, -, h⟩ := Option.bind_eq_some_iff.1 h
    simp only [Option.pure_def, Option.some.injEq, Prod.mk.injEq] at h
    rw [← h.1]
  rw [Padded, hout]
  exact hdrop

/-- In every pass of the loop the nonce buffer is padded with zeros. -/
theorem padded_of_reach (h8 : 8 ≤ p.sizes.nonceLen) (h : (sendLoop p key).Reach anyStep st) : Padded st := by
  refine h.invariant ?_ ?_
  · show (Arr.zeros p.sizes.nonceLen).data.drop 8 = _
    rw [Arr.zeros, List.drop_replicate]
  · intro s l t hs _ hstep
    obtain ⟨⟨t', log⟩, hp, rfl⟩ := Option.map_eq_some_iff.1 hstep
    exact sendPass_padded h8 hs hp

/-- **What a sent datagram is made of**: the nonce, and what the encryption stored. -/
theorem sendPass_sent (h8 : 8 ≤ p.sizes.nonceLen) (hpad : Padded st) {pkt nh ch : Bytes} {c : UInt64}
    (h : sendPass p key st counter m sent = some (st', .sent pkt c nh ch)) :
    ∃ enc, p.encrypt st.ctAndTag 0 m (toBe 8 counter.toNat) (nonceOf p.sizes counter) key = some enc ∧
      enc.ret = 0 ∧ enc.len ≤ 512 ∧ pkt = nonceOf p.sizes counter ++ enc.buf.data.take enc.len ∧ c = counter := by
  obtain ⟨nonce, hn, hnd⟩ := nonce_eq h8 hpad counter
  obtain ⟨aad, ha, had⟩ := aad_eq counter
  unfold sendPass at h
  simp only [hn, ha, Option.bind_eq_bind, Option.bind_some, hnd, had] at h
  obtain ⟨enc, he, h⟩ := Option.bind_eq_some_iff.1 h
  refine ⟨enc, he, ?_⟩
  split at h
  · simp at h
  rename_i hret
  split at h
  · simp at h
  rename_i hlen
  obtain ⟨p1, hp1, h⟩ := Option.bind_eq_some_iff.1 h
  obtain ⟨p2, hp2, h⟩ := Option.bind_eq_some_iff.1 h
  split at h
  · simp at h
  obtain ⟨h1, -, h⟩ := Option.bind_eq_some_iff.1 h
  obtain ⟨h2, -, h⟩ := Option.bind_eq_some_iff.1 h
  simp only [Option.pure_def, Option.some.injEq, Prod.mk.injEq, SendLog.sent.injEq] at h
  obtain ⟨-, hpkt, hc, -, -⟩ := h
  refine ⟨by omega, by omega, ?_, hc.symm⟩
  have hct : (enc.buf.data.take enc.len).length = enc.len := by
    rw [List.length_take, enc.buf.size_eq]; omega
  have hpre : p1.data.take p.sizes.nonceLen = nonceOf p.sizes counter := by
    rw [(Arr.store_eq_some_iff.1 hp1).2, List.take_zero, List.nil_append,
      List.take_left' (length_nonceOf h8 counter)]
  have hpkt2 : p2.data = nonceOf p.sizes counter ++ enc.buf.data.take enc.len ++
      p1.data.drop (p.sizes.nonceLen + enc.len) := by
    rw [(Arr.store_eq_some_iff.1 hp2).2, hpre, hct]
  rw [← hpkt, hpkt2, List.take_left' (by rw [List.length_append, length_nonceOf h8, hct])]

/-- Nothing stops a pass whose encryption succeeds and fits. -/
theorem sendPass_sends (h8 : 8 ≤ p.sizes.nonceLen) (hpad : Padded st) {enc : Out 512}
    (he : p.encrypt st.ctAndTag 0 m (toBe 8 counter.toNat) (nonceOf p.sizes counter) key = some enc)
    (hret : enc.ret = 0) (hlen : enc.len ≤ 512) (hsent : 0 ≤ sent) :
    ∃ st' pkt nh ch, sendPass p key st counter m sent = some (st', .sent pkt counter nh ch) := by
  obtain ⟨nonce, hn, hnd⟩ := nonce_eq h8 hpad counter
  obtain ⟨aad, ha, had⟩ := aad_eq counter
  obtain ⟨p1, hp1⟩ := Arr.exists_store st.packet 0 nonce.data (by rw [nonce.size_eq]; omega)
  obtain ⟨p2, hp2⟩ := Arr.exists_store p1 p.sizes.nonceLen (enc.buf.data.take enc.len)
    (by rw [List.length_take, enc.buf.size_eq]; omega)
  obtain ⟨nonceHex, hnh⟩ := bytesToHex_exists nonce.data st.nonceHex
  obtain ⟨ctHex, hch⟩ := bytesToHex_exists (enc.buf.data.take enc.len) st.ctHex
  rw [hnd] at hp1 hnh
  unfold sendPass
  simp only [hn, ha, Option.bind_eq_bind, Option.bind_some, hnd, had, he, hret, ne_eq, not_true_eq_false,
    if_false, if_neg (Nat.not_lt.2 hlen), hp1, hp2, if_neg (Int.not_lt.2 hsent), hnh, hch]
  exact ⟨_, _, _, _, rfl⟩

/-! ## Decryption inverts encryption -/

/-- `crypto_aead_decrypt` inverts `crypto_aead_encrypt`. -/
def AsconLib.Inverts (A : AsconLib) : Prop :=
  ∀ m ad npub k, (A.encrypt m ad npub k).ret = 0 →
    (A.encrypt m ad npub k).outlen = some (m.length + 16) ∧ (A.encrypt m ad npub k).output.length = m.length + 16 ∧
    A.decrypt (A.encrypt m ad npub k).output ad npub k = ⟨m, some m.length, 0⟩

/-- With the key set up, `*_auth_decrypt` inverts `*_and_tag`. -/
def CtxLib.Inverts (C : CtxLib) (tagLen : Nat) : Prop :=
  ∀ m ad npub k, (C.setkey C.init k).1 = 0 → (C.encryptAndTag (C.setkey C.init k).2 npub ad m).ret = 0 →
    (C.encryptAndTag (C.setkey C.init k).2 npub ad m).output.length = m.length ∧
    (C.encryptAndTag (C.setkey C.init k).2 npub ad m).tag.length = tagLen ∧
    C.authDecrypt (C.setkey C.init k).2 npub ad (C.encryptAndTag (C.setkey C.init k).2 npub ad m).tag
      (C.encryptAndTag (C.setkey C.init k).2 npub ad m).output = ⟨m, 0⟩

/-- The library that the selected provider calls decrypts what it encrypted, under the
same key, nonce and associated data. The mock provider calls none. -/
def Libs.Inverts (L : Libs) : Impl → Prop
  | .ascon => L.ascon.Inverts
  | .aesGcm => L.gcm.calls.Inverts Impl.aesGcm.sizes.tagLen
  | .chacha20Poly1305 => L.chachaPoly.calls.Inverts Impl.chacha20Poly1305.sizes.tagLen
  | .mock => True

/-- A provider decrypts, into any buffer with the room, what it encrypted. -/
def Provider.Inverts (p : Provider) : Prop :=
  ∀ {n n' : Nat} (c : Arr n) (buf : Arr n') (clen mlen : Nat) (m ad npub k : Bytes) (o : Out n),
    m.length + p.sizes.tagLen < 2 ^ 32 → m.length ≤ n' → p.encrypt c clen m ad npub k = some o → o.ret = 0 →
    o.len = m.length + p.sizes.tagLen ∧ o.len ≤ n ∧ ∃ b, buf.store 0 m = some b ∧
      p.decrypt buf mlen (o.buf.data.take o.len) ad npub k = some ⟨b, m.length, 0⟩

/-- A store at the start of a buffer is read back. -/
theorem take_store_zero {a b : Arr n} {bs : Bytes} (h : a.store 0 bs = some b) : b.data.take bs.length = bs := by
  rw [(Arr.store_eq_some_iff.1 h).2, List.take_zero, List.nil_append, List.take_left' rfl]

theorem mock_inverts (z : Sizes) : (mockProvider z).Inverts := by
  intro n n' c buf clen mlen m ad npub k o _ hm ho _
  have henc := aeadEncrypt_eq (z := z) c clen ad npub k m
  obtain ⟨c', hc', rfl⟩ := Option.map_eq_some_iff.1 (henc.symm.trans ho)
  obtain ⟨b, hb⟩ := Arr.exists_store buf 0 m (by omega)
  have hfit := (Arr.store_eq_some_iff.1 hc').1
  have htake := take_store_zero hc'
  rw [length_sealed] at hfit htake
  refine ⟨rfl, by simpa using hfit, b, hb, ?_⟩
  show aeadDecrypt z buf mlen (c'.data.take (m.length + z.tagLen)) ad npub k = _
  rw [htake, aeadDecrypt_sealed, hb]
  rfl

theorem ascon_inverts {A : AsconLib} (hA : A.Inverts) : (asconProvider A).Inverts := by
  intro n n' c buf clen mlen m ad npub k o hsize hm ho hret
  have henc := asconAead128Encrypt_eq A c clen m ad npub k
  obtain ⟨c', hc', rfl⟩ := Option.map_eq_some_iff.1 (henc.symm.trans ho)
  obtain ⟨hlen, hout, hdec⟩ := hA m ad npub k hret
  obtain ⟨b, hb⟩ := Arr.exists_store buf 0 m (by omega)
  have hfit := (Arr.store_eq_some_iff.1 hc').1
  have htake := take_store_zero hc'
  have hcast : castSize ((A.encrypt m ad npub k).outlen.getD 0) = m.length + 16 := by
    have hsize' : m.length + 16 < 2 ^ 32 := hsize
    rw [hlen, Option.getD_some, castSize_of_lt hsize']
  rw [hout] at hfit htake
  refine ⟨hcast, by simp only [hcast]; omega, b, hb, ?_⟩
  show asconAead128Decrypt A buf mlen (c'.data.take (castSize _)) ad npub k = _
  have hm32 : m.length < 2 ^ 32 := by omega
  rw [hcast, htake, asconAead128Decrypt_eq, hdec, hb, Option.map_some, Option.getD_some, castSize_of_lt hm32]

theorem ctx_inverts {C : CtxLib} {z : Sizes} (hC : C.Inverts z.tagLen) :
    (⟨z, ctxEncrypt C z, ctxDecrypt C z⟩ : Provider).Inverts := by
  intro n n' c buf clen mlen m ad npub k o _ hm ho hret
  have ho' : ctxEncrypt C z c clen m ad npub k = some o := ho
  simp only [ctxEncrypt] at ho'
  split at ho'
  · rename_i hkey
    simp only [Option.some.injEq] at ho'
    subst ho'
    exact absurd hret hkey
  rename_i hkey
  rw [Classical.not_not] at hkey
  simp only [Option.bind_eq_bind] at ho'
  obtain ⟨c1, hc1, ho'⟩ := Option.bind_eq_some_iff.1 ho'
  obtain ⟨c2, hc2, ho'⟩ := Option.bind_eq_some_iff.1 ho'
  simp only [Option.pure_def, Option.some.injEq] at ho'
  subst ho'
  obtain ⟨hout, htag, hdec⟩ := hC m ad npub k hkey hret
  obtain ⟨b, hb⟩ := Arr.exists_store buf 0 m (by omega)
  simp only at hret
  set call := C.encryptAndTag (C.setkey C.init k).2 npub ad m
  -- ciphertext and tag stand next to each other
  have hadj : c.store 0 (call.output ++ call.tag) = some c2 := by
    rw [← Arr.store_append, hc1, Option.bind_some, Nat.zero_add, hout, hc2]
  have hfit := (Arr.store_eq_some_iff.1 hadj).1
  have htake := take_store_zero hadj
  have hlen : (call.output ++ call.tag).length = m.length + z.tagLen := by
    rw [List.length_append, hout, htag]
  rw [hlen] at hfit htake
  refine ⟨if_pos hret, by simp only [if_pos hret]; omega, b, hb, ?_⟩
  show ctxDecrypt C z buf mlen (c2.data.take (if _ then _ else _)) ad npub k = _
  rw [if_pos hret, htake]
  have hsub : subSize (call.output ++ call.tag).length z.tagLen = some m.length := by
    rw [subSize, if_pos (by omega), hlen, Nat.add_sub_cancel]
  unfold ctxDecrypt
  rw [if_neg (by omega), hsub]
  simp only [Option.bind_eq_bind, Option.bind_some, List.take_left' hout, List.drop_left' hout, hkey, ne_eq,
    not_true_eq_false, if_false, hdec, hb, if_true, Option.pure_def]

/-- **Every provider inverts itself if its library does.** -/
theorem Libs.inverts_provider {L : Libs} : ∀ {i : Impl}, L.Inverts i → (L.provider i).Inverts
  | .ascon, h => ascon_inverts h
  | .aesGcm, h | .chacha20Poly1305, h => ctx_inverts h
  | .mock, _ => mock_inverts _

/-! ## End to end -/

/-- A NUL behind a text ends its string. -/
theorem cstr_append_nul (s t : Bytes) : cstr (s ++ 0 :: t) = cstr s := by
  induction s with
  | nil => simp [cstr]
  | cons b s ih =>
    by_cases hb : b = 0
    · simp [cstr, hb]
    · rw [List.cons_append, cstr_cons hb, cstr_cons hb, ih]

/-- **What the receiver makes of a datagram** that the sender built for `m` and `counter`. -/
structure Delivered (p : Provider) (key : Bytes) (rst : Statics p.sizes) (counter : UInt64) (m pkt : Bytes) : Prop where
  /-- It carries the counter, padded with zeros, and passes the length check. -/
  nonce : pkt.take p.sizes.nonceLen = nonceOf p.sizes counter
  long : p.sizes.nonceLen + p.sizes.tagLen ≤ pkt.length
  fits : pkt.length ≤ 2048
  /-- What follows the nonce is the ciphertext with its tag. -/
  split : (pkt.drop p.sizes.nonceLen).length = m.length + p.sizes.tagLen
  /-- Decryption of that, under the sender's nonce and associated data, returns `m`. -/
  opens : ∃ dec, p.decrypt rst.pt 0 (pkt.drop p.sizes.nonceLen) (toBe 8 counter.toNat) (nonceOf p.sizes counter) key =
    some dec ∧ dec.ret = 0 ∧ dec.len = m.length ∧ dec.buf.data.take m.length = m
  /-- The receive pass makes this very call and prints the plaintext. -/
  received : ∃ rst' nh ch, receivePass p key rst pkt = some (rst', .plaintext nh ch (cstr m)) ∧
    rst'.buf.data.take pkt.length = pkt ∧ rst'.aad.data = toBe 8 counter.toNat ∧ rst'.pt.data.take m.length = m

/-- A provider that inverts itself delivers what is sent. -/
theorem delivered_of_inverts (hp : p.Inverts) (h8 : 8 ≤ p.sizes.nonceLen) (h16 : p.sizes.nonceLen ≤ 16)
    (hm : m.length + p.sizes.tagLen ≤ 512) {enc : Out 512}
    (he : p.encrypt st.ctAndTag 0 m (toBe 8 counter.toNat) (nonceOf p.sizes counter) key = some enc)
    (hret : enc.ret = 0) (rst : Statics p.sizes) :
    Delivered p key rst counter m (nonceOf p.sizes counter ++ enc.buf.data.take enc.len) := by
  obtain ⟨hlen, -, b, hb, hdec⟩ := hp st.ctAndTag rst.pt 0 0 m (toBe 8 counter.toNat) (nonceOf p.sizes counter) key enc
    (by omega) (by omega) he hret
  have hn := length_nonceOf h8 counter
  have hct : (enc.buf.data.take enc.len).length = m.length + p.sizes.tagLen := by
    rw [List.length_take, enc.buf.size_eq]; omega
  have hpkt : (nonceOf p.sizes counter ++ enc.buf.data.take enc.len).length ≤ 2048 := by
    rw [List.length_append, hn, hct]; omega
  have htake := take_store_zero hb
  refine ⟨List.take_left' hn, by rw [List.length_append, hn, hct]; omega, hpkt, ?_, ?_, ?_⟩
  · rw [List.drop_left' hn, hct]
  · rw [List.drop_left' hn]
    exact ⟨_, hdec, rfl, rfl, htake⟩
  · obtain ⟨buf, aad, nonceHex, ctHex, hbuf, haad, -, -, hpass⟩ := receivePass_eq p key rst hn h8
      (c := enc.buf.data.take enc.len) (by omega) hpkt
    rw [take_nonceOf] at haad hpass
    obtain ⟨pt, hpt⟩ := Arr.exists_store b m.length [0] (by rw [List.length_singleton]; omega)
    have hptd := (Arr.store_eq_some_iff.1 hpt).2
    rw [htake] at hptd
    rw [hdec, Option.bind_some, if_pos rfl, if_pos (by simp only; omega), hpt, Option.map_some] at hpass
    have hbufd : buf.data.take (nonceOf p.sizes counter ++ enc.buf.data.take enc.len).length =
        nonceOf p.sizes counter ++ enc.buf.data.take enc.len := by
      rw [hbuf, List.take_left' rfl]
    have hptm : pt.data.take m.length = m := by rw [hptd, List.append_assoc, List.take_left' rfl]
    have hprint : cstr pt.data = cstr m := by
      rw [hptd, List.append_assoc, List.singleton_append, cstr_append_nul]
    rw [hprint] at hpass
    exact ⟨_, _, _, hpass, hbufd, haad, hptm⟩

theorem Impl.nonceLen_le (i : Impl) : i.sizes.nonceLen ≤ 16 := by cases i <;> decide

/-- A pass of the send loop sends the datagram `pkt`. -/
def Sends (p : Provider) (key : Bytes) (st : SendStatics p.sizes) (counter : UInt64) (m pkt : Bytes) : Prop :=
  ∃ sent st' c nh ch, sendPass p key st counter m sent = some (st', .sent pkt c nh ch)

/-- **The receiver gets the plaintext that was sent.** For every provider whose library
inverts itself, every key, every counter and every plaintext that fits the 512 bytes
with its tag, in every pass of the send loop and every state of the receiver: the
datagram sent is delivered. A pass whose encryption succeeds sends one, and with the
mock provider every encryption does. Datagrams with different counters, of any two
passes, carry different nonces. -/
theorem sender_receiver_agree (L : Libs) (i : Impl) (hL : L.Inverts i) (key : Bytes)
    (st : SendStatics (L.provider i).sizes) (hst : (sendLoop (L.provider i) key).Reach anyStep st) :
    (∀ counter m, m.length + (L.provider i).sizes.tagLen ≤ 512 →
      (∀ pkt, Sends (L.provider i) key st counter m pkt → ∀ rst, Delivered (L.provider i) key rst counter m pkt) ∧
      (∀ enc, (L.provider i).encrypt st.ctAndTag 0 m (toBe 8 counter.toNat) (nonceOf (L.provider i).sizes counter) key =
        some enc → enc.ret = 0 → ∃ pkt, Sends (L.provider i) key st counter m pkt) ∧
      (i = .mock → ∃ pkt, Sends (L.provider i) key st counter m pkt)) ∧
    (∀ st2, (sendLoop (L.provider i) key).Reach anyStep st2 → ∀ c1 c2 m1 m2 pkt1 pkt2, c1 ≠ c2 →
      Sends (L.provider i) key st c1 m1 pkt1 → Sends (L.provider i) key st2 c2 m2 pkt2 →
      pkt1.take (L.provider i).sizes.nonceLen ≠ pkt2.take (L.provider i).sizes.nonceLen) := by
  have hinv : (L.provider i).Inverts := Libs.inverts_provider hL
  have h8 : 8 ≤ (L.provider i).sizes.nonceLen := by rw [L.provider_sizes]; exact i.nonceLen_ge
  have h16 : (L.provider i).sizes.nonceLen ≤ 16 := by rw [L.provider_sizes]; exact i.nonceLen_le
  have hpad := padded_of_reach h8 hst
  refine ⟨fun counter m hm => ?_, ?_⟩
  · have hsends : ∀ enc, (L.provider i).encrypt st.ctAndTag 0 m (toBe 8 counter.toNat)
        (nonceOf (L.provider i).sizes counter) key = some enc → enc.ret = 0 →
        ∃ pkt, Sends (L.provider i) key st counter m pkt := by
      intro enc he hret
      obtain ⟨hlen, hfit, -⟩ := hinv st.ctAndTag (Arr.zeros m.length) 0 0 m _ _ key enc (by omega) le_rfl he hret
      obtain ⟨st', pkt, nh, ch, h⟩ := sendPass_sends h8 hpad he hret hfit (Int.le_refl 0)
      exact ⟨pkt, 0, st', counter, nh, ch, h⟩
    refine ⟨?_, hsends, ?_⟩
    · rintro pkt ⟨sent, st', c, nh, ch, h⟩ rst
      obtain ⟨enc, he, hret, -, rfl, -⟩ := sendPass_sent h8 hpad h
      exact delivered_of_inverts hinv h8 h16 hm he hret rst
    · rintro rfl
      obtain ⟨c, hc⟩ := Arr.exists_store st.ctAndTag 0 (sealed Impl.mock.sizes (toBe 8 counter.toNat)
        (nonceOf Impl.mock.sizes counter) key m) (by rw [length_sealed, Nat.zero_add]; exact hm)
      refine hsends ⟨c, m.length + 16, 0⟩ ?_ rfl
      show aeadEncrypt Impl.mock.sizes st.ctAndTag 0 m (toBe 8 counter.toNat) (nonceOf Impl.mock.sizes counter) key = _
      rw [aeadEncrypt_eq, hc]
      rfl
  · rintro st2 hst2 c1 c2 m1 m2 pkt1 pkt2 hne ⟨s1, st1', d1, nh1, ch1, h1⟩ ⟨s2, st2', d2, nh2, ch2, h2⟩ heq
    obtain ⟨enc1, -, -, -, rfl, -⟩ := sendPass_sent h8 hpad h1
    obtain ⟨enc2, -, -, -, rfl, -⟩ := sendPass_sent h8 (padded_of_reach h8 hst2) h2
    rw [List.take_left' (length_nonceOf h8 c1), List.take_left' (length_nonceOf h8 c2)] at heq
    exact hne (nonceOf_injective heq)

/-- Libraries whose Ascon is the mock cipher. -/
def mockLibs : Libs where
  ascon := {
    encrypt m ad npub k := ⟨sealed Impl.mock.sizes ad npub k m, some (m.length + 16), 0⟩
    decrypt c ad npub k :=
      let ct := c.take (c.length - 16)
      if 16 ≤ c.length ∧ fakeTag Impl.mock.sizes ct ad npub k = c.drop (c.length - 16)
      then ⟨cryptBytes Impl.mock.sizes npub k 0 ct, some (c.length - 16), 0⟩
      else ⟨[], some (c.length - 16), -1⟩ }
  gcm := rejecting.gcm
  chachaPoly := rejecting.chachaPoly

theorem mockLibs_inverts : mockLibs.Inverts .ascon := by
  intro m ad npub k _
  have hlen : (sealed Impl.mock.sizes ad npub k m).length = m.length + 16 := length_sealed
  refine ⟨rfl, hlen, ?_⟩
  have htake : (sealed Impl.mock.sizes ad npub k m).take m.length = cryptBytes Impl.mock.sizes npub k 0 m :=
    List.take_left' (length_cryptBytes 0 m)
  have hdrop : (sealed Impl.mock.sizes ad npub k m).drop m.length =
      fakeTag Impl.mock.sizes (cryptBytes Impl.mock.sizes npub k 0 m) ad npub k :=
    List.drop_left' (length_cryptBytes 0 m)
  simp only [mockLibs, hlen, Nat.add_sub_cancel, htake, hdrop, and_true]
  rw [if_pos (by omega), cryptBytes_cryptBytes]

/-- `sender_receiver_agree` at the first datagram of the demo. -/
theorem hello_delivered : ∃ pkt,
    Sends (mockLibs.provider .ascon) (gKey Impl.ascon.sizes) (SendStatics.init _) 1 (bytes "Hello from ESP32!") pkt ∧
      ∀ rst, Delivered (mockLibs.provider .ascon) (gKey Impl.ascon.sizes) rst 1 (bytes "Hello from ESP32!") pkt := by
  obtain ⟨hdeliver, hsend, -⟩ := (sender_receiver_agree mockLibs .ascon mockLibs_inverts (gKey Impl.ascon.sizes)
    (SendStatics.init _) Machine.Reach.init).1 1 (bytes "Hello from ESP32!") (by decide)
  obtain ⟨c, hc⟩ := Arr.exists_store (SendStatics.init Impl.ascon.sizes).ctAndTag 0 (sealed Impl.mock.sizes
    (toBe 8 (1 : UInt64).toNat) (nonceOf Impl.ascon.sizes 1) (gKey Impl.ascon.sizes) (bytes "Hello from ESP32!"))
    (by rw [length_sealed]; decide)
  obtain ⟨pkt, hpkt⟩ := hsend ⟨c, 33, 0⟩ (by
    show asconAead128Encrypt mockLibs.ascon (SendStatics.init Impl.ascon.sizes).ctAndTag 0 _ _ _ _ = _
    rw [asconAead128Encrypt_eq]
    show Option.map _ ((SendStatics.init Impl.ascon.sizes).ctAndTag.store 0 (sealed Impl.mock.sizes
      (toBe 8 (1 : UInt64).toNat) (nonceOf Impl.ascon.sizes 1) (gKey Impl.ascon.sizes)
      (bytes "Hello from ESP32!"))) = _
    rw [hc]
    rfl) rfl
  exact ⟨pkt, hpkt, hdeliver pkt hpkt⟩

end EspNetwork.Aead
