import EspNetwork.Spec.AeadProviders
import EspNetwork.Proof.MockAead

/-!
# The output contract of the AEAD providers

The caller's length is to be set on success only, to the length of the ciphertext
with its tag (`EncryptContract`) or of the message (`DecryptContract`), and a text
too short for a tag is never split.

* `ctxEncrypt_len`, `ctxDecrypt_len`: the mbedTLS providers keep the contract.
* `neverSplit`: a short text is refused, with nothing written, or handed over whole.
* `output_contract_iff`: **every provider keeps it except Ascon**, whose wrapper stores
  the library's report on failure as well; it keeps the contract iff that report
  is the length the caller had.
-/

namespace EspNetwork.Aead

open CLib

variable {n : Nat} {z : Sizes} {L : Libs} {buf : Arr n} {len : Nat} {src ad npub k : Bytes} {o : Out n}

theorem Libs.provider_sizes (L : Libs) (i : Impl) : (L.provider i).sizes = i.sizes := by cases i <;> rfl

/-! ## The contract -/

/-- On failure the length is left, on success it is the length of ciphertext and tag. -/
def EncryptContract (p : Provider) {n : Nat} (c : Arr n) (clen : Nat) (m ad npub k : Bytes) : Prop :=
  ∀ o, p.encrypt c clen m ad npub k = some o →
    (o.ret ≠ 0 → o.len = clen) ∧ (o.ret = 0 → o.len = m.length + p.sizes.tagLen)

/-- On failure the length is left, on success it is the length without the tag. -/
def DecryptContract (p : Provider) {n : Nat} (m : Arr n) (mlen : Nat) (c ad npub k : Bytes) : Prop :=
  ∀ o, p.decrypt m mlen c ad npub k = some o →
    (o.ret ≠ 0 → o.len = mlen) ∧ (o.ret = 0 → o.len + p.sizes.tagLen = c.length)

/-- The call fails with -1 and leaves the buffer and the length. Ascon's hands the text over
whole instead: libraries that answer alike on all of `c` cannot be told apart. -/
def NeverSplit (L : Libs) (i : Impl) {n : Nat} (m : Arr n) (mlen : Nat) (c ad npub k : Bytes) : Prop :=
  match i with
  | .ascon => ∀ L' : Libs, L'.ascon.decrypt c ad npub k = L.ascon.decrypt c ad npub k →
      (L'.provider .ascon).decrypt m mlen c ad npub k = (L.provider .ascon).decrypt m mlen c ad npub k
  | _ => (L.provider i).decrypt m mlen c ad npub k = some ⟨m, mlen, -1⟩

/-- A call of `ascon-c` that fails reports the length the caller had (0 if it reports none). -/
def KeepsLength (n old : Nat) (call : AsconOut) : Prop :=
  call.output.length ≤ n → call.ret ≠ 0 → castSize (call.outlen.getD 0) = old

/-- `ascon-c` reports the length of its output when it succeeds. -/
structure Libs.Reports (L : Libs) : Prop where
  encrypt : ∀ m ad npub k, (L.ascon.encrypt m ad npub k).ret = 0 →
    (L.ascon.encrypt m ad npub k).outlen = some (m.length + 16)
  decrypt : ∀ c ad npub k, (L.ascon.decrypt c ad npub k).ret = 0 →
    ∃ len, (L.ascon.decrypt c ad npub k).outlen = some len ∧ len + 16 = c.length

/-! ## The providers over a library context -/

/-- A failed key setup or encryption leaves the length, a successful one sets it. -/
theorem ctxEncrypt_len {C : CtxLib} (h : ctxEncrypt C z buf len src ad npub k = some o) :
    (o.ret ≠ 0 → o.len = len) ∧ (o.ret = 0 → o.len = src.length + z.tagLen) := by
  simp only [ctxEncrypt] at h
  split at h
  · rename_i hkey
    simp only [Option.some.injEq] at h
    subst h
    exact ⟨fun _ => rfl, fun hret => absurd hret hkey⟩
  · simp only [Option.bind_eq_bind] at h
    obtain ⟨c1, -, h⟩ := Option.bind_eq_some_iff.1 h
    obtain ⟨c2, -, h⟩ := Option.bind_eq_some_iff.1 h
    simp only [Option.pure_def, Option.some.injEq] at h
    subst h
    exact ⟨fun hret => if_neg hret, fun hret => if_pos hret⟩

/-- A text too short for a tag is refused before it is split. -/
theorem ctxDecrypt_short {C : CtxLib} (h : src.length < z.tagLen) :
    ctxDecrypt C z buf len src ad npub k = some ⟨buf, len, -1⟩ := if_pos h

theorem ctxDecrypt_len {C : CtxLib} (h : ctxDecrypt C z buf len src ad npub k = some o) :
    (o.ret ≠ 0 → o.len = len) ∧ (o.ret = 0 → o.len + z.tagLen = src.length) := by
  unfold ctxDecrypt at h
  split at h
  · simp only [Option.some.injEq] at h
    subst h
    exact ⟨fun _ => rfl, fun hret => absurd hret (by simp)⟩
  · rename_i hlen
    rw [subSize, if_pos (by omega)] at h
    simp only [Option.bind_eq_bind, Option.bind_some] at h
    split at h
    · rename_i hkey
      simp only [Option.pure_def, Option.some.injEq] at h
      subst h
      exact ⟨fun _ => rfl, fun hret => absurd hret hkey⟩
    · obtain ⟨m1, -, h⟩ := Option.bind_eq_some_iff.1 h
      simp only [Option.pure_def, Option.some.injEq] at h
      subst h
      refine ⟨fun hret => if_neg hret, fun hret => ?_⟩
      simp only at hret ⊢
      rw [if_pos hret]
      omega

/-! ## The mock provider -/

theorem aeadEncrypt_len (h : aeadEncrypt z buf len src ad npub k = some o) :
    (o.ret ≠ 0 → o.len = len) ∧ (o.ret = 0 → o.len = src.length + z.tagLen) := by
  rw [aeadEncrypt_eq] at h
  obtain ⟨c, -, rfl⟩ := Option.map_eq_some_iff.1 h
  exact ⟨fun hret => absurd rfl hret, fun _ => rfl⟩

/-- A text too short for a tag is refused before it is split. -/
theorem aeadDecrypt_short (h : src.length < z.tagLen) :
    aeadDecrypt z buf len src ad npub k = some ⟨buf, len, -1⟩ := if_pos h

theorem aeadDecrypt_len (h : aeadDecrypt z buf len src ad npub k = some o) :
    (o.ret ≠ 0 → o.len = len) ∧ (o.ret = 0 → o.len + z.tagLen = src.length) := by
  by_cases hs : ∃ m, sealed z ad npub k m = src
  · obtain ⟨m, rfl⟩ := hs
    rw [aeadDecrypt_sealed] at h
    obtain ⟨b, -, rfl⟩ := Option.map_eq_some_iff.1 h
    exact ⟨fun hret => absurd rfl hret, fun _ => length_sealed.symm⟩
  · rw [aeadDecrypt_reject buf len fun m hm => hs ⟨m, hm⟩, Option.some.injEq] at h
    subst h
    exact ⟨fun _ => rfl, fun hret => absurd hret (by simp)⟩

/-! ## The Ascon wrapper -/

/-- The wrapper stores what the library reports, whether or not the call succeeded. -/
theorem asconAead128Decrypt_eq (A : AsconLib) (buf : Arr n) (len : Nat) (src ad npub k : Bytes) :
    asconAead128Decrypt A buf len src ad npub k =
    (buf.store 0 (A.decrypt src ad npub k).output).map fun m =>
      ⟨m, castSize ((A.decrypt src ad npub k).outlen.getD 0), (A.decrypt src ad npub k).ret⟩ := by
  unfold asconAead128Decrypt
  cases h : buf.store 0 (A.decrypt src ad npub k).output <;> simp [h]

theorem asconAead128Encrypt_eq (A : AsconLib) (buf : Arr n) (len : Nat) (src ad npub k : Bytes) :
    asconAead128Encrypt A buf len src ad npub k =
    (buf.store 0 (A.encrypt src ad npub k).output).map fun m =>
      ⟨m, castSize ((A.encrypt src ad npub k).outlen.getD 0), (A.encrypt src ad npub k).ret⟩ := by
  unfold asconAead128Encrypt
  cases h : buf.store 0 (A.encrypt src ad npub k).output <;> simp [h]

/-- What the wrapper makes of a call: the length is right on success, and on failure
it is left iff the call reports it. -/
theorem wrapper_contract_iff (buf : Arr n) (len : Nat) (call : AsconOut) (Good : Nat → Prop)
    (hgood : call.ret = 0 → Good (castSize (call.outlen.getD 0))) :
    (∀ o : Out n, ((buf.store 0 call.output).map fun m => (⟨m, castSize (call.outlen.getD 0), call.ret⟩ : Out n)) =
      some o → (o.ret ≠ 0 → o.len = len) ∧ (o.ret = 0 → Good o.len)) ↔ KeepsLength n len call := by
  constructor
  · intro h hfit hret
    obtain ⟨m, hm⟩ := Arr.exists_store buf 0 call.output (by omega)
    exact (h ⟨m, castSize (call.outlen.getD 0), call.ret⟩ (by rw [hm]; rfl)).1 hret
  · intro h o ho
    obtain ⟨m, hm, rfl⟩ := Option.map_eq_some_iff.1 ho
    have hfit := (Arr.store_eq_some_iff.1 hm).1
    exact ⟨h (by omega), hgood⟩

theorem castSize_of_lt {x : Nat} (h : x < 2 ^ 32) : castSize x = x := Nat.mod_eq_of_lt h

/-! ## All four providers -/

/-- **Encryption keeps the contract iff the provider is not Ascon or `ascon-c`, when it
fails, reports the caller's length.** -/
theorem encryptContract_iff (hL : L.Reports) (i : Impl) (buf : Arr n) (len : Nat) (m ad npub k : Bytes)
    (hsize : m.length + i.sizes.tagLen < 2 ^ 32) :
    EncryptContract (L.provider i) buf len m ad npub k ↔
      (i = .ascon → KeepsLength n len (L.ascon.encrypt m ad npub k)) := by
  cases i with
  | mock => exact iff_of_true (fun o ho => aeadEncrypt_len ho) (fun h => nomatch h)
  | aesGcm | chacha20Poly1305 => exact iff_of_true (fun o ho => ctxEncrypt_len ho) (fun h => nomatch h)
  | ascon =>
    have hiff := wrapper_contract_iff buf len (L.ascon.encrypt m ad npub k)
      (fun x => x = m.length + 16) (fun hret => by
        rw [hL.encrypt m ad npub k hret]; exact castSize_of_lt hsize)
    simp only [forall_const]
    rw [← hiff, ← asconAead128Encrypt_eq L.ascon buf len]
    rfl

/-- **Decryption keeps the contract under the same condition.** -/
theorem decryptContract_iff (hL : L.Reports) (i : Impl) (buf : Arr n) (len : Nat) (c ad npub k : Bytes)
    (hsize : c.length < 2 ^ 32) :
    DecryptContract (L.provider i) buf len c ad npub k ↔
      (i = .ascon → KeepsLength n len (L.ascon.decrypt c ad npub k)) := by
  cases i with
  | mock => exact iff_of_true (fun o ho => aeadDecrypt_len ho) (fun h => nomatch h)
  | aesGcm | chacha20Poly1305 => exact iff_of_true (fun o ho => ctxDecrypt_len ho) (fun h => nomatch h)
  | ascon =>
    have hiff := wrapper_contract_iff buf len (L.ascon.decrypt c ad npub k)
      (fun x => x + 16 = c.length) (fun hret => by
        obtain ⟨l, hl, he⟩ := hL.decrypt c ad npub k hret
        rw [hl, Option.getD_some, castSize_of_lt (by omega)]
        exact he)
    simp only [forall_const]
    rw [← hiff, ← asconAead128Decrypt_eq L.ascon buf len]
    rfl

/-- **No provider splits a text that is too short for a tag.** -/
theorem neverSplit (L : Libs) (i : Impl) (buf : Arr n) (len : Nat) {c ad npub k : Bytes}
    (h : c.length < i.sizes.tagLen) : NeverSplit L i buf len c ad npub k := by
  cases i with
  | mock => exact aeadDecrypt_short h
  | aesGcm | chacha20Poly1305 => exact ctxDecrypt_short h
  | ascon =>
    -- the wrapper hands the text over whole
    intro L' hL'
    show asconAead128Decrypt L'.ascon buf len c ad npub k = asconAead128Decrypt L.ascon buf len c ad npub k
    rw [asconAead128Decrypt_eq, asconAead128Decrypt_eq, hL']

/-- **Which providers keep the contract.** Whatever the libraries answer, as long as
`ascon-c` reports the length of its output on success: a call of a provider keeps the
output contract iff the provider is not Ascon, or the call of `ascon-c` succeeds, or the
length it reports on failure, as a `size_t`, is the one the caller had. A text shorter than
a tag is refused with nothing written, or, by Ascon, handed over whole. -/
theorem output_contract_iff (L : Libs) (hL : L.Reports) (i : Impl) {n : Nat} (buf : Arr n) (len : Nat)
    (src ad npub k : Bytes) :
    (src.length + i.sizes.tagLen < 2 ^ 32 → (EncryptContract (L.provider i) buf len src ad npub k ↔
      (i = .ascon → KeepsLength n len (L.ascon.encrypt src ad npub k)))) ∧
    (src.length < 2 ^ 32 → (DecryptContract (L.provider i) buf len src ad npub k ∧
        (src.length < i.sizes.tagLen → NeverSplit L i buf len src ad npub k) ↔
      (i = .ascon → KeepsLength n len (L.ascon.decrypt src ad npub k)))) := by
  refine ⟨encryptContract_iff hL i buf len src ad npub k, fun hsize => ?_⟩
  rw [decryptContract_iff hL i buf len src ad npub k hsize]
  exact and_iff_left (neverSplit L i buf len)

/-- Libraries that reject every ciphertext. As `ascon-c` does, Ascon's reports the length
of the plaintext before it looks at the tag. -/
def rejecting : Libs where
  ascon := {
    encrypt m _ _ _ := ⟨List.replicate (m.length + 16) 0, some (m.length + 16), 0⟩
    decrypt c _ _ _ := if c.length < 16 then ⟨[], none, -1⟩
      else ⟨List.replicate (c.length - 16) 0, some (c.length - 16), -1⟩ }
  gcm := {
    Ctx := Unit
    init := ()
    setkey _ _ _ := (0, ())
    cryptAndTag _ length _ _ _ _ tagLen := ⟨List.replicate length 0, List.replicate tagLen 0, 0⟩
    authDecrypt _ _ _ _ _ _ _ _ := ⟨[], -1⟩ }
  chachaPoly := {
    Ctx := Unit
    init := ()
    setkey _ _ := (0, ())
    encryptAndTag _ length _ _ _ := ⟨List.replicate length 0, List.replicate 16 0, 0⟩
    authDecrypt _ _ _ _ _ _ := ⟨[], -1⟩ }

theorem rejecting_reports : rejecting.Reports where
  encrypt _ _ _ _ _ := rfl
  decrypt c ad npub k hret := by
    exfalso
    unfold rejecting at hret
    simp only at hret
    split at hret <;> simp at hret

/-- `output_contract_iff` at a forged text of 32 bytes, with the length that is reported and
with another one, and at a text of 3 bytes. -/
theorem output_contract_iff_forged :
    DecryptContract (rejecting.provider .ascon) (Arr.zeros 1024) 16 (List.replicate 32 0) [] [] [] ∧
    ¬ DecryptContract (rejecting.provider .ascon) (Arr.zeros 1024) 7 (List.replicate 32 0) [] [] [] ∧
    (rejecting.provider .aesGcm).decrypt (Arr.zeros 1024) 7 (List.replicate 3 0) [] [] [] =
      some ⟨Arr.zeros 1024, 7, -1⟩ := by
  have hcall : rejecting.ascon.decrypt (List.replicate 32 0) [] [] [] = ⟨List.replicate 16 0, some 16, -1⟩ := rfl
  have hforged := fun len => (output_contract_iff rejecting rejecting_reports .ascon (Arr.zeros 1024) len
    (List.replicate 32 0) [] [] []).2 (by decide)
  have hshort := (output_contract_iff rejecting rejecting_reports .aesGcm (Arr.zeros 1024) 7
    (List.replicate 3 0) [] [] []).2 (by decide)
  refine ⟨((hforged 16).2 fun _ => ?_).1, fun h => ?_, (hshort.2 fun h => nomatch h).2 (by decide)⟩
  · rw [hcall]
    exact fun _ _ => rfl
  · have hkeeps := (hforged 7).1 ⟨h, fun hlt => absurd hlt (by decide)⟩ rfl
    rw [hcall] at hkeeps
    exact absurd (hkeeps (by decide) (by decide)) (by decide)

/-- A forged text of 32 bytes: Ascon's provider fails, and the caller's length goes from 0 to 16. -/
theorem ascon_overwrites_length : rejecting.Reports ∧
    (∃ o, (rejecting.provider .ascon).decrypt (Arr.zeros 1024) 0 (List.replicate 32 0) [] [] [] = some o ∧
      o.ret = -1 ∧ o.len = 16) ∧
    ¬ DecryptContract (rejecting.provider .ascon) (Arr.zeros 1024) 0 (List.replicate 32 0) [] [] [] := by
  obtain ⟨m, hm⟩ := Arr.exists_store (Arr.zeros 1024) 0 (List.replicate 16 0)
    (by rw [List.length_replicate]; omega)
  have hdec : (rejecting.provider .ascon).decrypt (Arr.zeros 1024) 0 (List.replicate 32 0) [] [] [] =
      some ⟨m, 16, -1⟩ := by
    show asconAead128Decrypt rejecting.ascon (Arr.zeros 1024) 0 (List.replicate 32 0) [] [] [] = _
    have hcall : rejecting.ascon.decrypt (List.replicate 32 0) [] [] [] = ⟨List.replicate 16 0, some 16, -1⟩ := rfl
    rw [asconAead128Decrypt_eq, hcall, hm]
    rfl
  refine ⟨rejecting_reports, ⟨_, hdec, rfl, rfl⟩, fun h => ?_⟩
  have hlen : (16 : Nat) = 0 := (h _ hdec).1 (by simp)
  omega

end EspNetwork.Aead
