import EspNetwork.Spec.Aead

/-!
# The other AEAD providers (`provider_ascon.c`, `provider_aes_gcm.c`, `provider_chacha20poly1305.c`)

The calls into `ascon-c` and mbedTLS, which are not part of the repository, are
parameters: arbitrary functions from what a call is given to its return value and
to the bytes it writes.
-/

namespace EspNetwork.Aead

open CLib

/-- `(size_t)` of an `unsigned long long`; `size_t` has 32 bits on the ESP32. -/
def castSize (x : Nat) : Nat := x % 2 ^ 32

/-! ## Ascon -/

/-- What a call of `ascon-c` leaves: the bytes written to its output, the length
written to `*clen` or `*mlen` if it writes one, and the return value. -/
structure AsconOut where
  output : Bytes
  outlen : Option Nat
  ret : Int

/-- `crypto_aead_encrypt(m, ad, npub, k)` and `crypto_aead_decrypt(c, ad, npub, k)`. -/
structure AsconLib where
  encrypt : (m ad npub k : Bytes) → AsconOut
  decrypt : (c ad npub k : Bytes) → AsconOut

/-- `ascon_aead128_encrypt` -/
def asconAead128Encrypt {n : Nat} (L : AsconLib) (c : Arr n) (_clen : Nat) (m ad npub k : Bytes) :
    Option (Out n) := do
  let outlen := 0
  let call := L.encrypt m ad npub k
  let c ← c.store 0 call.output
  let outlen := call.outlen.getD outlen
  return ⟨c, castSize outlen, call.ret⟩

/-- `ascon_aead128_decrypt` -/
def asconAead128Decrypt {n : Nat} (L : AsconLib) (m : Arr n) (_mlen : Nat) (c ad npub k : Bytes) :
    Option (Out n) := do
  let outlen := 0
  let call := L.decrypt c ad npub k
  let m ← m.store 0 call.output
  let outlen := call.outlen.getD outlen
  return ⟨m, castSize outlen, call.ret⟩

/-- `provider_ascon.c` -/
abbrev asconProvider (L : AsconLib) : Provider :=
  ⟨Impl.ascon.sizes, asconAead128Encrypt L, asconAead128Decrypt L⟩

/-! ## mbedTLS -/

/-- What an encrypting call of mbedTLS leaves: the bytes written to its two outputs. -/
structure SealOut where
  output : Bytes
  tag : Bytes
  ret : Int

/-- What a decrypting call of mbedTLS leaves. -/
structure OpenOut where
  output : Bytes
  ret : Int

/-- The calls of a provider on a library context: `*_setkey`, `*_and_tag` and `*_auth_decrypt`. -/
structure CtxLib where
  Ctx : Type
  init : Ctx
  setkey : Ctx → (k : Bytes) → Int × Ctx
  encryptAndTag : Ctx → (npub ad m : Bytes) → SealOut
  authDecrypt : Ctx → (npub ad tag ct : Bytes) → OpenOut

/-- `aead_encrypt` over a library context. -/
def ctxEncrypt {n : Nat} (L : CtxLib) (z : Sizes) (c : Arr n) (clen : Nat) (m ad npub k : Bytes) :
    Option (Out n) :=
  let key := L.setkey L.init k
  if key.1 ≠ 0 then some ⟨c, clen, key.1⟩
  else do
    let call := L.encryptAndTag key.2 npub ad m
    let c ← c.store 0 call.output
    let c ← c.store m.length call.tag
    return ⟨c, if call.ret = 0 then m.length + z.tagLen else clen, call.ret⟩

/-- `aead_decrypt` over a library context. -/
def ctxDecrypt {n : Nat} (L : CtxLib) (z : Sizes) (m : Arr n) (mlen : Nat) (c ad npub k : Bytes) :
    Option (Out n) :=
  if c.length < z.tagLen then some ⟨m, mlen, -1⟩
  else do
    let ctOnly ← subSize c.length z.tagLen
    let ct := c.take ctOnly
    let tag := c.drop ctOnly
    let key := L.setkey L.init k
    if key.1 ≠ 0 then return ⟨m, mlen, key.1⟩
    let call := L.authDecrypt key.2 npub ad tag ct
    let m ← m.store 0 call.output
    return ⟨m, if call.ret = 0 then ctOnly else mlen, call.ret⟩

/-- `mbedtls/gcm.h`: `setkey(ctx, MBEDTLS_CIPHER_ID_AES, k, keybits)`,
`crypt_and_tag(ctx, MBEDTLS_GCM_ENCRYPT, length, iv, iv_len, ad, m, tag_len)` and
`auth_decrypt(ctx, length, iv, iv_len, ad, tag, tag_len, ct)`. -/
structure GcmLib where
  Ctx : Type
  init : Ctx
  setkey : Ctx → (k : Bytes) → (keybits : Nat) → Int × Ctx
  cryptAndTag : Ctx → (length : Nat) → (iv : Bytes) → (ivLen : Nat) → (ad m : Bytes) → (tagLen : Nat) → SealOut
  authDecrypt : Ctx → (length : Nat) → (iv : Bytes) → (ivLen : Nat) → (ad tag : Bytes) → (tagLen : Nat) →
    (ct : Bytes) → OpenOut

/-- The calls as `provider_aes_gcm.c` makes them. -/
def GcmLib.calls (L : GcmLib) : CtxLib where
  Ctx := L.Ctx
  init := L.init
  setkey ctx k := L.setkey ctx k (Impl.aesGcm.sizes.keyLen * 8)
  encryptAndTag ctx npub ad m :=
    L.cryptAndTag ctx m.length npub Impl.aesGcm.sizes.nonceLen ad m Impl.aesGcm.sizes.tagLen
  authDecrypt ctx npub ad tag ct :=
    L.authDecrypt ctx ct.length npub Impl.aesGcm.sizes.nonceLen ad tag Impl.aesGcm.sizes.tagLen ct

/-- `provider_aes_gcm.c` -/
abbrev aesGcmProvider (L : GcmLib) : Provider :=
  ⟨Impl.aesGcm.sizes, ctxEncrypt L.calls Impl.aesGcm.sizes, ctxDecrypt L.calls Impl.aesGcm.sizes⟩

/-- `mbedtls/chachapoly.h`: `setkey(ctx, k)`, `encrypt_and_tag(ctx, length, nonce, ad, m)`
and `auth_decrypt(ctx, length, nonce, ad, tag, ct)`. -/
structure ChachaPolyLib where
  Ctx : Type
  init : Ctx
  setkey : Ctx → (k : Bytes) → Int × Ctx
  encryptAndTag : Ctx → (length : Nat) → (nonce ad m : Bytes) → SealOut
  authDecrypt : Ctx → (length : Nat) → (nonce ad tag ct : Bytes) → OpenOut

/-- The calls as `provider_chacha20poly1305.c` makes them. -/
def ChachaPolyLib.calls (L : ChachaPolyLib) : CtxLib where
  Ctx := L.Ctx
  init := L.init
  setkey := L.setkey
  encryptAndTag ctx npub ad m := L.encryptAndTag ctx m.length npub ad m
  authDecrypt ctx npub ad tag ct := L.authDecrypt ctx ct.length npub ad tag ct

/-- `provider_chacha20poly1305.c` -/
abbrev chachaPolyProvider (L : ChachaPolyLib) : Provider :=
  ⟨Impl.chacha20Poly1305.sizes, ctxEncrypt L.calls Impl.chacha20Poly1305.sizes,
    ctxDecrypt L.calls Impl.chacha20Poly1305.sizes⟩

/-! ## The provider a build selects -/

/-- The libraries the providers are linked with. -/
structure Libs where
  ascon : AsconLib
  gcm : GcmLib
  chachaPoly : ChachaPolyLib

/-- The provider that `CMakeLists.txt` selects. -/
def Libs.provider (L : Libs) : Impl → Provider
  | .ascon => asconProvider L.ascon
  | .aesGcm => aesGcmProvider L.gcm
  | .chacha20Poly1305 => chachaPolyProvider L.chachaPoly
  | .mock => mockProvider Impl.mock.sizes

end EspNetwork.Aead
