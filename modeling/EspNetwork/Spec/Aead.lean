import EspNetwork.Lib.Bytes

/-!
# The AEAD UDP demo (`ascon/`)

The sizes of `crypto_aead.h`, the mock provider (`provider_mock.c`) and one pass of
the receive loop (`receiver.c`). A store that leaves its array and a `size_t`
subtraction that underflows make the pass fail (`none`).
-/

namespace EspNetwork.Aead

open CLib

/-- `AEAD_KEY_LEN`, `AEAD_NONCE_LEN` and `AEAD_TAG_LEN`. -/
structure Sizes where
  keyLen : Nat
  nonceLen : Nat
  tagLen : Nat

/-- The choice `CONFIG_AEAD_IMPL_*`. -/
inductive Impl
  | ascon
  | aesGcm
  | chacha20Poly1305
  | mock

/-- `crypto_aead.h` -/
def Impl.sizes : Impl → Sizes
  | ascon => ⟨16, 16, 16⟩
  | aesGcm => ⟨16, 12, 16⟩
  | chacha20Poly1305 => ⟨32, 12, 16⟩
  | mock => ⟨16, 16, 16⟩

/-- `size_t` subtraction; an underflow fails. -/
def subSize (a b : Nat) : Option Nat := if b ≤ a then some (a - b) else none

/-! ## The mock provider -/

/-- `k[i % AEAD_KEY_LEN] ^ npub[i % AEAD_NONCE_LEN]` -/
def pad (z : Sizes) (npub k : Bytes) (i : Nat) : Byte :=
  k.getD (i % z.keyLen) 0 ^^^ npub.getD (i % z.nonceLen) 0

/-- `for (i ...) acc[i % AEAD_TAG_LEN] ^= src[i]` -/
def xorLoop (z : Sizes) (acc src : Bytes) : Bytes :=
  src.zipIdx.foldl (fun acc p => acc.modify (p.2 % z.tagLen) (· ^^^ p.1)) acc

/-- `fake_tag` -/
def fakeTag (z : Sizes) (c ad npub k : Bytes) : Bytes :=
  let acc := (List.range z.tagLen).map (pad z npub k)
  xorLoop z (xorLoop z acc c) ad

/-- `for (i ...) dst[i] = src[i] ^ k[i % AEAD_KEY_LEN] ^ npub[i % AEAD_NONCE_LEN]`, from index `i` -/
def cryptLoop {n : Nat} (z : Sizes) (npub k : Bytes) (dst : Arr n) : Nat → Bytes → Option (Arr n)
  | _, [] => some dst
  | i, b :: src => do
    let dst ← dst.store i [b ^^^ pad z npub k i]
    cryptLoop z npub k dst (i + 1) src

/-- What a provider call leaves: the output buffer, the caller's length and the return value. -/
structure Out (n : Nat) where
  buf : Arr n
  len : Nat
  ret : Int

/-- `aead_encrypt` of the mock provider. -/
def aeadEncrypt {n : Nat} (z : Sizes) (c : Arr n) (_clen : Nat) (m ad npub k : Bytes) : Option (Out n) := do
  let c ← cryptLoop z npub k c 0 m
  let tag := fakeTag z (c.data.take m.length) ad npub k
  let c ← c.store m.length tag
  return ⟨c, m.length + z.tagLen, 0⟩

/-- `aead_decrypt` of the mock provider. -/
def aeadDecrypt {n : Nat} (z : Sizes) (m : Arr n) (mlen : Nat) (c ad npub k : Bytes) : Option (Out n) :=
  if c.length < z.tagLen then some ⟨m, mlen, -1⟩
  else do
    let ctOnly ← subSize c.length z.tagLen
    let tagIn := c.drop ctOnly
    let tag := fakeTag z (c.take ctOnly) ad npub k
    if tag ≠ tagIn then return ⟨m, mlen, -1⟩
    let m ← cryptLoop z npub k m 0 (c.take ctOnly)
    return ⟨m, ctOnly, 0⟩

/-- A provider as the two demo programs use it. -/
structure Provider where
  sizes : Sizes
  encrypt {n : Nat} : Arr n → Nat → (m ad npub k : Bytes) → Option (Out n)
  decrypt {n : Nat} : Arr n → Nat → (c ad npub k : Bytes) → Option (Out n)

/-- The mock provider, built with given sizes. -/
abbrev mockProvider (z : Sizes) : Provider := ⟨z, aeadEncrypt z, aeadDecrypt z⟩

/-- `g_key`: `00 01 02 ...` -/
def gKey (z : Sizes) : Bytes := (List.range z.keyLen).map UInt8.ofNat

/-! ## The receiver -/

def hexDigits : Bytes := bytes "0123456789abcdef"

/-- The loop of `bytes_to_hex`, from index `i`. -/
def hexLoop {n : Nat} (out : Arr n) : Nat → Bytes → Option (Arr n)
  | _, [] => some out
  | i, b :: src => do
    let out ← out.store (2 * i) [hexDigits.getD (b >>> 4 &&& 0xF).toNat 0]
    let out ← out.store (2 * i + 1) [hexDigits.getD (b &&& 0xF).toNat 0]
    hexLoop out (i + 1) src

/-- `bytes_to_hex(src, len, out, sizeof(out))` -/
def bytesToHex {n : Nat} (src : Bytes) (out : Arr n) : Option (Arr n) :=
  if n < src.length * 2 + 1 then some out
  else do
    let out ← hexLoop out 0 src
    out.store (2 * src.length) [0]

/-- The static buffers of the receive loop. -/
structure Statics (z : Sizes) where
  buf : Arr 2048
  aad : Arr 8
  pt : Arr 1024
  nonceHex : Arr (z.nonceLen * 2 + 1)
  ctHex : Arr 1024

/-- What one pass logs. -/
inductive Log
  | tooShort (r : Nat)
  | plaintext (nonce ct pt : Bytes)
  | authFailure (nonce ct : Bytes)

/-- One pass of the receive loop of `app_main` on a datagram that `recvfrom` delivers. -/
def receivePass (p : Provider) (key : Bytes) (st : Statics p.sizes) (dgram : Bytes) :
    Option (Statics p.sizes × Log) := do
  let buf ← st.buf.store 0 dgram
  let r := dgram.length
  let st := { st with buf }
  if r < p.sizes.nonceLen + p.sizes.tagLen then return (st, .tooShort r)
  let nonce := buf.data.take p.sizes.nonceLen
  let clen ← subSize r p.sizes.nonceLen
  let ctAndTag := (buf.data.drop p.sizes.nonceLen).take clen
  let aad ← st.aad.store 0 (buf.data.take 8)
  let dec ← p.decrypt st.pt 0 ctAndTag aad.data nonce key
  let nonceHex ← bytesToHex nonce st.nonceHex
  let ctHex ← bytesToHex ctAndTag st.ctHex
  let st := { st with aad, nonceHex, ctHex, pt := dec.buf }
  if dec.ret = 0 then
    let printLen := if dec.len < 1024 - 1 then dec.len else 1024 - 1
    let pt ← dec.buf.store printLen [0]
    return ({ st with pt }, .plaintext (cstr nonceHex.data) (cstr ctHex.data) (cstr pt.data))
  else return (st, .authFailure (cstr nonceHex.data) (cstr ctHex.data))

end EspNetwork.Aead
