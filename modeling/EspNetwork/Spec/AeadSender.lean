import EspNetwork.Lib.Machine
import EspNetwork.Spec.Aead

/-!
# The AEAD sender (`sender.c`)

One pass of the send loop of `app_main`, with the counter, the plaintext and the
result of `sendto` as arguments, and the loop over its passes.
-/

namespace EspNetwork.Aead

open CLib Lts

/-- The loop of `be64`: `for (i = 7; i >= 0; --i) { out[i] = (uint8_t)(x & 0xFF); x >>= 8; }`,
with `i + 1` bytes still to store. -/
def be64Loop {n : Nat} (out : Arr n) : Nat → UInt64 → Option (Arr n)
  | 0, _ => some out
  | i + 1, x => do
    let out ← out.store i [(x &&& 0xFF).toUInt8]
    be64Loop out i (x >>> 8)

/-- `be64` -/
def be64 {n : Nat} (out : Arr n) (x : UInt64) : Option (Arr n) := be64Loop out 8 x

/-- The static buffers of the send loop. -/
structure SendStatics (z : Sizes) where
  nonce : Arr z.nonceLen
  ctAndTag : Arr 512
  packet : Arr (z.nonceLen + 512)
  nonceHex : Arr (z.nonceLen * 2 + 1)
  ctHex : Arr 1024

/-- The static buffers before the first pass. -/
def SendStatics.init (z : Sizes) : SendStatics z :=
  ⟨Arr.zeros _, Arr.zeros _, Arr.zeros _, Arr.zeros _, Arr.zeros _⟩

/-- How one pass ends: what it logs, and the datagram that `sendto` accepted. -/
inductive SendLog
  | encryptFailed
  | tooLarge
  | sendtoFailed
  | sent (packet : Bytes) (counter : UInt64) (nonce ct : Bytes)

/-- One pass of the send loop of `app_main`. -/
def sendPass (p : Provider) (key : Bytes) (st : SendStatics p.sizes) (counter : UInt64) (m : Bytes)
    (sent : Int) : Option (SendStatics p.sizes × SendLog) := do
  let nonce ← be64 st.nonce counter
  -- the local array is not initialised; all of it is overwritten
  let aad ← be64 (Arr.zeros 8) counter
  let enc ← p.encrypt st.ctAndTag 0 m aad.data nonce.data key
  let st := { st with nonce, ctAndTag := enc.buf }
  if enc.ret ≠ 0 then return (st, .encryptFailed)
  if 512 < enc.len then return (st, .tooLarge)
  let packet ← st.packet.store 0 nonce.data
  let packet ← packet.store p.sizes.nonceLen (enc.buf.data.take enc.len)
  let st := { st with packet }
  if sent < 0 then return (st, .sendtoFailed)
  let nonceHex ← bytesToHex nonce.data st.nonceHex
  let ctHex ← bytesToHex (enc.buf.data.take enc.len) st.ctHex
  return ({ st with nonceHex, ctHex },
    .sent (packet.data.take (p.sizes.nonceLen + enc.len)) counter (cstr nonceHex.data) (cstr ctHex.data))

/-- The send loop: its passes, each with its counter, plaintext and `sendto` result. -/
def sendLoop (p : Provider) (key : Bytes) : Machine (SendStatics p.sizes) (UInt64 × Bytes × Int) where
  init := SendStatics.init p.sizes
  step st l := (sendPass p key st l.1 l.2.1 l.2.2).map (·.1)

end EspNetwork.Aead
