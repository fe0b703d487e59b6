import EspNetwork.Lib.Network
import EspNetwork.Spec.AeadReceiver
import EspNetwork.Spec.AeadSender

/-!
# The AEAD demo over a network

`app_main` of sender.c as a loop of its own, with its counter and the `break`s that end
it, and the receive loop of receiver.c, joined by UDP.
-/

namespace EspNetwork.Aead

open CLib Lts

/-- `app_main` of the sender, at the top of `while (1)` or behind it. -/
structure Sender (z : Sizes) where
  st : SendStatics z
  counter : UInt64
  running : Bool

namespace Sender

variable {p : Provider}

/-- One pass with this result of `sendto`, and the datagram it has sent. -/
def pass (p : Provider) (key m : Bytes) (s : Sender p.sizes) (sent : Int) : Option (Sender p.sizes × Option Bytes) :=
  if s.running then
    (sendPass p key s.st s.counter m sent).map fun
      | (st, .sent packet _ _ _) => (⟨st, s.counter + 1, true⟩, some packet)
      | (st, _) => (⟨st, s.counter, false⟩, none)
  else none

/-- `app_main` with the plaintext `m`. -/
def machine (p : Provider) (key m : Bytes) : Machine (Sender p.sizes) Int where
  init := ⟨SendStatics.init p.sizes, 1, true⟩
  step s sent := (pass p key m s sent).map (·.1)

def emits (p : Provider) (key m : Bytes) (s : Sender p.sizes) (sent : Int) : Option Bytes :=
  (pass p key m s sent).bind (·.2)

end Sender

/-- Sender, network and receiver under one key. -/
def link (p : Provider) (key m : Bytes) :
    Machine (Net (Sender p.sizes) (Statics p.sizes × List Log) Bytes) (NetLabel Int) :=
  Net.machine (Sender.machine p key m) (Sender.emits p key m) (receiveLoop p key)

end EspNetwork.Aead
