import EspNetwork.Lib.Machine
import EspNetwork.Spec.Aead

/-!
# The AEAD receiver (`receiver.c`)

The receive loop of `app_main` over the datagrams that `recvfrom` delivers. Its buffers
are static: a pass finds in them what the passes before have left.
-/

namespace EspNetwork.Aead

open CLib Lts

/-- The static buffers before the first pass. -/
def Statics.init (z : Sizes) : Statics z :=
  ⟨Arr.zeros _, Arr.zeros _, Arr.zeros _, Arr.zeros _, Arr.zeros _⟩

/-- The receive loop, and what its passes have logged. -/
def receiveLoop (p : Provider) (key : Bytes) : Machine (Statics p.sizes × List Log) Bytes where
  init := (Statics.init p.sizes, [])
  step s dgram := (receivePass p key s.1 dgram).map fun r => (r.1, s.2 ++ [r.2])

end EspNetwork.Aead
