import EspNetwork.Spec.SocketClients
import EspNetwork.Spec.TcpPeers

/-!
# A client against the server

One of the clients of `EspNetwork.Spec.SocketClients` connected to the server of
`EspNetwork.Spec.TcpPeers`, beside any other clients. TCP keeps the bytes of each direction
in order and loses none while the connection lasts.

* What the client's `send` has taken waits in `up` until it reaches the server.
* What the server's `send` has taken waits in `down` until the client receives it.
* The server learns of the end of a connection later, and of what was still in `up` or not;
  from then on the connection is that of another client.
-/

namespace EspNetwork.EchoSystem

open CLib Lts
open SocketClient (payload)

structure System where
  world : Tcp.World
  client : SocketClient.State
  /-- the client's connection, among those of the server -/
  conn : Option ℕ
  up : Bytes
  down : Bytes
deriving DecidableEq

inductive Label
  | client (a : SocketClient.Call)
  /-- the next `k` bytes reach the server -/
  | deliver (k : ℕ)
  /-- a step of the server, or of another client -/
  | world (l : Tcp.WorldLabel)
deriving DecidableEq

/-- What a call has sent on a descriptor. -/
def sentBy (fd : ℕ) : Tcp.Call → Bytes
  | .send fd' _ _ (.ok bs) => if fd' = fd then bs else []
  | _ => []

/-- What a step of the server has sent on a descriptor. -/
def sentOn (w v : Tcp.World) (fd : ℕ) : Bytes :=
  if v.srv.log.length = w.srv.log.length then [] else (v.srv.log.head?.map (sentBy fd)).getD []

namespace System

/-- The server's end of the client's connection. -/
def peer (s : System) : Option Tcp.Peer := s.conn.bind fun j => s.world.peers[j]?

/-- What comes back on the client's connection in a step to `v`. -/
def answer (s : System) (v : Tcp.World) : Bytes :=
  match s.peer.bind Tcp.Peer.fd with
  | some fd => sentOn s.world v fd
  | none => []

/-- The server has closed its end. -/
def hungUp (s : System) : Bool := s.peer.any (·.conn == .released)

/-- What the client's calls do to its connection. -/
def call (s : System) : SocketClient.Call → Option System
  | .connect true => do
    let world ← s.world.step .connect
    return { s with world, conn := some s.world.peers.length, up := [], down := [] }
  | .send (some n) => some { s with up := s.up ++ payload.take n }
  | .recv (some bs) =>
    if bs <+: s.down ∧ (bs = [] → s.down = [] ∧ s.hungUp) then some { s with down := s.down.drop bs.length } else none
  -- `close` follows
  | .send none | .recv none => some { s with conn := none, up := [], down := [] }
  | .socket _ | .check _ | .connect false => some s

/-- What the client does on its connection, and nobody else. -/
def own (s : System) : Tcp.WorldLabel → Bool
  | .send j _ | .close j => s.conn == some j
  | .connect | .reset _ | .server _ => false

def step (c : SocketClient.Client) (s : System) : Label → Option System
  | .client a => do
    let client ← s.client.step c a
    let s ← s.call a
    return { s with client }
  | .deliver k => do
    let j ← s.conn
    if 1 ≤ k ∧ k ≤ s.up.length then
      let world ← s.world.step (.send j (s.up.take k))
      return { s with world, up := s.up.drop k }
    else none
  | .world l =>
    if s.own l then none
    else do
      let world ← s.world.step l
      return { s with world, down := s.down ++ s.answer world }

/-- The client and the server, from whatever the client's `rx_buffer` holds. -/
def machine (c : SocketClient.Client) (rx : Arr 128) (maxSocks listenSock : ℕ) : Machine System Label :=
  ⟨⟨(Tcp.World.machine maxSocks listenSock).init, (SocketClient.State.machine c rx).init, none, [], []⟩, step c⟩

/-- `send` takes at least one byte, on either side, and `accept` returns no open descriptor. -/
def Posix (s : System) : Label → Prop
  | .client (.send (some n)) => 1 ≤ n
  | .world l => s.world.Posix l
  | _ => True

/-- The same while the client waits in a call. -/
def Waiting (s : System) : Label → Prop
  | .client _ => False
  | l => s.Posix l

end System

end EspNetwork.EchoSystem
