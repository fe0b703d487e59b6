import EspNetwork.Spec.TcpServer

/-!
# The TCP server's clients

The server of `EspNetwork.Spec.TcpServer` together with its clients, under POSIX
semantics: a client connects, sends, and closes or resets its connection; `recv` hands
out what was sent, then reports the end of the stream for ever.
-/

namespace EspNetwork.Tcp

open CLib

/-- The server's end of a connection. -/
inductive Conn
  | pending
  | accepted (fd : ℕ)
  | released
deriving DecidableEq, Repr

structure Peer where
  conn : Conn
  /-- sent by the client and not received yet -/
  inbox : Bytes
  /-- the client has closed its end -/
  closed : Bool
  reset : Bool
  /-- `recv` or `send` has told the server that the connection has ended -/
  known : Bool
deriving DecidableEq

namespace Peer

/-- The descriptor that the server holds for a client. -/
def fd (p : Peer) : Option ℕ :=
  match p.conn with
  | .accepted fd => some fd
  | _ => none

/-- Everything has been read from a client that has closed its end. -/
def atEnd (p : Peer) : Bool := p.closed && p.inbox.isEmpty && !p.reset

/-- The results that `recv` may return. -/
def recv (p : Peer) : Except Errno Bytes → Option Peer
  | .ok data =>
    if p.reset then none
    else if data.isEmpty then (if p.atEnd then some { p with known := true } else none)
    else if data.isPrefixOf p.inbox then some { p with inbox := p.inbox.drop data.length }
    else none
  | .error e =>
    if e.soft then (if p.reset || p.closed || !p.inbox.isEmpty then none else some p)
    else if p.reset then some { p with known := true }
    else none

/-- A failed `send` tells the server as well. -/
def send (p : Peer) : Except Errno Bytes → Option Peer
  | .ok _ => if p.reset then none else some p
  | .error e => some { p with known := p.known || !e.soft }

end Peer

/-- Update the client behind a descriptor. -/
def withPeer (peers : List Peer) (fd : ℕ) (f : Peer → Option Peer) : Option (List Peer) := do
  let c ← peers.findIdx? fun p => p.fd == some fd
  let p ← peers[c]?
  let q ← f p
  some (peers.set c q)

/-- The clients after a system call of the server; `none` if the call cannot return that. -/
def kernel (peers : List Peer) : Call → Option (List Peer)
  | .accept (.ok fd) => do
    let c ← peers.findIdx? (·.conn == .pending)
    let p ← peers[c]?
    some (peers.set c { p with conn := .accepted fd })
  | .accept (.error .eagain) => if peers.any (·.conn == .pending) then none else some peers
  | .accept (.error _) => some peers
  | .recv fd r => withPeer peers fd (·.recv r)
  | .send fd _ _ r => withPeer peers fd (·.send r)
  | .close fd =>
    match peers.findIdx? fun p => p.fd == some fd with
    | some c => some (peers.modify c fun p => { p with conn := .released })
    | none => some peers
  | .fcntl _ _ => some peers
  | .usleep => some peers

structure World where
  srv : Server
  peers : List Peer
deriving DecidableEq

inductive WorldLabel
  | connect
  | send (c : ℕ) (data : Bytes)
  | close (c : ℕ)
  | reset (c : ℕ)
  | server (l : Label)
deriving DecidableEq

namespace World

/-- A client acts on its own end. -/
def client (w : World) (c : ℕ) (f : Peer → Option Peer) : Option World := do
  let p ← w.peers[c]?
  let q ← f p
  some { w with peers := w.peers.set c q }

def step (w : World) : WorldLabel → Option World
  | .connect => some { w with peers := w.peers ++ [⟨.pending, [], false, false, false⟩] }
  | .send c data =>
    w.client c fun p => if p.closed || p.reset then none else some { p with inbox := p.inbox ++ data }
  | .close c => w.client c fun p => if p.reset then none else some { p with closed := true }
  | .reset c => w.client c fun p => some { p with reset := true }
  | .server l => do
    let t ← w.srv.step l
    -- the call that the step has made, if any
    if t.log.length = w.srv.log.length then some { w with srv := t }
    else
      let c ← t.log.head?
      (kernel w.peers c).map fun peers => ⟨t, peers⟩

def machine (maxSocks listenSock : ℕ) : Lts.Machine World WorldLabel :=
  ⟨⟨.init maxSocks listenSock, []⟩, step⟩

/-- `accept` returns no descriptor that is open. -/
def NewSock (w : World) : WorldLabel → Prop
  | .server l => Tcp.NewSock w.srv l
  | _ => True

/-- The steps of the server meet the assumptions on `accept` and `send`. -/
def Posix (w : World) : WorldLabel → Prop
  | .server l => Env w.srv l
  | _ => True

/-- The accepted clients that are not known to have closed. -/
def connected (w : World) : ℕ := w.peers.countP fun p => p.fd.isSome && !p.known

end World

/-- The calls of the current pass, which ends with `usleep`. -/
def thisPass (log : List Call) : List Call := log.takeWhile (· != .usleep)

end EspNetwork.Tcp
