import EspNetwork.Lib.Bytes
import EspNetwork.Lib.Machine

/-!
# The Scapy TCP server (`lwip/rcvwnd_issue/scripts/scapy_tcp_server.py`)

The sniffer thread fills `global_packets`, `run` serves one connection cycle after the
other, and each of its waits searches that one buffer: a pre-scan of all of it, then
polls that skip what is older than the wait. The buffer is locked during a search and
during an append, so each is one step.

Not part of the program: the `history` of stored packets, the place of an entry in it,
and the record of what each cycle took (`cycles`).
-/

namespace EspNetwork.Scapy

open CLib Lts

/-- A captured packet with an IP and a TCP layer; `load` is its Raw layer. -/
structure Packet where
  src : UInt32
  sport : UInt16
  dport : UInt16
  flags : UInt16
  seq : UInt32
  ack : UInt32
  load : Option Bytes
deriving DecidableEq, Repr

/-- An element of `global_packets`. -/
structure Entry where
  timestamp : ℕ
  pkt : Packet
  /-- its place in the history -/
  idx : ℕ
deriving DecidableEq, Repr

/-- `client_ip`, `client_port`, `seq` and `ack`, once a SYN is found. -/
structure Conn where
  clientIp : UInt32
  clientPort : UInt16
  seq : ℕ
  ack : ℕ
deriving DecidableEq, Repr

/-- `_wait_for_syn`, `_wait_for_ack`, `_wait_for_get`. -/
inductive Wait
  | syn
  | ack
  | get
deriving DecidableEq, Repr

inductive Stage
  /-- the search of the whole buffer -/
  | scan
  /-- the condition of the `while` loop -/
  | test
  /-- `time.sleep(0.1)`, and the search that skips old packets -/
  | poll
deriving DecidableEq, Repr

/-- Where `run` is. -/
inductive Phase
  /-- `while self.running` -/
  | cycle
  /-- `start_time = time.time()` of a wait -/
  | start (w : Wait)
  | wait (w : Wait) (stage : Stage) (startTime : ℕ)
  /-- `_send_synack` -/
  | synack
  /-- `_send_ack`, `_send_http_response`, `_wait_for_fin` -/
  | respond
  | stopped
deriving DecidableEq, Repr

/-- A packet a cycle took, and how many had been stored by then. -/
structure Pick where
  entry : Entry
  after : ℕ
deriving DecidableEq, Repr

structure Cycle where
  syn : Pick
  /-- the acknowledgement number of the SYN/ACK -/
  announced : Option ℕ
  get : Option Pick
deriving DecidableEq, Repr

structure State where
  /-- `time.time()` in microseconds -/
  now : ℕ
  running : Bool
  /-- `_global_packet_callback` between the timestamp and the append -/
  callback : Option (ℕ × Packet)
  /-- oldest first -/
  globalPackets : List Entry
  conn : Option Conn
  phase : Phase
  history : List Packet
  /-- newest first -/
  cycles : List Cycle
deriving DecidableEq, Repr

inductive Action
  /-- the sniffer hands a packet to the callback -/
  | capture (pkt : Packet)
  | store
  /-- the clock may also be set back -/
  | clock (now : ℕ)
  /-- SIGINT or SIGTERM -/
  | signal
  | loop
  | start
  /-- a search of the buffer; `rnd` is what `random.randrange` gives if it finds a SYN -/
  | look (rnd : ℕ)
  | test
  | sendSynack (ok : Bool)
  | respond
deriving DecidableEq, Repr

def isSyn (port : UInt16) (p : Packet) : Bool := p.dport = port ∧ p.flags &&& 0x02 = 0x02

/-- From the client of the connection. -/
def fromClient (port : UInt16) (c : Conn) (p : Packet) : Bool :=
  p.src = c.clientIp ∧ p.sport = c.clientPort ∧ p.dport = port

def isHandshakeAck (port : UInt16) (c : Conn) (p : Packet) : Bool :=
  fromClient port c p ∧ p.flags &&& 0x10 = 0x10 ∧ p.load = none ∧ p.ack.toNat = c.seq + 1

def isGet (port : UInt16) (c : Conn) (p : Packet) : Bool :=
  fromClient port c p ∧ ∃ load ∈ p.load, bytes "GET" <:+: load

/-- What a wait looks for. -/
def Wait.wants (port : UInt16) (conn : Option Conn) (w : Wait) (p : Packet) : Bool :=
  match w with
  | .syn => isSyn port p
  | .ack => conn.any fun c => isHandshakeAck port c p
  | .get => conn.any fun c => isGet port c p

/-- `timeout = 10`. -/
def timeout : ℕ := 10 * 10 ^ 6

/-- "Keep only last 100 packets". -/
def keepLast (l : List Entry) : List Entry := if 100 < l.length then l.tail else l

namespace State

/-- The packet the next search finds: the most recent one first. -/
def found (port : UInt16) (s : State) : Option Entry :=
  match s.phase with
  | .wait w .scan _ => s.globalPackets.reverse.find? fun e => w.wants port s.conn e.pkt
  -- "Skip old packets"
  | .wait w .poll startTime =>
    s.globalPackets.reverse.find? fun e => startTime ≤ e.timestamp && w.wants port s.conn e.pkt
  | _ => none

/-- What a wait does with the packet it has found. -/
def take (s : State) (e : Entry) (rnd : ℕ) : Wait → State
  | .syn =>
    { s with
      conn := some ⟨e.pkt.src, e.pkt.sport, rnd, e.pkt.seq.toNat + 1⟩
      phase := .synack
      cycles := ⟨⟨e, s.history.length⟩, none, none⟩ :: s.cycles }
  | .ack => { s with conn := s.conn.map fun c => { c with seq := c.seq + 1 }, phase := .start .get }
  | .get =>
    { s with
      conn := s.conn.map fun c => { c with ack := e.pkt.seq.toNat + (e.pkt.load.getD []).length }
      phase := .respond
      cycles := s.cycles.modifyHead fun c => { c with get := some ⟨e, s.history.length⟩ } }

/-- A search of the buffer. -/
def look (port : UInt16) (s : State) (rnd : ℕ) : Option State :=
  match s.phase with
  | .wait _ .test _ => none
  | .wait w _ startTime =>
    match s.found port with
    | some e => some (s.take e rnd w)
    | none => some { s with phase := .wait w .test startTime }
  | _ => none

/-- `_send_synack`; an acknowledgement number of `2 ^ 32` cannot be packed. -/
def sendSynack (s : State) (ok : Bool) : Option State :=
  match s.conn with
  | some c =>
    if ok ∧ c.ack < 2 ^ 32 then
      some { s with
        phase := .start .ack
        cycles := s.cycles.modifyHead fun cycle => { cycle with announced := some c.ack } }
    else some { s with phase := .cycle }
  | none => none

def step (port : UInt16) (s : State) : Action → Option State
  | .capture pkt =>
    match s.callback with
    | none => some (if pkt.sport = port ∨ pkt.dport = port then { s with callback := some (s.now, pkt) } else s)
    | some _ => none
  | .store =>
    match s.callback with
    | some (timestamp, pkt) =>
      some { s with
        callback := none
        globalPackets := keepLast (s.globalPackets ++ [⟨timestamp, pkt, s.history.length⟩])
        history := s.history ++ [pkt] }
    | none => none
  | .clock now => some { s with now }
  | .signal => some { s with running := false }
  | .loop =>
    match s.phase with
    | .cycle => some (if s.running then { s with conn := none, phase := .start .syn } else { s with phase := .stopped })
    | _ => none
  | .start =>
    match s.phase with
    -- `run` looks at `running` before `_wait_for_get`
    | .start w => some { s with phase := if w = .get ∧ !s.running then .stopped else .wait w .scan s.now }
    | _ => none
  | .look rnd => if rnd < 2 ^ 32 - 1 then s.look port rnd else none
  | .test =>
    match s.phase with
    | .wait w .test startTime =>
      some { s with
        phase := if s.running ∧ (w = .syn ∨ s.now < startTime + timeout) then .wait w .poll startTime else .cycle }
    | _ => none
  | .sendSynack ok =>
    match s.phase with
    | .synack => if s.running then s.sendSynack ok else some { s with phase := .stopped }
    | _ => none
  | .respond =>
    match s.phase with
    | .respond => some { s with phase := if s.running then .cycle else .stopped }
    | _ => none

/-- The server on `port`, as `run` starts. -/
def machine (port : UInt16) : Machine State Action :=
  ⟨⟨0, true, none, [], none, .cycle, [], []⟩, step port⟩

end State

end EspNetwork.Scapy
