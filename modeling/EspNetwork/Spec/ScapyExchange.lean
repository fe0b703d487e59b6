import EspNetwork.Lib.Decimal
import EspNetwork.Spec.ScapyServer

/-!
# What a cycle of the Scapy TCP server sends (`scapy_tcp_server.py`)

The segments and the waits for an acknowledgement of one connection cycle, given the
packets its waits take. Python integers have no bound, and `send` raises when `seq` or
`ack` does not fit in 32 bits.
-/

namespace EspNetwork.Scapy

open CLib

/-- The `flags` of what the server sends. -/
inductive Flags
  | sa
  | a
  | pa
  | fa
deriving DecidableEq, Repr

structure Segment where
  flags : Flags
  seq : ℤ
  ack : ℤ
  load : Bytes
deriving DecidableEq, Repr

inductive Op
  | send (segment : Segment)
  /-- `_wait_for_ack` on this connection -/
  | waitForAck (c : Conn)
  /-- `_wait_for_data_ack` and what it returns; on failure only a warning is printed -/
  | waitForDataAck (expectedAck : ℤ) (received : Bool)
deriving DecidableEq, Repr

def isDataAck (port : UInt16) (c : Conn) (expectedAck : ℤ) (p : Packet) : Bool :=
  fromClient port c p ∧ p.flags &&& 0x10 = 0x10 ∧ (p.ack.toNat : ℤ) = expectedAck

/-! ## `_send_http_response` -/

def headers (responseData : Bytes) : Bytes :=
  bytes "HTTP/1.1 200 OK\r\nContent-Type: text/plain\r\nContent-Length: " ++ decimal responseData.length ++
    bytes "\r\nConnection: close\r\n\r\n"

def fullPayload (responseData : Bytes) : Bytes := headers responseData ++ responseData

/-- "Split payload into 3 chunks: 500, 500, rest". -/
def chunkSizes (payload : Bytes) : List ℕ :=
  let remaining : ℤ := payload.length - ([500, 500] : List ℕ).sum
  if 0 < remaining then [500, 500, remaining.toNat] else [500, 500]

/-- The loop over the chunk sizes from the `i`-th on; what it does and the `seq` it ends
with. -/
def sendChunks (payload : Bytes) (count : ℕ) (ack : ℤ) (acked : ℕ → Bool) : ℕ → List ℕ → ℕ → ℤ → List Op × ℤ
  | _, [], _, seq => ([], seq)
  | i, chunkSize :: sizes, currentPos, seq =>
    if payload.length ≤ currentPos then ([], seq)
    else
      let chunkEnd := min (currentPos + chunkSize) payload.length
      let chunkData := (payload.take chunkEnd).drop currentPos
      let nextSeq := seq + chunkData.length
      let wait : List Op := if i < count then [.waitForDataAck nextSeq (acked i)] else []
      let rest := sendChunks payload count ack acked (i + 1) sizes chunkEnd nextSeq
      (.send ⟨.pa, seq, ack, chunkData⟩ :: wait ++ rest.1, rest.2)

/-- `acked i` is the result of the wait after the `i`-th chunk. That `send` raises for a
number that does not fit in 32 bits is left to `Exchange.trace`. -/
def sendHttpResponse (responseData : Bytes) (seq ack : ℤ) (acked : ℕ → Bool) : List Op × ℤ :=
  let payload := fullPayload responseData
  sendChunks payload (chunkSizes payload).length ack acked 1 (chunkSizes payload) 0 seq

/-! ## The cycle -/

/-- After `_wait_for_syn`; `rnd` is what `random.randrange` drew. -/
def Conn.ofSyn (p : Packet) (rnd : ℕ) : Conn := ⟨p.src, p.sport, rnd, p.seq.toNat + 1⟩

/-- After `_wait_for_ack`. -/
def Conn.established (c : Conn) : Conn := { c with seq := c.seq + 1 }

/-- After `_wait_for_get`. -/
def Conn.requested (c : Conn) (p : Packet) : Conn := { c with ack := p.seq.toNat + (p.load.getD []).length }

/-- The packets a cycle takes and what it draws. The GET follows the client's SYN. -/
structure Exchange where
  port : UInt16
  syn : Packet
  get : Packet
  fin : Packet
  /-- `random.randrange(0, (2**32) - 1)` -/
  rnd : Fin (2 ^ 32 - 1)
  acked : ℕ → Bool
  responseData : Bytes
  follows : get.seq = syn.seq + 1

namespace Exchange

def conn (x : Exchange) : Conn := .ofSyn x.syn x.rnd

/-- `_send_synack`, `_wait_for_ack`, `_send_ack`, `_send_http_response`, and the FIN/ACK
of `_wait_for_fin`. -/
def ops (x : Exchange) : List Op :=
  let c := x.conn.established.requested x.get
  let response := sendHttpResponse x.responseData c.seq c.ack x.acked
  [.send ⟨.sa, x.conn.seq, x.conn.ack, []⟩, .waitForAck x.conn, .send ⟨.a, c.seq, c.ack, []⟩] ++ response.1 ++
    [.send ⟨.fa, response.2, x.fin.seq.toNat + 1, []⟩]

end Exchange

/-- `struct.pack` takes both numbers. -/
def Segment.packs (s : Segment) : Bool := (0 ≤ s.seq ∧ s.seq < 2 ^ 32) ∧ 0 ≤ s.ack ∧ s.ack < 2 ^ 32

/-- Up to the `send` that raises; the exception ends the cycle. -/
def untilRaise : List Op → List Op
  | [] => []
  | .send s :: ops => .send s :: if s.packs then untilRaise ops else []
  | op :: ops => op :: untilRaise ops

/-- What the cycle does. -/
def Exchange.trace (x : Exchange) : List Op := untilRaise x.ops

end EspNetwork.Scapy
