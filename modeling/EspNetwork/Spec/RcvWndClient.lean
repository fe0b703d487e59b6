import EspNetwork.Lib.Bytes
import EspNetwork.Lib.Machine

/-!
# The receive-window client (`lwip/rcvwnd_issue/tcp_client/main/tcp_client_v4.c`)

The receive loop of `tcp_client` and the terminating store after it, one `recv` a step.
Its results are chosen by the environment.
-/

namespace EspNetwork.RcvWnd

open CLib Lts

def EXPECTED_RESPONSE_SIZE : ℤ := 1500

def BATCH : ℤ := 128

def maxAttempts : ℕ := 100

/-- The result of `recv`. -/
inductive Recv
  /-- a negative result -/
  | failed
  /-- the bytes received; none if the peer has closed the connection -/
  | data (bs : Bytes)
deriving DecidableEq

/-- Why the loop ended. -/
inductive Stop
  /-- its condition is false -/
  | condition
  /-- "Buffer full, cannot receive more data" -/
  | bufferFull
  /-- "recv failed" -/
  | failed
  /-- "Connection closed by server" -/
  | closed
  /-- "Successfully received expected" -/
  | success
deriving DecidableEq, Repr

inductive Pc
  /-- in `recv(sock, rx_buffer + total_received, bytesToReceive, 0)` -/
  | recv (bytesToReceive : ℤ)
  | ended (stop : Stop)
deriving DecidableEq, Repr

structure State where
  rxBuffer : Arr 1500
  totalReceived : ℕ
  receiveAttempts : ℕ
  pc : Pc
deriving DecidableEq

namespace State

/-- `sizeof(rx_buffer) - total_received - 1`, a `size_t`, as an `int`. -/
def remainingBuffer (totalReceived : ℕ) : ℤ :=
  (((1500 : ℤ) - totalReceived - 1) % 2 ^ 32).bmod (2 ^ 32)

/-- The condition of the loop, and what comes before `recv`. -/
def head (totalReceived receiveAttempts : ℕ) : Pc :=
  if totalReceived < EXPECTED_RESPONSE_SIZE ∧ receiveAttempts < maxAttempts then
    if remainingBuffer totalReceived ≤ 0 then .ended .bufferFull
    else .recv (if remainingBuffer totalReceived < BATCH then remainingBuffer totalReceived else BATCH)
  else .ended .condition

/-- The loop from `recv` on. `recv` stores at most what it was asked for, and a store that
leaves `rx_buffer` is undefined. -/
def step (s : State) (r : Recv) : Option State :=
  match s.pc with
  | .ended _ => none
  | .recv bytesToReceive =>
    let receiveAttempts := s.receiveAttempts + 1
    match r with
    | .failed => some { s with receiveAttempts, pc := .ended .failed }
    | .data bs =>
      if bs.length ≤ bytesToReceive then
        if bs.length = 0 then some { s with receiveAttempts, pc := .ended .closed }
        else
          (s.rxBuffer.store s.totalReceived bs).map fun rxBuffer =>
            let totalReceived := s.totalReceived + bs.length
            let pc := if EXPECTED_RESPONSE_SIZE ≤ totalReceived then .ended .success else head totalReceived receiveAttempts
            { s with rxBuffer, totalReceived, receiveAttempts, pc }
      else none

/-- The loop, from whatever `rx_buffer` holds. -/
def machine (rx : Arr 1500) : Machine State Recv := ⟨⟨rx, 0, 0, head 0 0⟩, step⟩

/-- `rx_buffer[total_received] = 0`, after the loop. -/
def terminate (s : State) : Option (Arr 1500) :=
  if 0 < s.totalReceived then s.rxBuffer.store s.totalReceived [0] else some s.rxBuffer

/-- The loop against a sequence of results, of which it takes as many as it calls `recv`. -/
def receive (s : State) : List Recv → Option State
  | [] => some s
  | r :: rs =>
    match s.pc with
    | .ended _ => some s
    | .recv _ => (s.step r).bind fun t => t.receive rs

end State

end EspNetwork.RcvWnd
