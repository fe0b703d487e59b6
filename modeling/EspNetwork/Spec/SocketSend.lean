import EspNetwork.Spec.TcpServer

/-!
# `socket_send` (`lwip-intro/sockets/tcp_server.c`)

The loop of `socket_send` alone, for a buffer of any length, against every sequence of
results of `send`. In the server its buffer has 128 bytes, see `Server.sent`.

`len` is a `size_t`, `to_write` and the result are 32-bit `int`s.
-/

namespace EspNetwork.Tcp

open CLib Lts

/-- A call of `send`. -/
structure SendCall where
  /-- where the bytes start, from `data` -/
  offset : ℤ
  count : ℤ
  result : Except Errno ℕ
deriving DecidableEq

structure Sending where
  toWrite : ℤ
  /-- what `socket_send` has returned -/
  ret : Option ℤ
  calls : List SendCall
deriving DecidableEq

namespace Sending

/-- `while (to_write > 0)`, and `return len` after it. -/
def loop (len : ℕ) (toWrite : ℤ) (calls : List SendCall) : Sending :=
  ⟨toWrite, if 0 < toWrite then none else some (toInt len), calls⟩

/-- `to_write -= written`. -/
def subtract (toWrite written : ℤ) : ℤ := (toWrite - written).bmod (2 ^ 32)

def step (len : ℕ) (s : Sending) (r : Except Errno ℕ) : Option Sending :=
  match s.ret with
  | some _ => none
  | none =>
    let calls := s.calls ++ [⟨len - s.toWrite, s.toWrite, r⟩]
    match r with
    -- `send` accepts something, and no more than it was asked to
    | .ok written =>
      if 1 ≤ written ∧ written ≤ s.toWrite then some (loop len (subtract s.toWrite written) calls) else none
    | .error errno =>
      if errno.soft then some (loop len (subtract s.toWrite (-1)) calls)
      else some { s with ret := some (-1), calls }

/-- `socket_send(.., data, len)`. -/
def machine (len : ℕ) : Machine Sending (Except Errno ℕ) := ⟨loop len (toInt len) [], step len⟩

end Sending

/-- The bytes of `data` a call sends. -/
def SendCall.bytes (data : Bytes) (c : SendCall) : Bytes :=
  match c.result with
  | .ok written => (data.drop c.offset.toNat).take written
  | .error _ => []

/-- All of them, in order. -/
def Sending.sent (data : Bytes) (s : Sending) : Bytes := s.calls.flatMap (SendCall.bytes data)

end EspNetwork.Tcp
