import EspNetwork.Lib.Bytes
import EspNetwork.Lib.Handles
import EspNetwork.Lib.Machine

/-!
# The example socket clients

* `Client`: the clients of `lwip-intro/sockets` and `lwip_output_hooks/tcp_client/main`, which
  send a payload and print what comes back, in a loop. They differ in the calls before
  `connect`, and in whether the outer loop goes on after a connection.
* `AsyncConnect`: `tcp_async_connect` (`lwip-intro/sockets/tcp_client.c`), which closes the
  socket while `non_block_sock_thread` works on it.
* `tcpBindTest`: `tcp_bind_test` of socket_examples.c.

The system calls are recorded in `log`, newest first. `socket` returns a descriptor that is
not open. Of the log lines those with what was received are kept.
-/

namespace EspNetwork.SocketClient

open CLib Lts Handle

def payload : Bytes := bytes "Message from ESP32 "

/-! ## Sending and receiving in turn -/

/-- What the clients differ in. -/
structure Client where
  /-- the outer loop goes on after a connection -/
  again : Bool
  /-- the calls before `connect` whose failure leaves the loop; `true`: it is on the socket -/
  checks : List Bool
deriving DecidableEq, Repr

/-- `tcp_client_task` of tcp_client.c. -/
def tcpClientTask : Client := ⟨true, []⟩

/-- `tcp_client_task` of socket_examples.c, where `run` is cleared. -/
def exampleClientTask : Client := ⟨false, []⟩

/-- `tcp_client` of tcp_client_v4.c. -/
def tcpClientV4 : Client := ⟨true, []⟩

/-- `tcp_client` of tcp_client_v6.c, with `esp_netif_find_if`. -/
def tcpClientV6 : Client := ⟨true, [false]⟩

/-- The same on Linux, with `get_src_iface` and `ioctl`. -/
def tcpClientV6Linux : Client := ⟨true, [false, true]⟩

/-- The next call. -/
inductive Pc
  | socket
  /-- the checks left, then `connect` -/
  | opened (sock : ℕ) (checks : List Bool)
  | send (sock : ℕ)
  | recv (sock : ℕ)
  | returned
deriving DecidableEq, Repr

/-- A call and its result; `none` is a failure. -/
inductive Call
  | socket (r : Option ℕ)
  | check (ok : Bool)
  | connect (ok : Bool)
  /-- the number of bytes that `send` accepts -/
  | send (r : Option ℕ)
  /-- the bytes received, none at the end of the stream -/
  | recv (r : Option Bytes)
deriving DecidableEq

/-- `sent` and `received`, of the current connection, are not part of the programs. -/
structure State where
  pc : Pc
  rxBuffer : Arr 128
  printed : List Bytes
  sent : Bytes
  received : Bytes
  log : List (Event ℕ)
deriving DecidableEq

namespace State

/-- "Shutting down socket and restarting..." -/
def disconnect (s : State) (c : Client) (sock : ℕ) : State :=
  { s with pc := if c.again then .socket else .returned, log := .release sock :: .use sock :: s.log }

/-- `rx_buffer[len] = 0` after `recv`, and the line with the text. -/
def print (s : State) (bs : Bytes) : Option State := do
  let rxBuffer ← s.rxBuffer.store 0 bs
  let rxBuffer ← rxBuffer.store bs.length [0]
  return { s with rxBuffer, printed := s.printed ++ [cstr rxBuffer.data], received := s.received ++ bs }

def step (c : Client) (s : State) : Call → Option State
  | .socket r =>
    match s.pc, r with
    | .socket, some sock =>
      if sock ∈ live s.log then none
      else some { s with pc := .opened sock c.checks, sent := [], received := [], log := .acquire sock :: s.log }
    | .socket, none => some { s with pc := .returned }
    | _, _ => none
  | .check ok =>
    match s.pc with
    | .opened sock (onSocket :: checks) =>
      let log := if onSocket then .use sock :: s.log else s.log
      some { s with pc := if ok then .opened sock checks else .returned, log }
    | _ => none
  | .connect ok =>
    match s.pc with
    | .opened sock [] => some { s with pc := if ok then .send sock else .returned, log := .use sock :: s.log }
    | _ => none
  | .send r =>
    match s.pc with
    | .send sock =>
      let s := { s with log := .use sock :: s.log }
      match r with
      | none => some (s.disconnect c sock)
      | some n =>
        if n ≤ payload.length then some { s with pc := .recv sock, sent := s.sent ++ payload.take n } else none
    | _ => none
  | .recv r =>
    match s.pc with
    | .recv sock =>
      let s := { s with log := .use sock :: s.log }
      match r with
      | none => some (s.disconnect c sock)
      -- `sizeof(rx_buffer) - 1`
      | some bs => if bs.length ≤ 127 then { s with pc := .send sock }.print bs else none
    | _ => none

/-- A client, from whatever `rx_buffer` holds. -/
def machine (c : Client) (rx : Arr 128) : Machine State Call := ⟨⟨.socket, rx, [], [], [], []⟩, step c⟩

end State

/-! ## Closing under a thread -/

/-- The call that `non_block_sock_thread` is in. -/
inductive Thread
  | getFlags
  | setFlags
  | connect
  | selectConnect
  | connectError
  | recv
  | selectRecv
  /-- the second `recv`, with the socket in `fdset` -/
  | recvReady
  | recvError
  | returned
deriving DecidableEq, Repr

/-- Where `tcp_async_connect` is, behind `pthread_create`. -/
inductive Main
  /-- before `close` -/
  | sleep
  | join
  | returned
deriving DecidableEq, Repr

/-- The end of a call of the thread, or a step of the main thread. -/
inductive Action
  /-- a negative result, with an `errno` that is not tested for -/
  | failed
  /-- a negative result with `EINPROGRESS`, or with `EAGAIN` from `recv` -/
  | pending
  /-- `select` returns 0 -/
  | timeout
  /-- a result that is not negative; from `getsockopt` with no error on the socket -/
  | ok
  /-- `getsockopt` with an error on the socket -/
  | sockerr
  /-- `select` with the socket in the set, or in the error set alone -/
  | ready (inSet : Bool)
  | data (bs : Bytes)
  /-- `close` by the main thread -/
  | close
  | join
deriving DecidableEq

structure AsyncConnect where
  thread : Thread
  main : Main
  rxBuffer : Arr 128
  printed : List Bytes
  log : List (Event ℕ)
deriving DecidableEq

/-- The call that follows, or the end of `non_block_sock_thread`. -/
def Thread.next : Thread → Action → Option Thread
  | .getFlags, .ok => some .setFlags
  | .setFlags, .ok => some .connect
  | .connect, .ok => some .recv
  | .connect, .pending => some .selectConnect
  | .selectConnect, .ready _ => some .connectError
  | .selectConnect, .timeout => some .returned
  | .connectError, .ok => some .recv
  | .connectError, .sockerr => some .returned
  | .recv, .pending => some .selectRecv
  -- a first `recv` that returns data takes the branch of an error
  | .recv, .data _ => some .returned
  | .selectRecv, .ready inSet => some (if inSet then .recvReady else .recvError)
  | .selectRecv, .timeout => some .returned
  -- "recv failed", and on to `getsockopt`
  | .recvReady, .failed | .recvReady, .pending | .recvReady, .data _ => some .recvError
  | .recvError, .ok | .recvError, .sockerr => some .returned
  | .returned, _ => none
  | _, .failed => some .returned
  | _, _ => none

namespace AsyncConnect

/-- The thread enters its next call on the socket, or returns. -/
def enter (s : AsyncConnect) (fd : ℕ) (pc : Thread) : AsyncConnect :=
  { s with thread := pc, log := if pc = .returned then s.log else .use fd :: s.log }

/-- `rx_buffer[ret] = 0` after the second `recv`, and the line with the text. -/
def print (s : AsyncConnect) (bs : Bytes) : Option AsyncConnect := do
  let rxBuffer ← s.rxBuffer.store 0 bs
  let rxBuffer ← rxBuffer.store bs.length [0]
  return { s with rxBuffer, printed := s.printed ++ [cstr rxBuffer.data] }

def step (fd : ℕ) (s : AsyncConnect) : Action → Option AsyncConnect
  | .close => if s.main = .sleep then some { s with main := .join, log := .release fd :: s.log } else none
  | .join => if s.main = .join ∧ s.thread = .returned then some { s with main := .returned } else none
  | .data bs =>
    -- `sizeof(rx_buffer) - 1`
    if bs.length ≤ 127 then do
      let pc ← s.thread.next (.data bs)
      let s ← if s.thread = .recvReady then s.print bs else some s
      return s.enter fd pc
    else none
  | a => (s.thread.next a).map (s.enter fd)

/-- Both threads, once the socket is there and the thread is created. -/
def machine (fd : ℕ) (rx : Arr 128) : Machine AsyncConnect Action :=
  ⟨⟨.getFlags, .sleep, rx, [], [.use fd, .acquire fd]⟩, step fd⟩

end AsyncConnect

/-! ## Binding many sockets -/

/-- `sock_array`, and how far it is filled. -/
structure BindTest where
  sockArray : List ℤ
  i : ℕ
  log : List (Event ℤ)
deriving DecidableEq

namespace BindTest

/-- The first loop, with the results of `socket` and `bind` in each iteration. -/
def bindLoop (s : BindTest) : List (Option ℕ × Bool) → BindTest
  | [] => s
  | (none, _) :: _ => s
  | (some sock, false) :: _ => { s with log := .use sock :: .acquire sock :: s.log }
  | (some sock, true) :: rs =>
    bindLoop { s with sockArray := s.sockArray.set s.i sock, i := s.i + 1, log := .use sock :: .acquire sock :: s.log } rs

/-- The second loop, over the first `n` entries. -/
def closeLoop (s : BindTest) (n : ℕ) : BindTest :=
  { s with log := releaseAll s.log (s.sockArray.take n) }

end BindTest

/-- `tcp_bind_test`, from whatever `sock_array` holds. -/
def tcpBindTest (sockArray : List ℤ) (rs : List (Option ℕ × Bool)) : BindTest :=
  ((⟨sockArray, 0, []⟩ : BindTest).bindLoop (rs.take 100)).closeLoop 100

end EspNetwork.SocketClient
