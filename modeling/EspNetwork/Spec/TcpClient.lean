import EspNetwork.Lib.Machine

/-!
# The reconnecting TCP client (`devcon22/demo_3_sockets/main/tcp_client.c`)

`tcp_client_task`, call by call, and `eth_event_handler`, which runs between any two
of its calls. `disconnect_fd` is an eventfd: a write adds to its counter, `select`
reports it readable while the counter is not zero, and only a read would reset it.
The two counts `disconnects` and `abandoned` are not part of the program.
-/

namespace EspNetwork.TcpClient

open Lts

/-- `event_id` of `eth_event_handler`. -/
inductive EthEvent
  | connected
  | disconnected
  | start
  | stop
  | other
deriving DecidableEq, Repr

/-- The result of `connect`. -/
inductive Connect
  | ok
  | inProgress
  | failed
deriving DecidableEq, Repr

/-- The result of `select`. -/
inductive Select
  | error
  | timeout
  /-- a positive result; `writable` says whether the socket is in `fdset` -/
  | ready (writable : Bool)
deriving DecidableEq, Repr

/-- The next call of `tcp_client_task`, on the socket of the current attempt. -/
inductive Pc
  | socket
  | fcntl (sock : ℕ)
  | connect (sock : ℕ)
  | select (sock : ℕ)
  | getsockopt (sock : ℕ)
  /-- "Successfully connected" -/
  | send (sock : ℕ)
  /-- out of the loop: `vTaskDelete(NULL)` -/
  | deleted
deriving DecidableEq, Repr

structure State where
  pc : Pc
  /-- the counter of the eventfd `disconnect_fd` -/
  disconnectFd : ℕ
  /-- `ETHERNET_EVENT_DISCONNECTED` events so far -/
  disconnects : ℕ
  /-- attempts given up with "Disconnected! exiting..." -/
  abandoned : ℕ
deriving DecidableEq, Repr

inductive Action
  | event (e : EthEvent)
  /-- `socket` returns a descriptor or -1 -/
  | socket (sock : Option ℕ)
  /-- both `fcntl` calls succeed, or one fails -/
  | fcntl (ok : Bool)
  | connect (r : Connect)
  | select (r : Select)
  /-- `getsockopt(SO_ERROR)` returns `sockerr` or fails -/
  | getsockopt (sockerr : Option ℤ)
  | send (ok : Bool)
deriving DecidableEq, Repr

namespace State

/-- `eth_event_handler`: a lost link writes `signal = 1` to the eventfd. -/
def ethEventHandler (s : State) : EthEvent → State
  | .disconnected => { s with disconnectFd := s.disconnectFd + 1, disconnects := s.disconnects + 1 }
  | _ => s

/-- What follows `select`, with its result. -/
def afterSelect (s : State) (sock : ℕ) : Select → Option State
  | .error => some { s with pc := .deleted }
  -- a readable eventfd does not let `select` time out
  | .timeout => if s.disconnectFd = 0 then some { s with pc := .deleted } else none
  | .ready writable =>
    -- `FD_ISSET(disconnect_fd, &readfds)`
    if s.disconnectFd ≠ 0 then some { s with pc := .socket, abandoned := s.abandoned + 1 }
    else if writable then some { s with pc := .getsockopt sock }
    else none

def step (s : State) : Action → Option State
  | .event e => some (s.ethEventHandler e)
  | .socket r =>
    match s.pc, r with
    | .socket, some sock => some { s with pc := .fcntl sock }
    | .socket, none => some { s with pc := .deleted }
    | _, _ => none
  | .fcntl ok =>
    match s.pc with
    | .fcntl sock => some { s with pc := if ok then .connect sock else .deleted }
    | _ => none
  | .connect r =>
    match s.pc with
    | .connect sock =>
      match r with
      | .ok => some { s with pc := .send sock }
      | .inProgress => some { s with pc := .select sock }
      | .failed => some { s with pc := .deleted }
    | _ => none
  | .select r =>
    match s.pc with
    | .select sock => s.afterSelect sock r
    | _ => none
  | .getsockopt sockerr =>
    match s.pc with
    | .getsockopt sock => some { s with pc := if sockerr = some 0 then .send sock else .deleted }
    | _ => none
  | .send ok =>
    match s.pc with
    -- after the first `send` the socket is closed and the loop starts over
    | .send _ => some { s with pc := if ok then .socket else .deleted }
    | _ => none

/-- The task and the event handler, from the creation of the task. -/
def machine : Machine State Action := ⟨⟨.socket, 0, 0, 0⟩, step⟩

end State

end EspNetwork.TcpClient
