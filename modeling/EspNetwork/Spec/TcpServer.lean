import EspNetwork.Lib.Bytes
import EspNetwork.Lib.Handles
import EspNetwork.Lib.Machine

/-!
# The non-blocking TCP server

`tcp_server_task` of tcp_server.c from the main loop on, with `try_receive` and
`socket_send`, as a machine that makes one system call at a time. The results of
`accept`, `fcntl`, `recv` and `send` are chosen by the environment; every call is
recorded in `log`, newest first.

* `INVALID_SOCK` is `none` in the table.
* `EWOULDBLOCK` and `EAGAIN` are one error number, as on Linux and in lwIP.
-/

namespace EspNetwork.Tcp

open CLib

/-- The values of `errno` that the code tells apart. -/
inductive Errno
  /-- also `EWOULDBLOCK` -/
  | eagain
  | einprogress
  | enotconn
  | other (code : ℕ)
deriving DecidableEq, Repr

/-- `EINPROGRESS`, `EAGAIN` and `EWOULDBLOCK`. -/
def Errno.soft : Errno → Bool
  | .eagain | .einprogress => true
  | .enotconn | .other _ => false

/-- The system calls made, with their results. -/
inductive Call
  | accept (r : Except Errno ℕ)
  | fcntl (sock : ℕ) (ok : Bool)
  | recv (sock : ℕ) (r : Except Errno Bytes)
  /-- a `send` of `count` bytes at `rx_buffer + offset`, with the bytes accepted -/
  | send (sock : ℕ) (offset count : ℤ) (r : Except Errno Bytes)
  | close (sock : ℕ)
  | usleep
deriving DecidableEq

/-- Where the task is. -/
inductive Pc
  /-- at the top of `while (1)` -/
  | head
  /-- at `accept`, with `new_sock_index` -/
  | accept (index : ℕ)
  /-- at the `fcntl` calls -/
  | fcntl (index : ℕ)
  /-- in the service loop, at `sock[i]` -/
  | serve (i : ℕ)
  /-- in `socket_send(.., len)` for `sock[i]` -/
  | send (i len : ℕ) (toWrite : ℤ)
  /-- at the `close` of `sock[i]` in the service loop -/
  | close (i : ℕ)
  /-- at the label `error` -/
  | error
  /-- in the loop after `error`, at `sock[i]` -/
  | sweep (i : ℕ)
  | done
deriving DecidableEq, Repr

structure Server where
  sock : List (Option ℕ)
  listenSock : ℕ
  rxBuffer : Arr 128
  pc : Pc
  log : List Call
deriving DecidableEq

inductive Label
  /-- a step whose outcome the environment does not choose -/
  | tau
  | accept (r : Except Errno ℕ)
  /-- the result of `F_SETFL`; that of `F_GETFL` is only passed on -/
  | fcntl (ok : Bool)
  | recv (r : Except Errno Bytes)
  | send (r : Except Errno ℕ)
deriving DecidableEq

/-- `try_receive`, from the result of `recv`. -/
def tryReceive : Except Errno Bytes → ℤ
  | .ok data => data.length
  | .error e => if e.soft then 0 else if e = .enotconn then -2 else -1

/-- The test `to_write > 0` of `socket_send`. -/
def sendLoop (i len : ℕ) (toWrite : ℤ) : Pc := if 0 < toWrite then .send i len toWrite else .serve (i + 1)

namespace Server

/-- The loop's state once `listen` has succeeded. -/
def init (maxSocks listenSock : ℕ) : Server :=
  ⟨List.replicate maxSocks none, listenSock, Arr.zeros 128, .head, []⟩

/-- Control flow, and the calls whose result is not looked at. -/
def tau (s : Server) : Option Server :=
  match s.pc with
  | .head =>
    match s.sock.findIdx? (·.isNone) with
    | some k => some { s with pc := .accept k }
    | none => some { s with pc := .serve 0 }
  | .serve i =>
    match s.sock[i]? with
    | none => some { s with pc := .head, log := .usleep :: s.log }
    | some none => some { s with pc := .serve (i + 1) }
    | some (some _) => none
  | .close i =>
    match s.sock[i]? with
    | some (some fd) => some { s with pc := .serve (i + 1), sock := s.sock.set i none, log := .close fd :: s.log }
    | _ => none
  | .error => some { s with pc := .sweep 0, log := .close s.listenSock :: s.log }
  | .sweep i =>
    match s.sock[i]? with
    | none => some { s with pc := .done }
    | some none => some { s with pc := .sweep (i + 1) }
    | some (some fd) => some { s with pc := .sweep (i + 1), log := .close fd :: s.log }
  | _ => none

/-- `sock[new_sock_index] = accept(..)`: the slot is written before the result is checked. -/
def accept (s : Server) (k : ℕ) (r : Except Errno ℕ) : Server :=
  match r with
  | .ok fd => { s with sock := s.sock.set k (some fd), pc := .fcntl k, log := .accept r :: s.log }
  | .error e =>
    { s with sock := s.sock.set k none, pc := if e = .eagain then .serve 0 else .error, log := .accept r :: s.log }

/-- What `recv` leaves in `rx_buffer`; it stores at most `sizeof(rx_buffer)` bytes. -/
def rxStore (rx : Arr 128) : Except Errno Bytes → Option (Arr 128)
  | .ok data => rx.store 0 data
  | .error _ => some rx

/-- The service of `sock[i]` after its `recv` has returned. -/
def received (s : Server) (i fd : ℕ) (r : Except Errno Bytes) : Option Server :=
  let len := tryReceive r
  (rxStore s.rxBuffer r).map fun rx =>
    { s with rxBuffer := rx
             pc := if len < 0 then .close i else if 0 < len then sendLoop i len.toNat len else .serve (i + 1)
             log := .recv fd r :: s.log }

/-- One turn of the loop of `socket_send`. To send from before the buffer is undefined. -/
def sent (s : Server) (i fd len : ℕ) (toWrite : ℤ) (r : Except Errno ℕ) : Option Server :=
  let offset := len - toWrite
  if 0 ≤ offset then
    match r with
    | .ok k =>
      if k ≤ toWrite then
        some { s with pc := sendLoop i len (toWrite - k)
                      log := .send fd offset toWrite (.ok ((s.rxBuffer.data.drop offset.toNat).take k)) :: s.log }
      else none
    | .error e =>
      some { s with pc := if e.soft then sendLoop i len (toWrite - (-1)) else .close i
                    log := .send fd offset toWrite (.error e) :: s.log }
  else none

def step (s : Server) : Label → Option Server
  | .tau => s.tau
  | .accept r =>
    match s.pc with
    | .accept k => some (s.accept k r)
    | _ => none
  | .fcntl ok =>
    match s.pc with
    | .fcntl k =>
      match s.sock[k]? with
      | some (some fd) => some { s with pc := if ok then .serve 0 else .error, log := .fcntl fd ok :: s.log }
      | _ => none
    | _ => none
  | .recv r =>
    match s.pc with
    | .serve i =>
      match s.sock[i]? with
      | some (some fd) => s.received i fd r
      | _ => none
    | _ => none
  | .send r =>
    match s.pc with
    | .send i len toWrite =>
      match s.sock[i]? with
      | some (some fd) => s.sent i fd len toWrite r
      | _ => none
    | _ => none

/-- `tcp_server_task` with `max_socks` slots. -/
def machine (maxSocks listenSock : ℕ) : Lts.Machine Server Label := ⟨init maxSocks listenSock, step⟩

/-! ## Reading the log -/

/-- A call on a client's descriptor as an operation on a handle. -/
def event (listenSock : ℕ) : Call → Option (Handle.Event ℕ)
  | .accept (.ok fd) => some (.acquire fd)
  | .recv fd _ => some (.use fd)
  | .send fd _ _ _ => some (.use fd)
  | .close fd => if fd = listenSock then none else some (.release fd)
  | _ => none

def events (s : Server) : List (Handle.Event ℕ) := s.log.filterMap (event s.listenSock)

/-- The accepted descriptors that have not been closed. -/
def openSocks (s : Server) : List ℕ := Handle.live s.events

end Server

/-- What the current service step has received, on which descriptor, and sent back. -/
def echoing : List Call → Option (ℕ × Bytes × Bytes)
  | .recv fd (.ok data) :: _ => some (fd, data, [])
  | .send _ _ _ (.ok bs) :: log => (echoing log).map fun (fd, data, back) => (fd, data, back ++ bs)
  | .send _ _ _ (.error _) :: log => echoing log
  | _ => none

/-- Every byte sent continues what the same service step has received on the same descriptor. -/
def Echoes : List Call → Prop
  | [] => True
  | .send fd _ _ (.ok bs) :: log =>
    Echoes log ∧ ∃ data back, echoing log = some (fd, data, back) ∧ back ++ bs <+: data
  | _ :: log => Echoes log

/-- `accept` returns no descriptor that is open. -/
def NewSock (s : Server) : Label → Prop
  | .accept (.ok fd) => fd ≠ s.listenSock ∧ fd ∉ s.openSocks
  | _ => True

/-- `accept` returns no descriptor that is open, and `send` accepts 1 to `count` bytes or
fails with a hard error. -/
def Env (s : Server) : Label → Prop
  | .accept (.ok fd) => fd ≠ s.listenSock ∧ fd ∉ s.openSocks
  | .send (.ok k) => 1 ≤ k
  | .send (.error e) => e.soft = false
  | _ => True

instance (s : Server) : ∀ l, Decidable (NewSock s l)
  | .accept (.ok _) => inferInstanceAs (Decidable (_ ∧ _))
  | .tau | .accept (.error _) | .fcntl _ | .recv _ | .send _ => isTrue trivial

instance (s : Server) : ∀ l, Decidable (Env s l)
  | .accept (.ok _) => inferInstanceAs (Decidable (_ ∧ _))
  | .send (.ok k) => inferInstanceAs (Decidable (1 ≤ k))
  | .send (.error e) => inferInstanceAs (Decidable (e.soft = false))
  | .tau | .accept (.error _) | .fcntl _ | .recv _ => isTrue trivial

end EspNetwork.Tcp
