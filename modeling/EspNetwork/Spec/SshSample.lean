import EspNetwork.Lib.Machine
import EspNetwork.Spec.SshServer

/-!
# The sample SSH server (`libssh/tests/samplesshd-cb.c`)

`main` from `ssh_handle_key_exchange` on, with its callbacks. The server takes one
connection. A callback runs while a libssh call processes packets.

* `gssapi` says whether `WITH_GSSAPI` is defined.
* `ssh_channel_read` of `NULL` fails; a write that succeeds is complete, since the session
  blocks.
* `logins`, `disconnects`, `received`, `out` and `shown` are what has happened; the program
  does not look at them.
-/

namespace EspNetwork.Ssh.Sample

open CLib

def user : Bytes := bytes "myuser"

def password : Bytes := bytes "mypassword"

/-- `sizeof(buf)` of `main`. -/
def bufSize : ℕ := 2049

def carriageReturn : Byte := 0x0d

/-- The static variables. -/
structure Statics where
  authenticated : Bool
  tries : ℕ
  error : Bool
  /-- `chan != NULL` -/
  chan : Bool
deriving DecidableEq

/-- An authentication request that a callback answers. -/
inductive Login
  | password (user password : Bytes)
  | gssapiMic (principal : Bytes)
deriving DecidableEq

/-- The two `strcmp` of `auth_password`; `auth_gssapi_mic` takes every principal. -/
def Login.right : Login → Bool
  | .password u p => cstr u == user && cstr p == Sample.password
  | .gssapiMic _ => true

def Login.isGssapi : Login → Bool
  | .password _ _ => false
  | .gssapiMic _ => true

/-- `auth_none` -/
def authNone (v : Statics) (_user : Bytes) : Statics × Reply := (v, ⟨.denied, false⟩)

/-- `auth_password` and `auth_gssapi_mic`. -/
def auth (v : Statics) : Login → Statics × Reply
  | .password u p =>
    if (Login.password u p).right then ({ v with authenticated := true }, ⟨.success, false⟩)
    else if v.tries ≥ 3 then ({ v with error := true }, ⟨.denied, true⟩)
    else ({ v with tries := v.tries + 1 }, ⟨.denied, false⟩)
  | .gssapiMic _ => ({ v with authenticated := true }, ⟨.success, false⟩)

/-- `new_session_channel`; `created` if `ssh_channel_new` returns a channel. -/
def newSessionChannel (v : Statics) (created : Bool) : Statics :=
  if v.chan then v else { v with chan := created }

/-- Where `main` is. -/
inductive Pc
  /-- in `ssh_handle_key_exchange` -/
  | keyExchange
  /-- at `while (!(authenticated && chan != NULL))` -/
  | wait
  /-- in `ssh_event_dopoll` -/
  | dopoll
  /-- in `ssh_channel_read` -/
  | read
  /-- in `ssh_channel_write(chan, buf, i)` -/
  | write (piece : Bytes)
  /-- in `ssh_channel_write(chan, "\n", 1)` -/
  | writeNewline
  | returned (status : ℕ)
deriving DecidableEq

namespace Pc

/-- In a libssh call that processes packets. -/
def polling : Pc → Bool
  | .wait | .returned _ => false
  | _ => true

/-- In the loop that echoes. -/
def echoing : Pc → Bool
  | .read | .write _ | .writeNewline => true
  | _ => false

end Pc

structure State extends Statics where
  pc : Pc
  /-- in order -/
  logins : List Login
  /-- the calls of `ssh_disconnect` in `auth_password` -/
  disconnects : ℕ
  /-- what `ssh_channel_read` has returned, call by call -/
  received : List Bytes
  /-- what is written on the channel -/
  out : Bytes
  /-- what of the data is printed -/
  shown : Bytes
deriving DecidableEq

inductive Label
  /-- a step of the program itself -/
  | tau
  /-- the call at hand returns; `false` is an error -/
  | ret (ok : Bool)
  | authNone (user : Bytes)
  | auth (login : Login)
  | newSessionChannel (created : Bool)
  /-- `ssh_channel_read` returns these bytes, or not a positive number -/
  | data (piece : Bytes)
  /-- a write fails after `k` bytes -/
  | writeFails (k : ℕ)

/-- `"\n"` behind a piece that starts with a carriage return. -/
def newline (piece : Bytes) : Bytes := if piece.head? = some carriageReturn then bytes "\n" else []

/-- What a piece makes the server write. -/
def echoed (piece : Bytes) : Bytes := piece ++ newline piece

/-- What a piece makes it print: `printf("%s")` ends at the first NUL. -/
def printed (piece : Bytes) : Bytes := cstr piece ++ newline piece

namespace State

def init : State := ⟨⟨false, 0, false, false⟩, .keyExchange, [], 0, [], [], []⟩

/-- The bytes that the write at hand is given. -/
def pending (s : State) : Bytes :=
  match s.pc with
  | .write piece => piece
  | .writeNewline => bytes "\n"
  | _ => []

/-- The test of the wait loop. -/
def tau (s : State) : Option State :=
  if s.pc = .wait then
    if (s.authenticated && s.chan) || s.error then some { s with pc := .read } else some { s with pc := .dopoll }
  else none

/-- A call returns. -/
def ret (s : State) (ok : Bool) : Option State :=
  match s.pc with
  | .keyExchange => some { s with pc := if ok then .wait else .returned 1 }
  | .dopoll => some { s with pc := if ok then .wait else .returned 1 }
  | .write piece =>
    if ok then
      some { s with
        out := s.out ++ piece
        shown := s.shown ++ cstr piece
        pc := if piece.head? = some carriageReturn then .writeNewline else .read }
    else none
  | .writeNewline =>
    if ok then some { s with out := s.out ++ bytes "\n", shown := s.shown ++ bytes "\n", pc := .read } else none
  | _ => none

/-- `ssh_channel_read` returns. -/
def data (s : State) (piece : Bytes) : Option State :=
  if s.pc = .read then
    if piece = [] then some { s with pc := .returned 0 }
    else if s.chan ∧ piece.length ≤ bufSize - 1 then
      some { s with received := s.received ++ [piece], pc := .write piece }
    else none
  else none

/-- A write fails. -/
def writeFails (s : State) (k : ℕ) : Option State :=
  if s.pending ≠ [] ∧ k < s.pending.length then
    some { s with out := s.out ++ s.pending.take k, pc := .returned 1 }
  else none

/-- A callback answers an authentication request. -/
def login (s : State) (l : Login) : State :=
  let (v, r) := Sample.auth s.toStatics l
  { s with toStatics := v, logins := s.logins ++ [l], disconnects := s.disconnects + if r.disconnect then 1 else 0 }

def step (gssapi : Bool) (s : State) : Label → Option State
  | .tau => s.tau
  | .ret ok => s.ret ok
  | .authNone u => if s.pc.polling then some { s with toStatics := (Sample.authNone s.toStatics u).1 } else none
  | .auth l => if s.pc.polling ∧ (l.isGssapi → gssapi) then some (s.login l) else none
  | .newSessionChannel created =>
    if s.pc.polling then some { s with toStatics := Sample.newSessionChannel s.toStatics created } else none
  | .data piece => s.data piece
  | .writeFails k => s.writeFails k

def machine (gssapi : Bool) : Lts.Machine State Label := ⟨init, step gssapi⟩

/-- libssh opens a channel only for a session that has been authenticated. -/
def Libssh (s : State) : Label → Prop
  | .newSessionChannel _ => ∃ l ∈ s.logins, l.right = true
  | _ => True

end State

end EspNetwork.Ssh.Sample
