import EspNetwork.Lib.Machine
import EspNetwork.Spec.SshChannel

/-!
# The SSH server

`app_main` of the libssh server with its `auth_none`, `auth_password` and `channel_open`
callbacks, as a machine. The environment chooses what the checked libssh calls return,
and which callbacks fire while `ssh_handle_key_exchange` or `ssh_event_dopoll` processes
packets.

* The static variables live as long as the program; `session` and `conns` say to which
  connection a channel and an attempt belong.
* A counter is a natural number.
-/

namespace EspNetwork.Ssh

open CLib

inductive AuthResult
  | success
  | denied
deriving DecidableEq, Repr

def defaultUsername : Bytes := bytes "testuser"

def defaultPassword : Bytes := bytes "testpass"

/-- The two `strcmp` of `auth_password`. -/
def credentials (user password : Bytes) : Bool :=
  cstr user == defaultUsername && cstr password == defaultPassword

/-- The static variables. -/
structure Statics where
  /-- 0 or 1 -/
  authenticated : Bool
  tries : ℕ
  channel : Option Channel
deriving DecidableEq

/-- What an authentication callback returns, and whether it has called `ssh_disconnect`. -/
structure Reply where
  result : AuthResult
  disconnect : Bool
deriving DecidableEq, Repr

/-- `auth_none` denies every user. -/
def authNone (v : Statics) (_user : Bytes) : Statics × Reply := (v, ⟨.denied, false⟩)

/-- `auth_password`. The credentials are looked at before the counter is. -/
def authPassword (v : Statics) (user password : Bytes) : Statics × Reply :=
  if credentials user password then ({ v with authenticated := true }, ⟨.success, false⟩)
  else
    let v' := { v with tries := v.tries + 1 }
    if v'.tries ≥ 3 then (v', ⟨.denied, true⟩) else (v', ⟨.denied, false⟩)

/-- `channel_open`, with the channel that it returns; `created` if `ssh_channel_new`
returns one, which is not checked. -/
def channelOpen (v : Statics) (session : ℕ) (created : Bool) : Statics × Option Channel :=
  match v.channel with
  | some _ => (v, none)
  | none =>
    let channel := if created then some (.new session) else none
    ({ v with channel := channel }, channel)

/-- A call of `auth_password`, with `authenticated` before and after it. -/
structure Attempt where
  user : Bytes
  password : Bytes
  reply : Reply
  before : Bool
  after : Bool
deriving DecidableEq

namespace Attempt

def success (a : Attempt) : Bool := a.reply.result == .success

def failed (a : Attempt) : Bool := a.reply.result == .denied

/-- The right user name and password. -/
def right (a : Attempt) : Bool := credentials a.user a.password

end Attempt

/-- Where `app_main` is. -/
inductive Pc
  | bindNew
  | bindListen
  /-- at the top of `while (1)` -/
  | sshNew
  | bindAccept
  /-- a connection has just been accepted -/
  | accepted
  /-- in `ssh_handle_key_exchange` -/
  | keyExchange
  | eventNew
  | addSession
  /-- at the test of the wait loop -/
  | wait (n : ℕ)
  /-- in `ssh_event_dopoll(event, 100)` -/
  | waitPoll (n : ℕ)
  /-- at `while (ssh_channel_is_open(channel))` -/
  | serve
  /-- in `ssh_event_dopoll(event, 1000)` -/
  | servePoll
  /-- at `Connection closed` -/
  | cleanup
  | stopped
deriving DecidableEq, Repr

namespace Pc

/-- In a libssh call that processes packets. -/
def polling : Pc → Bool
  | .keyExchange | .waitPoll _ | .servePoll => true
  | _ => false

/-- At a call whose failure leaves the connection by an early `continue`. -/
def early : Pc → Bool
  | .keyExchange | .eventNew | .addSession => true
  | _ => false

/-- In the serving loop. -/
def serving : Pc → Bool
  | .serve | .servePoll => true
  | _ => false

end Pc

structure State extends Statics where
  pc : Pc
  /-- the number of the current session -/
  session : ℕ
  /-- the attempts of each connection in order, the latest connection first -/
  conns : List (List Attempt)
deriving DecidableEq

inductive Label
  /-- a step of the server itself -/
  | tau
  /-- a checked libssh call returns; `false` is `NULL`, an error, or a channel that is not open -/
  | ret (ok : Bool)
  | authNone (user : Bytes)
  | authPassword (user password : Bytes)
  | channelOpen (created : Bool)
  | data (write : Write) (chunk : Bytes)

namespace State

def init : State := ⟨⟨false, 0, none⟩, .bindNew, 0, []⟩

/-- The attempts of the current connection. -/
def attempts (s : State) : List Attempt := s.conns.headD []

/-- Past the wait loop: `if (channel != NULL)`. -/
def afterWait (s : State) : Pc := if s.channel.isSome then .serve else .cleanup

/-- Control flow, and the clean-up at the end of a connection. -/
def tau (s : State) : Option State :=
  match s.pc with
  | .accepted => some { s with pc := .keyExchange }
  | .wait n =>
    if s.authenticated = false ∨ s.channel = none then
      if s.tries ≥ 3 ∨ n ≥ 100 then some { s with pc := s.afterWait }
      else some { s with pc := .waitPoll n }
    else some { s with pc := s.afterWait }
  | .cleanup => some { s with pc := .sshNew, channel := none, authenticated := false, tries := 0 }
  | _ => none

/-- A libssh call returns. -/
def ret (s : State) (ok : Bool) : Option State :=
  match s.pc with
  | .bindNew => some { s with pc := if ok then .bindListen else .stopped }
  | .bindListen => some { s with pc := if ok then .sshNew else .stopped }
  | .sshNew => some (if ok then { s with pc := .bindAccept, session := s.session + 1 } else s)
  | .bindAccept =>
    some (if ok then { s with pc := .accepted, conns := [] :: s.conns } else { s with pc := .sshNew })
  -- these three leave by `continue`, past the clean-up
  | .keyExchange => some { s with pc := if ok then .eventNew else .sshNew }
  | .eventNew => some { s with pc := if ok then .addSession else .sshNew }
  | .addSession => some { s with pc := if ok then .wait 0 else .sshNew }
  | .waitPoll n => some { s with pc := if ok then .wait (n + 1) else s.afterWait }
  | .serve => some { s with pc := if ok then .servePoll else .cleanup }
  | .servePoll => some { s with pc := if ok then .serve else .cleanup }
  | _ => none

/-- A call of `auth_password`, recorded with the current connection. -/
def attempt (s : State) (user password : Bytes) : State :=
  let (v, r) := authPassword s.toStatics user password
  { s with toStatics := v
           conns := s.conns.modifyHead (· ++ [⟨user, password, r, s.authenticated, v.authenticated⟩]) }

/-- Data for a channel of the current session. -/
def data (s : State) (write : Write) (chunk : Bytes) : Option State :=
  match s.channel with
  | some c =>
    if c.session = s.session then some { s with channel := some (c.deliver write chunk) } else none
  | none => none

def step (s : State) : Label → Option State
  | .tau => s.tau
  | .ret ok => s.ret ok
  | .authNone user => if s.pc.polling then some { s with toStatics := (Ssh.authNone s.toStatics user).1 } else none
  | .authPassword user password => if s.pc.polling then some (s.attempt user password) else none
  | .channelOpen created =>
    if s.pc.polling then some { s with toStatics := (Ssh.channelOpen s.toStatics s.session created).1 } else none
  | .data write chunk => if s.pc.polling then s.data write chunk else none

def machine : Lts.Machine State Label := ⟨init, step⟩

/-- libssh opens a channel only for a session that has been authenticated. -/
def Libssh (s : State) : Label → Prop
  | .channelOpen _ => ∃ a ∈ s.attempts, a.success = true
  | _ => True

/-- No connection with an attempt is left by an early `continue`. -/
def NoEarlyExit (s : State) : Label → Prop
  | .ret false => s.pc.early = true → s.attempts = []
  | _ => True

/-- No session's state. -/
def Clean (s : State) : Prop := s.authenticated = false ∧ s.tries = 0 ∧ s.channel = none

end State

end EspNetwork.Ssh
