import EspNetwork.Lib.Bytes

/-!
# The data callback of the SSH server

`data_function` of the libssh server and the channel it is called for. libssh's side is
its contract: `ssh_channel_write` returns how many bytes it has written or `SSH_ERROR`;
the bytes that the callback has not consumed are presented again, in front of the next
data.
-/

namespace EspNetwork.Ssh

open CLib

def sshOk : ℤ := 0

def sshError : ℤ := -1

/-- What the `k`-th `ssh_channel_write` of a callback returns for the bytes it is given. -/
abbrev Write := ℕ → Bytes → ℤ

/-- Every write succeeds completely. -/
def fullWrite : Write := fun _ bs => bs.length

/-- The bytes on the channel after a write that has returned `r`. -/
def written (bs : Bytes) (r : ℤ) : Bytes := bs.take r.toNat

structure Channel where
  /-- the session that it was created for -/
  session : ℕ
  /-- arrived and not consumed by the callback -/
  buffer : Bytes
  /-- written by the server -/
  out : Bytes
deriving DecidableEq

/-- `"Received: "`. -/
def received : Bytes := bytes "Received: "

/-- `"\n$ "`. -/
def prompt : Bytes := bytes "\n$ "

/-- `data_function`: the bytes that it writes, and its return value. A null pointer is `none`. -/
def dataFunction (write : Write) : Option Channel → Option Bytes → Bytes × ℤ
  | some _, some data =>
    let rc := write 0 received
    if rc ≠ sshOk then (written received rc, sshError)
    else
      let rc' := write 1 data
      if rc' ≠ sshOk then (written received rc ++ written data rc', sshError)
      else
        let rc'' := write 2 prompt
        let out := written received rc ++ written data rc' ++ written prompt rc''
        if rc'' ≠ sshOk then (out, sshError) else (out, sshOk)
  | _, _ => ([], sshError)

namespace Channel

/-- What `ssh_channel_new` returns. -/
def new (session : ℕ) : Channel := ⟨session, [], []⟩

/-- libssh presents what is not consumed yet and a chunk that has arrived. -/
def deliver (c : Channel) (write : Write) (chunk : Bytes) : Channel :=
  let data := c.buffer ++ chunk
  let (bs, rc) := dataFunction write (some c) (some data)
  { c with buffer := data.drop rc.toNat, out := c.out ++ bs }

/-- The channel after chunks have arrived in order, each with what its writes return. -/
def deliverAll (c : Channel) (ds : List (Write × Bytes)) : Channel :=
  ds.foldl (fun c d => c.deliver d.1 d.2) c

/-- The channel after chunks have arrived and every write has succeeded completely. -/
def echo (c : Channel) (chunks : List Bytes) : Channel := c.deliverAll (chunks.map (fullWrite, ·))

end Channel

/-- The reply to a chunk. -/
def reply (chunk : Bytes) : Bytes := received ++ chunk ++ prompt

end EspNetwork.Ssh
