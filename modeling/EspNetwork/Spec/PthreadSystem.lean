import EspNetwork.Lib.Handles
import EspNetwork.Spec.PthreadServer

/-!
# The pthread server

`async_server` of async_server_pthread.c from its `accept` loop on, with all its detached
threads: any thread may take the next step. Operations on `file_data`, on the clients'
descriptors and on the `client_args_t` of each thread are recorded in `log`, newest
first.

* `malloc` and `pthread_create` succeed; their results are not looked at.
* Once `file_data` has been freed, its memory may be given other contents at any time.
* The server's own descriptor is not modelled; `async_server` never closes it.
-/

namespace EspNetwork.Async

open CLib Handle

/-- The memory and the descriptors that the threads pass around. -/
inductive Res
  | fileData
  | fd (n : ℕ)
  /-- a `client_args_t`, by its address -/
  | cargs (ptr : ℕ)
deriving DecidableEq, Repr

/-- Where a thread is in `handle_client`. -/
inductive HandlerPc
  /-- before `cargs` is read -/
  | start
  /-- at the `send` of the header -/
  | header
  /-- at the `send` of the chunk at `offset` -/
  | chunk (offset : ℕ)
  /-- at `close(fd)` -/
  | close
  /-- at `free(cargs)` -/
  | free
  | exited
deriving DecidableEq, Repr

/-- A detached thread and what its `cargs` holds. -/
structure Handler where
  cargs : ℕ
  fd : ℕ
  pc : HandlerPc
  /-- the bytes the socket has accepted -/
  sent : Bytes
deriving DecidableEq, Repr

inductive HandlerLabel
  | start
  /-- the next `send` call accepts this many bytes, or returns -1 -/
  | send (result : Option ℕ)
  | close
  | free
deriving DecidableEq, Repr

/-- The test of the chunk loop. -/
def handlerLoop (size offset : ℕ) : HandlerPc := if offset < size then .chunk offset else .close

namespace Handler

/-- The buffer of the next `send` call, with `data` behind `file_data`, and what comes after it. -/
def sending (data : Bytes) (t : Handler) : Option (Bytes × HandlerPc) :=
  match t.pc with
  | .header => some (headerPthread data.length, handlerLoop data.length 0)
  | .chunk offset => some (chunkAt data offset, handlerLoop data.length (offset + chunkSize))
  | _ => none

/-- What the next `send` call reads and writes; the header is on the thread's own stack. -/
def touches (t : Handler) : List (Event Res) :=
  match t.pc with
  | .chunk _ => [.use .fileData, .use (.fd t.fd)]
  | _ => [.use (.fd t.fd)]

/-- A step of one thread, with the operations it makes. -/
def step (data : Bytes) (t : Handler) : HandlerLabel → Option (Handler × List (Event Res))
  | .start => if t.pc = .start then some ({ t with pc := .header }, [.use (.cargs t.cargs)]) else none
  | .send result => do
    let (buf, next) ← t.sending data
    match result with
    | some k => if k ≤ buf.length then some ({ t with pc := next, sent := t.sent ++ buf.take k }, t.touches) else none
    | none => some ({ t with pc := next }, t.touches)
  | .close => if t.pc = .close then some ({ t with pc := .free }, [.release (.fd t.fd)]) else none
  | .free => if t.pc = .free then some ({ t with pc := .exited }, [.release (.cargs t.cargs)]) else none

end Handler

structure PthreadServer where
  /-- `async_server` is in its `accept` loop -/
  accepting : Bool
  /-- what is behind the pointer `file_data` -/
  fileData : Bytes
  handlers : List Handler
  log : List (Event Res)
deriving DecidableEq

inductive PthreadLabel
  /-- a new client, with its descriptor and the address of its `client_args_t` -/
  | accept (fd cargs : ℕ)
  /-- `accept` returns -1; `free(file_data)` -/
  | acceptFailed
  /-- other contents in the memory that was `file_data` -/
  | reuse (data : Bytes)
  | thread (i : ℕ) (l : HandlerLabel)
deriving DecidableEq, Repr

namespace PthreadServer

def step (s : PthreadServer) : PthreadLabel → Option PthreadServer
  | .accept fd cargs =>
    if s.accepting then
      some { s with handlers := s.handlers ++ [⟨cargs, fd, .start, []⟩]
                    log := .acquire (.cargs cargs) :: .acquire (.fd fd) :: s.log }
    else none
  | .acceptFailed =>
    if s.accepting then some { s with accepting := false, log := .release .fileData :: s.log } else none
  | .reuse data =>
    if !s.accepting && data.length == s.fileData.length then some { s with fileData := data } else none
  | .thread i l => do
    let t ← s.handlers[i]?
    let (u, ops) ← t.step s.fileData l
    some { s with handlers := s.handlers.set i u, log := ops ++ s.log }

/-- The server that serves `file`, at its first `accept`. -/
def machine (file : Bytes) : Lts.Machine PthreadServer PthreadLabel :=
  ⟨⟨true, file, [], [.acquire .fileData]⟩, step⟩

/-- `accept` returns a descriptor that is not open, and `malloc` memory that is not in use. -/
def Kernel (s : PthreadServer) : PthreadLabel → Prop
  | .accept fd cargs => .fd fd ∉ live s.log ∧ .cargs cargs ∉ live s.log
  | _ => True

instance (s : PthreadServer) : ∀ l, Decidable (Kernel s l)
  | .accept _ _ => inferInstanceAs (Decidable (_ ∧ _))
  | .acceptFailed | .reuse _ | .thread _ _ => isTrue trivial

/-- The results of the `send` calls of one thread, in order. -/
def results (i : ℕ) (ls : List PthreadLabel) : List (Option ℕ) :=
  ls.filterMap fun
    | .thread j (.send r) => if j = i then some r else none
    | _ => none

end PthreadServer

end EspNetwork.Async
