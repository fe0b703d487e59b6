import EspNetwork.Spec.FileServer

/-!
# A connection of the pthread server

`handle_client` of async_server_pthread.c runs in a thread of its own and is alone on
its descriptor: its `send` calls, in order, with the results the kernel gives.
-/

namespace EspNetwork.Async

open CLib

/-- `handle_client` between two `send` calls. -/
structure Thread where
  /-- the buffers still to send -/
  todo : List Bytes
  /-- the bytes the socket has accepted -/
  sent : Bytes
deriving DecidableEq, Repr

namespace Thread

/-- The next `send` call accepts this many bytes, or returns -1. -/
def step (s : Thread) (result : Option ℕ) : Option Thread :=
  match s.todo with
  | [] => none
  | data :: todo =>
    match result with
    | some k => if k ≤ data.length then some ⟨todo, s.sent ++ data.take k⟩ else none
    | none => some ⟨todo, s.sent⟩

/-- The thread that serves `file`. -/
def machine (file : Bytes) : Lts.Machine Thread (Option ℕ) := ⟨⟨sendsPthread file, []⟩, step⟩

end Thread

end EspNetwork.Async
