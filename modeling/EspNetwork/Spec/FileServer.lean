import EspNetwork.Lib.Decimal
import EspNetwork.Spec.EventLoop

/-!
# The two file servers

`handle_client` of async_server_coroutines.cpp, as the coroutine frame of each
client, the tasks its awaiters put on the event loop, the acceptor and the worker;
and `handle_client` of async_server_pthread.c.

`size_t` sums are not reduced: `offset` stays below the size of an object in memory
plus one chunk.
-/

namespace EspNetwork.Async

open CLib

/-- `chunk_size` and `CHUNK_SIZE`. -/
def chunkSize : ℕ := 100

/-- The bytes of `file_data` sent at `offset`. -/
def chunkAt (file : Bytes) (offset : ℕ) : Bytes :=
  (file.drop offset).take (if file.length - offset > chunkSize then chunkSize else file.length - offset)

/-! ## The pthread server -/

/-- `snprintf(header, 256, ..)`: at most 255 bytes are stored. -/
def headerPthread (size : ℕ) : Bytes :=
  (bytes "HTTP/1.1 200 OK\r\nContent-Length: " ++ decimal size ++
    bytes "\r\nContent-Type: text/html\r\n\r\n").take 255

/-- The `send` buffers of the chunk loop from `offset` on. -/
def chunkLoop (file : Bytes) (offset : ℕ) : List Bytes :=
  if offset < file.length then chunkAt file offset :: chunkLoop file (offset + chunkSize) else []
termination_by file.length - offset
decreasing_by simp only [chunkSize]; omega

/-- The buffers that `handle_client` of the pthread server sends, in order. -/
def sendsPthread (file : Bytes) : List Bytes := headerPthread file.length :: chunkLoop file 0

/-! ## The coroutine -/

/-- `headers.str()`. -/
def headersStr (size : ℕ) : Bytes :=
  bytes "HTTP/1.1 200 OK\r\n" ++ (bytes "Content-Length: " ++ decimal size ++ bytes "\r\n") ++
    bytes "Content-Type: text/html\r\n" ++ bytes "Connection: close\r\n" ++ bytes "\r\n"

/-- The body length that a client reads from a response header. -/
def contentLength (header : Bytes) : Option ℕ :=
  (strstr header (bytes "Content-Length: ")).map fun i => digitsVal ((header.drop (i + 16)).takeWhile isdigit)

/-- The `co_await`s of `handle_client`. -/
inductive Point
  /-- `AsyncSend` of the headers -/
  | headers
  /-- `AsyncSend` of the chunk at `offset` -/
  | chunk (offset : ℕ)
  /-- `Sleep` after the chunk at `offset` -/
  | sleep (offset : ℕ)
deriving DecidableEq, Repr

/-- The buffer of the awaiter. -/
def Point.data (file : Bytes) : Point → Bytes
  | .headers => headersStr file.length
  | .chunk offset => chunkAt file offset
  | .sleep _ => []

/-- The test of the chunk loop; `none` leaves the loop. -/
def loopTest (size offset : ℕ) : Option Point := if offset < size then some (.chunk offset) else none

/-- From one suspension to the next; `none` runs to the end and closes the socket. -/
def resumed (size : ℕ) : Point → Option Point
  | .headers => loopTest size 0
  | .chunk offset => some (.sleep offset)
  | .sleep offset => loopTest size (offset + chunkSize)

/-- The functions on the event loop. -/
inductive Job
  /-- `AsyncSend`: `send(sock, data, size, 0); h.resume();` -/
  | send (client : ℕ)
  /-- `Sleep`: `h.resume();` -/
  | resume (client : ℕ)
deriving DecidableEq, Repr

def Job.client : Job → ℕ
  | .send c => c
  | .resume c => c

/-- `await_suspend`, on the loop. A `Sleep` reads the clock at `called`. -/
def Point.suspend (c : ℕ) (called : ℤ) : Point → LoopAction Job
  | .sleep _ => .postDelayed (.resume c) called 200
  | _ => .post (.send c)

/-- A started `handle_client` and the socket it was given. -/
structure Client where
  sock : ℕ
  /-- where the coroutine is suspended; `none` once it has run to its end -/
  point : Option Point
  /-- the connection has not been closed -/
  isOpen : Bool
  /-- the bytes the socket has accepted -/
  sent : Bytes
  closes : ℕ
deriving DecidableEq, Repr

/-- How far the running function is. -/
inductive Phase
  | fresh
  /-- its `send` call has returned -/
  | sent
  /-- its `h.resume()` has returned -/
  | resumed
deriving DecidableEq, Repr

structure Server where
  loop : EventLoop Job
  phase : Phase
  clients : List Client
deriving DecidableEq, Repr

inductive Action
  /-- a step of the worker loop, a notification or the clock -/
  | loop (a : LoopAction Job)
  /-- `accept` returns `sock`, and `handle_client` runs to its first suspension -/
  | accept (sock : ℕ)
  /-- the `send` call of the running function accepts this many bytes, or returns -1 -/
  | send (result : Option ℕ)
  /-- `h.resume()` of the running function; a `Sleep` on the way reads the clock at `called` -/
  | resume (called : ℤ)
  /-- the running function returns -/
  | finish
deriving DecidableEq, Repr

/-- The kernel's end of `send` on the descriptor `sock`. -/
def Client.accept (sock : ℕ) (bs : Bytes) (cl : Client) : Client :=
  if cl.isOpen && cl.sock == sock then { cl with sent := cl.sent ++ bs } else cl

/-- The kernel's end of `close(sock)`. -/
def Client.close (sock : ℕ) (cl : Client) : Client :=
  if cl.isOpen && cl.sock == sock then { cl with isOpen := false, closes := cl.closes + 1 } else cl

namespace Server

/-- The `send` call that the worker is about to make. -/
def sending (file : Bytes) (s : Server) : Option (ℕ × Bytes) :=
  match s.loop.worker, s.phase with
  | .exec (.send c), .fresh => do
    let cl ← s.clients[c]?
    let p ← cl.point
    some (cl.sock, p.data file)
  | _, _ => none

/-- The coroutine that the worker is about to resume. -/
def resuming (s : Server) : Option ℕ :=
  match s.loop.worker, s.phase with
  | .exec (.send c), .sent => some c
  | .exec (.resume c), .fresh => some c
  | _, _ => none

/-- `h.resume()` of client `c`. To resume a coroutine that has ended is undefined. -/
def resume (file : Bytes) (s : Server) (called : ℤ) (c : ℕ) : Option Server := do
  let cl ← s.clients[c]?
  let p ← cl.point
  match resumed file.length p with
  | some q =>
    let l ← s.loop.step (q.suspend c called)
    some ⟨l, .resumed, s.clients.modify c fun cl => { cl with point := some q }⟩
  | none =>
    some { s with phase := .resumed
                  clients := (s.clients.map (Client.close cl.sock)).modify c fun cl =>
                    { cl with point := none } }

def step (file : Bytes) (s : Server) : Action → Option Server
  | .loop a => if a.internal then (s.loop.step a).map fun l => { s with loop := l } else none
  | .accept sock =>
    -- a new descriptor is not one that is open
    if s.clients.any fun cl => cl.isOpen && cl.sock == sock then none
    else (s.loop.step (Point.headers.suspend s.clients.length 0)).map fun l =>
      { s with loop := l, clients := s.clients ++ [⟨sock, some .headers, true, [], 0⟩] }
  | .send result => do
    let (sock, data) ← s.sending file
    match result with
    | some k =>
      if k ≤ data.length then
        some { s with phase := .sent, clients := s.clients.map (Client.accept sock (data.take k)) }
      else none
    | none => some { s with phase := .sent }
  | .resume called => do
    let c ← s.resuming
    s.resume file called c
  | .finish =>
    if s.phase = .resumed then (s.loop.step .finish).map fun l => { s with loop := l, phase := .fresh }
    else none

/-- The coroutine server that serves `file`. -/
def machine (file : Bytes) (now : ℤ) : Lts.Machine Server Action :=
  ⟨⟨.start now, .fresh, []⟩, step file⟩

/-- Every `send` call transmits all its bytes. -/
def FullSends (file : Bytes) (s : Server) : Action → Prop
  | .send result => ∀ q, s.sending file = some q → result = some q.2.length
  | _ => True

end Server

end EspNetwork.Async
