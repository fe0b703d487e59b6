import EspNetwork.Lib.Streams
import EspNetwork.Proof.Holes
import EspNetwork.Proof.LoadTester

/-!
# The load tester against the two servers

The tester takes a response for valid if it starts with the status line and has a
`Content-Length:` field somewhere. Of what the two servers send, this asks for the first
32 bytes and for no more.

* `isValid_iff`: a beginning of a response of either server is valid iff it has 32 bytes.
* `load_test`: **what the tester counts as a success**, and when its summary is complete.
-/

namespace EspNetwork.LoadTest

open CLib Lts Async

/-! ## The responses -/

/-- What both servers send first. -/
def opening : Bytes := bytes "HTTP/1.1 200 OK\r\nContent-Length: "

theorem length_opening : opening.length = 33 := by decide

/-- The header of the coroutine server begins with `opening`. -/
theorem headersStr_opening (size : ℕ) : ∃ rest, headersStr size = opening ++ rest := by
  refine ⟨decimal size ++ bytes "\r\n" ++ bytes "Content-Type: text/html\r\n" ++ bytes "Connection: close\r\n" ++
    bytes "\r\n", ?_⟩
  have hopen : opening = bytes "HTTP/1.1 200 OK\r\n" ++ bytes "Content-Length: " := by decide
  rw [hopen, headersStr]
  simp only [List.append_assoc]

/-- So does that of the pthread server. -/
theorem headerPthread_opening (size : ℕ) : ∃ rest, headerPthread size = opening ++ rest := by
  have htake : opening.take 255 = opening := List.take_of_length_le (by rw [length_opening]; decide)
  refine ⟨(decimal size ++ bytes "\r\nContent-Type: text/html\r\n\r\n").take (255 - 33), ?_⟩
  rw [headerPthread, List.append_assoc, List.take_append, show bytes "HTTP/1.1 200 OK\r\nContent-Length: " = opening from rfl,
    htake, length_opening]

/-! ## A valid response -/

/-- More bytes behind a valid response leave it valid. -/
theorem isValid_append (response more : Bytes) (h : isValid response = true) : isValid (response ++ more) = true := by
  simp only [isValid, decide_eq_true_eq] at h ⊢
  exact ⟨h.1.trans (List.prefix_append _ _), h.2.trans (List.prefix_append _ _).isInfix⟩

/-- **A beginning of a response** is valid iff it has 32 bytes. -/
theorem isValid_iff {response rest : Bytes} (h : response <+: opening ++ rest) :
    isValid response = true ↔ 32 ≤ response.length := by
  have htake : ∀ n, n ≤ 33 → (opening ++ rest).take n = opening.take n := fun n hn =>
    List.take_append_of_le_length (by rw [length_opening]; exact hn)
  refine Streams.holds_iff_length (P := fun r => isValid r = true) isValid_append ?_ ?_ h
  · rw [htake 32 (by decide)]
    decide +kernel
  · rw [htake 31 (by decide)]
    decide +kernel

/-! ## The test -/

variable {F : Type} [LinearOrder F] [Zero F] [Sub F] [Div F] [NatCast F]

/-- A client of the tester reads a beginning of a response. -/
def Reads (streams : Bytes → Prop) : Session F → Prop
  | .raised _ => True
  | .ended chunks _ _ => ∃ stream, streams stream ∧ chunks.flatten <+: stream

/-- A session that ends counts the bytes of its chunks. -/
theorem totalBytes_eq (clientId : ℕ) (chunks : List Bytes) (startTime endTime : F) :
    (testSingleClient clientId (.ended chunks startTime endTime)).totalBytes = chunks.flatten.length :=
  List.length_flatten.symm

/-- What the sockets of either server have accepted, when nothing is sent behind a gap. -/
inductive Served (file : Bytes) (now : ℤ) : Bytes → Prop
  | coroutine {x : Async.Server × List (ℕ × SendCall)} {cl : Client}
      (h : (Server.recorded file now).Reach Server.Gapless x) (hcl : cl ∈ x.1.clients) : Served file now cl.sent
  | pthread {x : Thread × List SendCall} (h : (Thread.recorded file).Reach Thread.Gapless x) : Served file now x.1.sent

/-- What a server sends begins as `opening` does, or is a part of it. -/
theorem Served.opening {file : Bytes} {now : ℤ} {stream : Bytes} (h : Served file now stream) :
    ∃ rest, stream <+: opening ++ rest := by
  cases h with
  | coroutine h hcl =>
    obtain ⟨c, hc⟩ := List.mem_iff_getElem?.1 hcl
    obtain ⟨rest, hrest⟩ := headersStr_opening file.length
    refine ⟨rest ++ file, ?_⟩
    rw [← List.append_assoc, ← hrest]
    exact ((Server.recorded_of_reach h).streams c _ hc).trans (Server.upTo_isPrefix file _)
  | pthread h =>
    obtain ⟨pre, hpre, hsent, -⟩ := Thread.inv_of_reach h
    obtain ⟨rest, hrest⟩ := headerPthread_opening file.length
    rw [flatten_sendsPthread] at hpre
    refine ⟨rest ++ file, ?_⟩
    rw [← List.append_assoc, ← hrest, ← hpre]
    exact hsent.trans (List.prefix_append _ _)

/-- **A session is a success** iff 32 bytes of the header arrive. -/
theorem success_iff {file : Bytes} {now : ℤ} {session : Session F} (h : Reads (Served file now) session) (clientId : ℕ) :
    (testSingleClient clientId session).success = true ↔ 32 ≤ (testSingleClient clientId session).totalBytes := by
  cases session with
  | raised e => simp [testSingleClient]
  | ended chunks startTime endTime =>
    obtain ⟨stream, hserved, hchunks⟩ := h
    obtain ⟨rest, hstream⟩ := hserved.opening
    rw [totalBytes_eq]
    exact isValid_iff (hchunks.trans hstream)

/-- **The load test.** Whatever the two servers do in runs in which nothing is sent behind
a gap, and however the responses are cut into chunks or cut off: the tester counts a
client as successful iff 32 bytes have reached it, whatever is missing of the file, and
its summary is printed to the end with counts that add up iff the number of such clients
is not one. -/
theorem load_test (file : Bytes) (now : ℤ) (stat : Statistics F) (clients : List (ℕ × Session F)) (totalDuration : F)
    (hd : 0 < totalDuration) (h : ∀ c ∈ clients, Reads (Served file now) c.2) :
    (∀ c ∈ clients, (testSingleClient c.1 c.2).success = true ↔ 32 ≤ (testSingleClient c.1 c.2).totalBytes) ∧
    (Summarised stat (clients.map fun c => testSingleClient c.1 c.2) totalDuration ↔
      clients.countP (fun c => 32 ≤ (testSingleClient c.1 c.2).totalBytes) ≠ 1) := by
  have hsuccess : ∀ c ∈ clients, (testSingleClient c.1 c.2).success = true ↔
      32 ≤ (testSingleClient c.1 c.2).totalBytes := fun c hc => success_iff (h c hc) c.1
  refine ⟨hsuccess, ?_⟩
  have hcount : ((clients.map fun c => testSingleClient c.1 c.2).filter fun r => r.success).length =
      clients.countP fun c => 32 ≤ (testSingleClient c.1 c.2).totalBytes := by
    rw [← List.countP_eq_length_filter, List.countP_map]
    apply List.countP_congr
    intro c hc
    simpa using hsuccess c hc
  rw [← hcount]
  constructor
  · intro hs hone
    exact not_summarised hone hs
  · intro hne
    exact printSummary_returns hne hd.ne'

/-- Three clients of the pthread server, with 40, 32 and 31 bytes of their headers. -/
def cutOff : List (ℕ × Session ℚ) :=
  [(0, .ended [(headerPthread 2).take 10, ((headerPthread 2).take 40).drop 10] 0 1),
    (1, .ended [(headerPthread 2).take 32] 0 2), (2, .ended [(headerPthread 2).take 31] 0 3)]

/-- `load_test` for `cutOff`: two successes. -/
theorem load_test_cutOff : (∀ c ∈ cutOff, Reads (Served (bytes "hi") 0) c.2) ∧
    Summarised statisticsRat (cutOff.map fun c => testSingleClient c.1 c.2) 3 ∧
      (cutOff.map fun c => (testSingleClient c.1 c.2).success) = [true, true, false] := by
  -- the first `send` accepts 40 bytes
  have hstep : (Thread.recorded (bytes "hi")).step (Thread.recorded (bytes "hi")).init (some 40) =
      some (⟨chunkLoop (bytes "hi") 0, (headerPthread 2).take 40⟩, [⟨(headerPthread 2).length, some 40⟩]) := by
    decide +kernel
  have hserved : Served (bytes "hi") 0 ((headerPthread 2).take 40) :=
    .pthread (Machine.Reach.init.step (.inr (.inr (by simp [Thread.recorded, Machine.withHistory]))) hstep)
  have hreads : ∀ c ∈ cutOff, Reads (Served (bytes "hi") 0) c.2 := by
    intro c hc
    simp only [cutOff, List.mem_cons, List.not_mem_nil, or_false] at hc
    rcases hc with rfl | rfl | rfl <;> exact ⟨_, hserved, by decide +kernel⟩
  obtain ⟨-, hsum⟩ := load_test (bytes "hi") 0 statisticsRat cutOff 3 (by norm_num) hreads
  exact ⟨hreads, hsum.2 (by decide +kernel), by decide +kernel⟩

end EspNetwork.LoadTest
