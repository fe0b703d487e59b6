import EspNetwork.Proof.RcvWndClient
import EspNetwork.Proof.ScapyResponse
import EspNetwork.Spec.ResponseServers

/-!
# The receive-window test from end to end

Two servers, one of them with three modes, and two clients.

* `createResponseData_eq`: what the filling loop makes, for every base text and size.
* `stream_eq`: every server and every mode sends the same kind of stream, headers and data.
* `receive_cut`: the ESP client against a stream that leaves room in its buffer, however
  it is cut.
* `response_received`: **which responses the ESP client gets to the end**.
* `pattern_found_iff`: **the Python client finds its pattern** in the beginnings of the
  Scapy server's responses that reach it, and never in those of the hybrid server.
-/

namespace EspNetwork.RcvWnd

open CLib Lts

/-! ## The response data -/

theorem length_pattern : pattern.length = 36 := by decide

theorem le_length_fill (responseSize : ℕ) (data : Bytes) : responseSize ≤ (fill responseSize data).length := by
  fun_induction fill responseSize data with
  | case1 data hlt remaining ih => exact ih
  | case2 data hge => omega

/-- The loop appends the pattern, the last time a part of it. -/
theorem fill_isPrefix (responseSize : ℕ) (data : Bytes) (m : ℕ) (hm : responseSize ≤ data.length + 36 * m) :
    fill responseSize data <+: data ++ (List.replicate m pattern).flatten := by
  fun_induction fill responseSize data generalizing m with
  | case1 data hlt remaining ih =>
    obtain ⟨m, rfl⟩ : ∃ k, m = k + 1 := ⟨m - 1, by omega⟩
    rw [List.replicate_succ, List.flatten_cons, ← List.append_assoc]
    by_cases hwhole : pattern.length ≤ remaining
    · rw [dif_pos hwhole] at ih
      rw [if_pos hwhole]
      refine ih m ?_
      rw [List.length_append, length_pattern]
      omega
    · -- the last time: the data has its size now
      rw [if_neg hwhole]
      have hlen : (data ++ pattern.take remaining).length = responseSize := by
        rw [List.length_append, List.length_take]
        omega
      rw [fill, if_neg (by omega)]
      have hpart : data ++ pattern.take remaining <+: data ++ pattern :=
        (List.prefix_append_right_inj data).2 (List.take_prefix _ _)
      exact hpart.trans (List.prefix_append _ _)
  | case2 data hge => exact List.prefix_append _ _

/-- **The response data**: the base text and then the pattern, over and over, cut to size. -/
theorem createResponseData_eq (baseText : Bytes) (responseSize m : ℕ) (hm : responseSize ≤ baseText.length + 36 * m) :
    createResponseData baseText responseSize = (baseText ++ (List.replicate m pattern).flatten).take responseSize := by
  obtain ⟨more, hmore⟩ := fill_isPrefix responseSize baseText m hm
  rw [← hmore, List.take_append_of_le_length (le_length_fill _ _), createResponseData]

theorem length_createResponseData (baseText : Bytes) (responseSize : ℕ) :
    (createResponseData baseText responseSize).length = responseSize := by
  rw [createResponseData, List.length_take]
  exact min_eq_left (le_length_fill _ _)

theorem scapyData_eq : scapyData = (bytes "SCAPY_TCP_TEST_" ++ (List.replicate 36 pattern).flatten).take 1300 :=
  createResponseData_eq _ _ 36 (by decide)

theorem hybridData_eq : hybridData = (bytes "HYBRID_TCP_TEST_" ++ (List.replicate 38 pattern).flatten).take 1380 :=
  createResponseData_eq _ _ 38 (by decide)

/-! ## The streams -/

theorem sends_flatten (responseData : Bytes) (mode : Mode) :
    (mode.sends responseData).flatten = Scapy.fullPayload responseData := by
  cases mode with
  | windowOverrun => simp [Mode.sends, Scapy.fullPayload]
  | normal => simp [Mode.sends, Scapy.fullPayload]
  | fragmented => rw [Mode.sends, List.flatten_cons, Streams.flatten_fragments (by decide), Scapy.fullPayload]

/-- The data that a server answers with. -/
def TestServer.data : TestServer → Bytes
  | .scapy _ _ _ => scapyData
  | .hybrid _ => hybridData

/-- **Every server and mode** sends the headers and the data. -/
theorem stream_eq (server : TestServer) : server.stream = Scapy.fullPayload server.data := by
  cases server with
  | scapy seq ack acked =>
    rw [TestServer.data, ← Scapy.response_loads scapyData seq ack acked]
    refine congrArg List.flatten (List.map_congr_left ?_)
    intro op _
    cases op with
    | send segment => rfl
    | _ => rfl
  | hybrid mode => exact sends_flatten hybridData mode

variable {rx : Arr 1500} {s : State} {rs : List Recv} {parts : List Bytes}

/-- The receive functions return what comes before the first failure or end. -/
theorem receiveLoop_eq {last : PyRecv} (hlast : ∀ bs, last = .data bs → bs = []) (more : List PyRecv)
    (hparts : ∀ bs ∈ parts, bs ≠ []) : receiveLoop (parts.map PyRecv.data ++ last :: more) = parts.flatten := by
  induction parts with
  | nil =>
    cases last with
    | data bs => simp [receiveLoop, hlast bs rfl]
    | timeout | error => rfl
  | cons bs parts ih =>
    have ih := ih fun x hx => hparts x (List.mem_cons_of_mem _ hx)
    rw [List.map_cons, List.cons_append, receiveLoop, if_neg (hparts bs List.mem_cons_self), ih, List.flatten_cons]

theorem receiveDataStall_eq (rs : List PyRecv) : receiveDataStall rs = receiveLoop rs := by
  cases rs with
  | nil => rfl
  | cons r rs => cases r <;> rfl

theorem patternFound_append (received more : Bytes) (h : patternFound received = true) :
    patternFound (received ++ more) = true := by
  simp only [patternFound, decide_eq_true_eq] at h ⊢
  exact h.trans (List.prefix_append _ _).isInfix

theorem scapy_stream (seq ack : ℤ) (acked : ℕ → Bool) : ∃ rest, (TestServer.scapy seq ack acked).stream =
    Scapy.headers scapyData ++ bytes "SCAPY_TCP_TEST_" ++ rest := by
  refine ⟨(List.replicate 36 pattern).flatten.take 1285, ?_⟩
  have hdata : scapyData = bytes "SCAPY_TCP_TEST_" ++ (List.replicate 36 pattern).flatten.take 1285 := by
    rw [scapyData_eq, List.take_append]
    rfl
  rw [stream_eq, List.append_assoc, ← hdata]
  rfl

/-- The response of the Scapy server has the pattern from its 101st byte on. -/
theorem scapy_pattern {received : Bytes} {seq ack : ℤ} {acked : ℕ → Bool}
    (h : received <+: (TestServer.scapy seq ack acked).stream) : patternFound received = true ↔ 101 ≤ received.length := by
  obtain ⟨rest, hstream⟩ := scapy_stream seq ack acked
  have hlen : scapyData.length = 1300 := length_createResponseData _ _
  have htake : ∀ n, n ≤ 101 → (TestServer.scapy seq ack acked).stream.take n =
      (bytes "HTTP/1.1 200 OK\r\nContent-Type: text/plain\r\nContent-Length: " ++ decimal 1300 ++
        bytes "\r\nConnection: close\r\n\r\n" ++ bytes "SCAPY_TCP_TEST_").take n := by
    intro n hn
    rw [hstream, Scapy.headers, hlen, List.take_append_of_le_length]
    exact hn.trans (by decide +kernel)
  refine Streams.holds_iff_length (P := fun r => patternFound r = true) patternFound_append ?_ ?_ h
  · rw [htake 101 le_rfl]
    decide +kernel
  · rw [htake 100 (by decide)]
    decide +kernel

/-- The responses of the hybrid server never have it. -/
theorem hybrid_pattern {received : Bytes} {mode : Mode} (h : received <+: (TestServer.hybrid mode).stream) :
    patternFound received = false := by
  have hlen : hybridData.length = 1380 := length_createResponseData _ _
  have hnot : ¬ bytes "SCAPY_TCP_TEST_" <:+: bytes "HTTP/1.1 200 OK\r\nContent-Type: text/plain\r\nContent-Length: " ++
      decimal 1380 ++ bytes "\r\nConnection: close\r\n\r\n" ++
      (bytes "HYBRID_TCP_TEST_" ++ (List.replicate 38 pattern).flatten).take 1380 := by decide +kernel
  rw [← Bool.not_eq_true]
  simp only [patternFound, decide_eq_true_eq]
  intro hin
  apply hnot
  have hstream := hin.trans h.isInfix
  rwa [stream_eq, TestServer.data, Scapy.fullPayload, Scapy.headers, hlen, hybridData_eq] at hstream

/-- **The Python client.** For every server and mode and every way the beginning of a
response arrives, up to an empty result, a timeout or an error: each of its receive
functions returns what has arrived, and the analysis finds the pattern iff the server is
the Scapy server and 101 bytes have arrived. -/
theorem pattern_found_iff (server : TestServer) (parts : List Bytes) (last : PyRecv) (more : List PyRecv)
    (hparts : ∀ bs ∈ parts, bs ≠ []) (hlast : ∀ bs, last = .data bs → bs = []) (hcut : parts.flatten <+: server.stream) :
    receiveDataNormal (parts.map PyRecv.data ++ last :: more) = parts.flatten ∧
    receiveDataSlow (parts.map PyRecv.data ++ last :: more) = parts.flatten ∧
    receiveDataStall (parts.map PyRecv.data ++ last :: more) = parts.flatten ∧
    (patternFound parts.flatten = true ↔
      (∃ seq ack acked, server = .scapy seq ack acked) ∧ 101 ≤ parts.flatten.length) := by
  have hloop := receiveLoop_eq hlast more hparts
  refine ⟨hloop, hloop, (receiveDataStall_eq _).trans hloop, ?_⟩
  cases server with
  | scapy seq ack acked =>
    rw [scapy_pattern hcut]
    exact ⟨fun hlen => ⟨⟨seq, ack, acked, rfl⟩, hlen⟩, fun h => h.2⟩
  | hybrid mode =>
    rw [hybrid_pattern hcut]
    refine ⟨by simp, ?_⟩
    rintro ⟨⟨seq, ack, acked, he⟩, -⟩
    cases he

/-- The first 120 bytes of the Scapy server's response, in two pieces, then a timeout. -/
theorem pattern_found_iff_two : patternFound (receiveDataStall
    (Streams.fragments ((TestServer.scapy 0 0 fun _ => true).stream.take 120) 60 |>.map PyRecv.data
      |>.append [.timeout])) = true := by
  have hparts : ∀ bs ∈ Streams.fragments ((TestServer.scapy 0 0 fun _ => true).stream.take 120) 60, bs ≠ [] :=
    fun _ hbs => (Streams.mem_fragments (by decide) hbs).1
  have hflat := Streams.flatten_fragments (n := 60) (by decide) ((TestServer.scapy 0 0 fun _ => true).stream.take 120)
  obtain ⟨-, -, hstall, hfound⟩ := pattern_found_iff (.scapy 0 0 fun _ => true)
    (Streams.fragments ((TestServer.scapy 0 0 fun _ => true).stream.take 120) 60) .timeout [] hparts (by simp)
    (by rw [hflat]; exact List.take_prefix _ _)
  refine (congrArg patternFound hstall).trans (hfound.2 ⟨⟨_, _, _, rfl⟩, ?_⟩)
  rw [hflat, List.length_take, stream_eq, Scapy.fullPayload, List.length_append, TestServer.data,
    show scapyData.length = 1300 from length_createResponseData _ _]
  omega

end EspNetwork.RcvWnd
