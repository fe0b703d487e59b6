import EspNetwork.Spec.ScapyExchange

/-!
# The segments of a response

`_send_http_response` cuts headers and data into chunks of 500, 500 and the rest; a short
payload is used up before the chunks are.

* `sendChunks_rounds`: segments with consecutive numbers, and between two of them the
  wait for the number of the second.
* `response_partition`: **the segments are a partition of the payload**, for every
  response, every starting number and every result of the waits.
-/

namespace EspNetwork.Scapy

open CLib

variable {seq ack : ℤ} {ops pre post : List Op} {payload : Bytes} {count pos i : ℕ} {acked : ℕ → Bool} {sizes : List ℕ}

/-- The data an operation puts on the wire. -/
def Op.load : Op → Bytes
  | .send segment => segment.load
  | .waitForAck _ | .waitForDataAck _ _ => []

/-- The data of the segments in a list of operations. -/
def loads (ops : List Op) : Bytes := ops.flatMap Op.load

theorem loads_append : loads (ops ++ post) = loads ops ++ loads post := List.flatMap_append

theorem loads_cons (op : Op) : loads (op :: ops) = op.load ++ loads ops := List.flatMap_cons

/-- Non-empty segments with consecutive numbers from `seq` on; between two of them the
wait for the number of the second. -/
inductive Rounds (ack : ℤ) : ℤ → List Op → Prop
  | nil {seq : ℤ} : Rounds ack seq []
  | last {seq : ℤ} {load : Bytes} (hne : load ≠ []) : Rounds ack seq [.send ⟨.pa, seq, ack, load⟩]
  | cons {seq : ℤ} {load : Bytes} {received : Bool} {ops : List Op} (hne : load ≠ [])
    (h : Rounds ack (seq + load.length) ops) :
    Rounds ack seq (.send ⟨.pa, seq, ack, load⟩ :: .waitForDataAck (seq + load.length) received :: ops)

/-! ## The loop -/

/-- The wait of an iteration, if there is one. -/
theorem loads_wait {next : ℤ} : loads (if i < count then [.waitForDataAck next (acked i)] else []) = [] := by
  split <;> rfl

/-- **The loop** sends a segment, waits for the next number, and so on: it stops before a chunk
would be empty, and waits after every chunk but the last. -/
theorem sendChunks_rounds (hsizes : ∀ size ∈ sizes, 0 < size) (hi : i + sizes.length = count + 1) :
    Rounds ack seq (sendChunks payload count ack acked i sizes pos seq).1 := by
  induction sizes generalizing i pos seq with
  | nil => exact .nil
  | cons size sizes ih =>
    rw [sendChunks]
    split
    · exact .nil
    · rename_i hpos
      have hsize := hsizes size (List.mem_cons_self ..)
      have hne : ((payload.take (min (pos + size) payload.length)).drop pos) ≠ [] := by
        intro he
        have := congrArg List.length he
        simp only [List.length_drop, List.length_take, List.length_nil] at this
        omega
      have hrest : ∀ next,
          Rounds ack next (sendChunks payload count ack acked (i + 1) sizes (min (pos + size) payload.length) next).1 :=
        fun next => ih (fun size hs => hsizes size (List.mem_cons_of_mem _ hs)) (by simp only [List.length_cons] at hi; omega)
      by_cases hlast : i < count
      · simp only [if_pos hlast]
        exact .cons hne (hrest _)
      · -- no chunk is left
        have hnil : sizes = [] := List.eq_nil_of_length_eq_zero (by simp only [List.length_cons] at hi; omega)
        subst hnil
        simp only [if_neg hlast]
        exact .last hne

/-- Together the chunks are what is left of the payload, if their sizes reach its end. -/
theorem sendChunks_loads (hpos : payload.length ≤ pos + sizes.sum) :
    loads (sendChunks payload count ack acked i sizes pos seq).1 = payload.drop pos := by
  induction sizes generalizing i pos seq with
  | nil =>
    rw [List.sum_nil, Nat.add_zero] at hpos
    rw [List.drop_of_length_le hpos]
    rfl
  | cons size sizes ih =>
    rw [List.sum_cons] at hpos
    rw [sendChunks]
    split
    · rename_i hle
      rw [List.drop_of_length_le hle]
      rfl
    · rename_i hlt
      have ih : ∀ next,
          loads (sendChunks payload count ack acked (i + 1) sizes (min (pos + size) payload.length) next).1 = _ :=
        fun next => ih (by omega)
      rw [loads_append, loads_cons, loads_wait, List.append_nil, ih]
      -- the chunk and what is behind it
      have hsplit := List.take_append_drop (min (pos + size) payload.length) payload
      have hle : pos ≤ (payload.take (min (pos + size) payload.length)).length := by
        rw [List.length_take]
        omega
      conv => rhs; rw [← hsplit]
      rw [List.drop_append_of_le_length hle]
      rfl

/-- The loop ends with the number behind what it has sent. -/
theorem sendChunks_seq : (sendChunks payload count ack acked i sizes pos seq).2 =
    seq + (loads (sendChunks payload count ack acked i sizes pos seq).1).length := by
  induction sizes generalizing i pos seq with
  | nil => simp [sendChunks, loads]
  | cons size sizes ih =>
    rw [sendChunks]
    split
    · simp [loads]
    · rw [loads_append, loads_cons, loads_wait, ih, List.append_nil, List.length_append]
      simp only [Op.load]
      push_cast
      ring

/-! ## What is sent before and after an operation -/

/-- **A segment of the rounds** is not empty, is numbered by the data before it, and is followed
by a wait unless it is the last. -/
theorem Rounds.send {segment : Segment} (h : Rounds ack seq ops) (he : ops = pre ++ .send segment :: post) :
    segment.load ≠ [] ∧ segment.seq = seq + (loads pre).length ∧
    (post = [] ∨ ∃ e received post', post = .waitForDataAck e received :: post') := by
  induction h generalizing pre with
  | nil => simp at he
  | last hne =>
    cases pre with
    | nil =>
      obtain ⟨hs, rfl⟩ := List.cons.inj he
      obtain rfl := Op.send.inj hs
      exact ⟨hne, by simp [loads], .inl rfl⟩
    | cons op pre => simp at he
  | cons hne h ih =>
    rcases pre with _ | ⟨op, _ | ⟨op', pre⟩⟩
    · obtain ⟨hs, rfl⟩ := List.cons.inj he
      obtain rfl := Op.send.inj hs
      exact ⟨hne, by simp [loads], .inr ⟨_, _, _, rfl⟩⟩
    · exact absurd (List.cons.inj (List.cons.inj he).2).1 nofun
    · simp only [List.cons_append, List.cons.injEq] at he
      obtain ⟨rfl, rfl, he⟩ := he
      obtain ⟨hload, hseq, hpost⟩ := ih he
      refine ⟨hload, ?_, hpost⟩
      rw [hseq, loads_cons, loads_cons]
      simp only [Op.load, List.nil_append, List.length_append]
      push_cast
      ring

/-- **A wait of the rounds** is for the number behind the data before it, which the segment after
it has. -/
theorem Rounds.wait {expectedAck : ℤ} {received : Bool} (h : Rounds ack seq ops)
    (he : ops = pre ++ .waitForDataAck expectedAck received :: post) :
    expectedAck = seq + (loads pre).length ∧
    (post = [] ∨ ∃ segment post', post = .send segment :: post' ∧ segment.seq = expectedAck) := by
  induction h generalizing pre with
  | nil => simp at he
  | last hne =>
    rcases pre with _ | ⟨op, pre⟩
    · exact absurd (List.cons.inj he).1 nofun
    · simp at he
  | cons hne h ih =>
    rcases pre with _ | ⟨op, _ | ⟨op', pre⟩⟩
    · exact absurd (List.cons.inj he).1 nofun
    · simp only [List.cons_append, List.nil_append, List.cons.injEq, Op.waitForDataAck.injEq] at he
      obtain ⟨rfl, ⟨rfl, rfl⟩, rfl⟩ := he
      refine ⟨by simp [loads, Op.load], ?_⟩
      cases h with
      | nil => exact .inl rfl
      | last hne' => exact .inr ⟨_, _, rfl, rfl⟩
      | cons hne' h' => exact .inr ⟨_, _, rfl, rfl⟩
    · simp only [List.cons_append, List.cons.injEq] at he
      obtain ⟨rfl, rfl, he⟩ := he
      obtain ⟨hseq, hpost⟩ := ih he
      refine ⟨?_, hpost⟩
      rw [hseq, loads_cons, loads_cons]
      simp only [Op.load, List.nil_append, List.length_append]
      push_cast
      ring

/-! ## The response -/

/-- The third chunk is there if the payload is longer than the first two. -/
theorem chunkSizes_eq (payload : Bytes) :
    chunkSizes payload = if 1000 < payload.length then [500, 500, payload.length - 1000] else [500, 500] := by
  have hsum : ([500, 500] : List ℕ).sum = 1000 := rfl
  have hrest : ((payload.length : ℤ) - (1000 : ℕ)).toNat = payload.length - 1000 := by omega
  unfold chunkSizes
  dsimp only
  rw [hsum, hrest]
  by_cases h : 1000 < payload.length
  · rw [if_pos h, if_pos (by omega)]
  · rw [if_neg h, if_neg (by omega)]

theorem chunkSizes_pos : ∀ size ∈ chunkSizes payload, 0 < size := by
  rw [chunkSizes_eq]
  split
  · simp
    omega
  · simp

/-- The chunks reach the end of the payload. -/
theorem le_sum_chunkSizes : payload.length ≤ (chunkSizes payload).sum := by
  rw [chunkSizes_eq]
  split
  · simp
    omega
  · simp
    omega

theorem response_rounds (responseData : Bytes) (seq ack : ℤ) (acked : ℕ → Bool) :
    Rounds ack seq (sendHttpResponse responseData seq ack acked).1 :=
  sendChunks_rounds chunkSizes_pos (Nat.add_comm ..)

/-- The segments carry the headers and the data. -/
theorem response_loads (responseData : Bytes) (seq ack : ℤ) (acked : ℕ → Bool) :
    loads (sendHttpResponse responseData seq ack acked).1 = fullPayload responseData :=
  sendChunks_loads (by rw [Nat.zero_add]; exact le_sum_chunkSizes)

theorem response_seq (responseData : Bytes) (seq ack : ℤ) (acked : ℕ → Bool) :
    (sendHttpResponse responseData seq ack acked).2 = seq + (fullPayload responseData).length := by
  have h := response_loads responseData seq ack acked
  rw [← h]
  exact sendChunks_seq

/-- **The segments are a partition of the payload.** Together they are the payload; each
is non-empty and numbered by the bytes before it; after each but possibly the last comes
the wait for the number of the next; and `seq` ends behind the payload. -/
theorem response_partition (responseData : Bytes) (seq ack : ℤ) (acked : ℕ → Bool) :
    let r := sendHttpResponse responseData seq ack acked
    loads r.1 = fullPayload responseData ∧ r.2 = seq + (fullPayload responseData).length ∧
    (∀ pre segment post, r.1 = pre ++ .send segment :: post →
      segment.load ≠ [] ∧ segment.seq = seq + (loads pre).length ∧
      (post = [] ∨ ∃ expectedAck received post', post = .waitForDataAck expectedAck received :: post')) ∧
    (∀ pre expectedAck received post, r.1 = pre ++ .waitForDataAck expectedAck received :: post →
      expectedAck = seq + (loads pre).length ∧
      (post = [] ∨ ∃ segment post', post = .send segment :: post' ∧ segment.seq = expectedAck)) := by
  have hr := response_rounds responseData seq ack acked
  exact ⟨response_loads .., response_seq .., fun _ _ _ he => hr.send he, fun _ _ _ _ he => hr.wait he⟩

end EspNetwork.Scapy
