import EspNetwork.Proof.ScapyResponse

/-!
# Sequence numbers modulo 2^32

The server adds lengths to Python integers, and nothing reduces them modulo 2^32.

* `ops_numbered`: apart from that, what a cycle sends and expects are the numbers TCP
  requires.
* `Correct`: every number fits in its field, is the required one modulo 2^32, and the
  checks of acknowledgements accept exactly the required one.
* `correct_iff`: **a cycle is correct iff no number of it reaches 2^32**.
-/

namespace EspNetwork.Scapy

open CLib

variable {base : ℤ} {ops pre post : List Op} {op : Op} {x : Exchange}

/-! ## What TCP requires -/

/-- The sequence numbers an operation takes: one for each byte, one for SYN or FIN. -/
def Op.seqLen : Op → ℕ
  | .send s => s.load.length + if s.flags = .sa ∨ s.flags = .fa then 1 else 0
  | .waitForAck _ | .waitForDataAck _ _ => 0

def seqLen (ops : List Op) : ℕ := (ops.map Op.seqLen).sum

/-- The acknowledgement number TCP requires in a segment. -/
def Exchange.requiredAck (x : Exchange) : Flags → ℤ
  | .sa => x.syn.seq.toNat + 1
  | .a | .pa => x.syn.seq.toNat + 1 + (x.get.load.getD []).length
  | .fa => x.fin.seq.toNat + 1

/-- A 32-bit field can hold `v`, and it is `r` modulo 2^32. -/
def Fits (v r : ℤ) : Prop := 0 ≤ v ∧ v < 2 ^ 32 ∧ v ≡ r [ZMOD 2 ^ 32]

/-- What the server puts into its segments and expects in acknowledgements. -/
structure Exchange.Correct (x : Exchange) : Prop where
  sent : ∀ pre s post, x.trace = pre ++ .send s :: post →
    Fits s.seq (x.rnd + seqLen pre) ∧ Fits s.ack (x.requiredAck s.flags)
  handshake : ∀ pre c post p, x.trace = pre ++ .waitForAck c :: post →
    fromClient x.port c p → p.flags &&& 0x10 = 0x10 → p.load = none →
    (isHandshakeAck x.port c p ↔ (p.ack.toNat : ℤ) ≡ x.rnd + seqLen pre [ZMOD 2 ^ 32])
  data : ∀ pre expectedAck received post p, x.trace = pre ++ .waitForDataAck expectedAck received :: post →
    fromClient x.port x.conn p → p.flags &&& 0x10 = 0x10 →
    (isDataAck x.port x.conn expectedAck p ↔ (p.ack.toNat : ℤ) ≡ x.rnd + seqLen pre [ZMOD 2 ^ 32])

/-! ## Numbers without a bound -/

/-- The sequence number of a segment, or the acknowledgement a wait is for. -/
def Op.number : Op → ℤ
  | .send s => s.seq
  | .waitForAck c => c.seq + 1
  | .waitForDataAck expectedAck _ => expectedAck

/-- Numbered from `base` on. -/
def Numbered : ℤ → List Op → Prop
  | _, [] => True
  | base, op :: ops => op.number = base ∧ Numbered (base + op.seqLen) ops

theorem seqLen_cons : seqLen (op :: ops) = op.seqLen + seqLen ops := rfl

theorem seqLen_append : seqLen (ops ++ post) = seqLen ops + seqLen post := by
  simp [seqLen]

/-- Numbers go on where the first part ends. -/
theorem numbered_append : Numbered base (ops ++ post) ↔ Numbered base ops ∧ Numbered (base + seqLen ops) post := by
  induction ops generalizing base with
  | nil => simp [Numbered, seqLen]
  | cons op ops ih =>
    rw [List.cons_append, Numbered, ih, Numbered, and_assoc, seqLen_cons, Nat.cast_add, add_assoc]

/-- A segment has the number of what stands before it. -/
theorem Numbered.number (h : Numbered base (pre ++ op :: post)) : op.number = base + seqLen pre :=
  (numbered_append.1 h).2.1

/-- **The data segments** are numbered from the first on. -/
theorem Rounds.numbered {ack seq : ℤ} (h : Rounds ack seq ops) : Numbered seq ops := by
  induction h with
  | nil => trivial
  | last hne => exact ⟨rfl, trivial⟩
  | cons hne h ih =>
    refine ⟨rfl, ?_, ?_⟩
    · simp [Op.number, Op.seqLen]
    · simpa [Op.seqLen] using ih

/-- They take as many numbers as there are bytes. -/
theorem Rounds.seqLen {ack seq : ℤ} (h : Rounds ack seq ops) : seqLen ops = (loads ops).length := by
  induction h with
  | nil => rfl
  | last hne => simp [Scapy.seqLen, loads, Op.seqLen, Op.load]
  | cons hne h ih =>
    rw [seqLen_cons, seqLen_cons, loads_cons, loads_cons, ih]
    simp [Op.seqLen, Op.load]

theorem Rounds.ack {ack seq : ℤ} {s : Segment} (h : Rounds ack seq ops) (hs : .send s ∈ ops) :
    s.flags = .pa ∧ s.ack = ack := by
  induction h with
  | nil => cases hs
  | last hne =>
    obtain rfl := Op.send.inj (List.mem_singleton.1 hs)
    exact ⟨rfl, rfl⟩
  | cons hne h ih =>
    rcases List.mem_cons.1 hs with he | hs
    · obtain rfl := Op.send.inj he
      exact ⟨rfl, rfl⟩
    · rcases List.mem_cons.1 hs with he | hs
      · cases he
      · exact ih hs

namespace Exchange

/-- `seq` and `ack` when `_send_ack` is called. -/
def ready (x : Exchange) : Conn := x.conn.established.requested x.get

/-- The response of the cycle. -/
def response (x : Exchange) : List Op × ℤ := sendHttpResponse x.responseData x.ready.seq x.ready.ack x.acked

/-- The operations before the FIN/ACK. -/
def body (x : Exchange) : List Op :=
  [.send ⟨.sa, x.conn.seq, x.conn.ack, []⟩, .waitForAck x.conn, .send ⟨.a, x.ready.seq, x.ready.ack, []⟩] ++ x.response.1

def finAck (x : Exchange) : Segment := ⟨.fa, x.response.2, x.fin.seq.toNat + 1, []⟩

theorem ops_eq (x : Exchange) : x.ops = x.body ++ [.send x.finAck] := rfl

theorem seqLen_body (x : Exchange) : seqLen x.body = 1 + (fullPayload x.responseData).length := by
  have hr : seqLen x.response.1 = (fullPayload x.responseData).length := by
    rw [response, (response_rounds ..).seqLen, response_loads]
  rw [body, seqLen_append, hr]
  rfl

/-- The FIN stands behind the whole response. -/
theorem seq_finAck (x : Exchange) : x.finAck.seq = x.rnd + 1 + (fullPayload x.responseData).length :=
  response_seq ..

/-- **Without a bound on the numbers, they are those of TCP.** -/
theorem ops_numbered (x : Exchange) : Numbered x.rnd x.ops := by
  rw [ops_eq, numbered_append, body, numbered_append]
  refine ⟨⟨⟨rfl, rfl, rfl, trivial⟩, ?_⟩, ?_⟩
  · exact (response_rounds ..).numbered
  · refine ⟨?_, trivial⟩
    rw [← body, seqLen_body]
    have hseq := x.seq_finAck
    simp only [Op.number]
    push_cast
    omega

/-- The acknowledgement number of a segment. -/
theorem ack_of_mem {s : Segment} (hs : .send s ∈ x.ops) :
    s.ack = match s.flags with
      | .sa => (x.syn.seq.toNat + 1 : ℤ)
      | .a | .pa => x.get.seq.toNat + (x.get.load.getD []).length
      | .fa => x.fin.seq.toNat + 1 := by
  simp only [ops_eq, body, List.mem_append, List.mem_cons, List.not_mem_nil, or_false, reduceCtorEq, false_or,
    Op.send.injEq] at hs
  rcases hs with ((rfl | rfl) | hs) | rfl
  · simp [conn, Conn.ofSyn]
  · simp [ready, Conn.requested]
  · obtain ⟨hf, ha⟩ := (response_rounds ..).ack hs
    rw [hf, ha]
    simp [ready, Conn.requested]
  · rfl

/-- Before an operation come at most the numbers of SYN and payload. -/
theorem seqLen_le (h : x.ops = pre ++ op :: post) : seqLen pre ≤ 1 + (fullPayload x.responseData).length := by
  rw [ops_eq] at h
  have hlen := congrArg List.length h
  simp only [List.length_append, List.length_cons, List.length_nil] at hlen
  have hbody : x.body <+: x.ops := List.prefix_append ..
  have hpre : pre <+: x.ops := ⟨_, h.symm⟩
  obtain ⟨t, ht⟩ := List.prefix_of_prefix_length_le hpre hbody (by omega)
  rw [← seqLen_body, ← ht, seqLen_append]
  exact Nat.le_add_right ..

end Exchange

/-! ## Exceptions -/

/-- Nothing raises when every segment packs. -/
theorem untilRaise_eq_self (h : ∀ s, .send s ∈ ops → s.packs) : untilRaise ops = ops := by
  induction ops with
  | nil => rfl
  | cons op ops ih =>
    have ih := ih fun s hs => h s (List.mem_cons_of_mem _ hs)
    cases op with
    | send s => rw [untilRaise, if_pos (h s (List.mem_cons_self ..)), ih]
    | waitForAck c | waitForDataAck e r => exact congrArg (List.cons _) ih

/-- If no `send` raises, all are made. -/
theorem untilRaise_complete (h : ∀ s, .send s ∈ untilRaise ops → s.packs) : ∀ s, .send s ∈ ops → s.packs := by
  induction ops with
  | nil => nofun
  | cons op ops ih =>
    intro s hs
    cases op with
    | send s' =>
      have hp : s'.packs := h s' (List.mem_cons_self ..)
      rw [untilRaise, if_pos hp] at h
      rcases List.mem_cons.1 hs with he | hs
      · obtain rfl := Op.send.inj he
        exact hp
      · exact ih (fun s hs => h s (List.mem_cons_of_mem _ hs)) s hs
    | waitForAck c | waitForDataAck e r =>
      have hs : .send s ∈ ops := (List.mem_cons.1 hs).resolve_left nofun
      exact ih (fun s hs => h s (List.mem_cons_of_mem _ hs)) s hs

/-! ## The condition -/

/-- In the range of the field, equal and congruent are the same. -/
theorem field_eq_iff (a : UInt32) {v : ℤ} (h0 : 0 ≤ v) (h1 : v < 2 ^ 32) : (a.toNat : ℤ) = v ↔ a.toNat ≡ v [ZMOD 2 ^ 32] := by
  have ha := a.toNat_lt
  rw [Int.ModEq, Int.emod_eq_of_lt (by omega) (by omega), Int.emod_eq_of_lt h0 h1]

namespace Exchange

/-- No number of the cycle reaches 2^32. -/
def InRange (x : Exchange) : Prop :=
  x.syn.seq.toNat + 1 + (x.get.load.getD []).length < 2 ^ 32 ∧ x.rnd + 1 + (fullPayload x.responseData).length < 2 ^ 32 ∧
    x.fin.seq.toNat + 1 < 2 ^ 32

/-- The GET starts behind the SYN. -/
theorem toNat_get (h : x.syn.seq.toNat + 1 < 2 ^ 32) : x.get.seq.toNat = x.syn.seq.toNat + 1 := by
  rw [x.follows, UInt32.toNat_add]
  exact Nat.mod_eq_of_lt h

/-- **In range**, no sequence number wraps. -/
theorem InRange.seq (h : x.InRange) (he : x.ops = pre ++ op :: post) :
    op.number = x.rnd + seqLen pre ∧ 0 ≤ op.number ∧ op.number < 2 ^ 32 := by
  have hn := x.ops_numbered
  rw [he] at hn
  have hnum := hn.number
  have hle := seqLen_le he
  have hmax := h.2.1
  refine ⟨hnum, ?_, ?_⟩
  · omega
  · omega

/-- Nor does an acknowledgement. -/
theorem InRange.ack {s : Segment} (h : x.InRange) (hs : .send s ∈ x.ops) :
    s.ack = x.requiredAck s.flags ∧ 0 ≤ s.ack ∧ s.ack < 2 ^ 32 := by
  obtain ⟨hget, -, hfin⟩ := h
  have hack := ack_of_mem hs
  have hstart := toNat_get (x := x) (by omega)
  cases hf : s.flags with
  | sa | fa =>
    simp only [hf] at hack
    rw [hack]
    refine ⟨rfl, ?_, ?_⟩ <;> omega
  | a | pa =>
    simp only [hf] at hack
    rw [hack, hstart]
    refine ⟨by rw [requiredAck]; push_cast; ring, ?_, ?_⟩ <;> omega

theorem InRange.packs (h : x.InRange) : ∀ s, .send s ∈ x.ops → s.packs := by
  intro s hs
  obtain ⟨pre, post, he⟩ := List.append_of_mem hs
  have hseq := (h.seq he).2
  exact decide_eq_true ⟨hseq, (h.ack hs).2⟩

/-- **When the sequence arithmetic of a cycle is correct.** -/
theorem correct_iff (x : Exchange) : x.Correct ↔ x.InRange := by
  constructor
  · intro h
    -- every segment fits, so none of them raises
    have hpacks : ∀ s, .send s ∈ x.ops → s.packs := by
      refine untilRaise_complete fun s hs => ?_
      obtain ⟨pre, post, he⟩ := List.append_of_mem hs
      obtain ⟨hseq, hack⟩ := h.sent pre s post he
      exact decide_eq_true ⟨⟨hseq.1, hseq.2.1⟩, hack.1, hack.2.1⟩
    have hsyn := of_decide_eq_true (hpacks ⟨.sa, x.conn.seq, x.conn.ack, []⟩ (by simp [ops_eq, body]))
    have hget := of_decide_eq_true (hpacks ⟨.a, x.ready.seq, x.ready.ack, []⟩ (by simp [ops_eq, body]))
    have hfin := of_decide_eq_true (hpacks x.finAck (by simp [ops_eq]))
    have hseq := x.seq_finAck
    simp only [conn, Conn.ofSyn, ready, Conn.requested, finAck] at hsyn hget hfin hseq
    have hstart := toNat_get (x := x) (by omega)
    refine ⟨?_, ?_, ?_⟩ <;> omega
  · intro h
    have htrace : x.trace = x.ops := untilRaise_eq_self h.packs
    refine ⟨fun pre s post he => ?_, fun pre c post p he hp hflags hload => ?_,
      fun pre e received post p he hp hflags => ?_⟩
    · rw [htrace] at he
      obtain ⟨hnum, hseq⟩ := h.seq he
      obtain ⟨hreq, hack⟩ := h.ack (s := s) (by simp [he])
      exact ⟨⟨hseq.1, hseq.2, by rw [← hnum]; rfl⟩, hack.1, hack.2, by rw [hreq]⟩
    · rw [htrace] at he
      obtain ⟨hnum, h0, h1⟩ := h.seq he
      rw [← hnum, ← field_eq_iff p.ack h0 h1]
      have hcast : p.ack.toNat = c.seq + 1 ↔ (p.ack.toNat : ℤ) = c.seq + 1 := by omega
      simp [isHandshakeAck, hp, hflags, hload, Op.number, hcast]
    · rw [htrace] at he
      obtain ⟨hnum, h0, h1⟩ := h.seq he
      rw [← hnum, ← field_eq_iff p.ack h0 h1]
      simp [isDataAck, hp, hflags, Op.number]

/-- A client whose SYN carries the last sequence number there is. -/
def lastIsn : Exchange where
  port := 3333
  syn := ⟨0x7F000001, 40000, 3333, 0x02, 0xFFFFFFFF, 0, none⟩
  get := ⟨0x7F000001, 40000, 3333, 0x18, 0, 6, some (bytes "GET / HTTP/1.1")⟩
  fin := ⟨0x7F000001, 40000, 3333, 0x11, 14, 500, none⟩
  rnd := ⟨5, by decide⟩
  acked := fun _ => true
  responseData := []
  follows := by decide

/-- The SYN/ACK for it would acknowledge 2^32. -/
theorem synack_out_of_range : ¬ lastIsn.Correct := by
  intro h
  have htrace : lastIsn.trace = [] ++ .send ⟨.sa, 5, 2 ^ 32, []⟩ :: [] := by decide +kernel
  exact absurd (h.sent _ _ _ htrace).2.2.1 (by decide)

/-! ## The values of a cycle -/

/-- The waits of the server leave in `seq` and `ack` what the exchange goes on with. -/
theorem take_ready (x : Exchange) {s : State} {syn ack get : Entry} (hsyn : syn.pkt = x.syn) (hget : get.pkt = x.get) :
    (((s.take syn x.rnd .syn).take ack 0 .ack).take get 0 .get).conn = some x.ready := by
  simp only [State.take, Option.map_some, hsyn, hget]
  rfl

/-- The SYN/ACK is sent iff its numbers can be packed. -/
theorem sendSynack_packs (x : Exchange) {s : State} (h : s.conn = some x.conn) (ok : Bool) :
    (s.sendSynack ok).map (fun t => decide (t.phase = .start .ack)) =
      some (ok && Segment.packs ⟨.sa, x.conn.seq, x.conn.ack, []⟩) := by
  have hseq := x.rnd.isLt
  have hpacks : Segment.packs ⟨.sa, x.conn.seq, x.conn.ack, []⟩ = decide (x.conn.ack < 2 ^ 32) := by
    rw [Segment.packs, decide_eq_decide]
    simp only [conn, Conn.ofSyn]
    omega
  rw [State.sendSynack, h, hpacks]
  dsimp only
  split
  · rename_i hok
    simp [hok.1]
    omega
  · rename_i hok
    cases ok with
    | true => simpa using hok
    | false => rfl

end Exchange

end EspNetwork.Scapy
