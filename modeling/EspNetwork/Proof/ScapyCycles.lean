import EspNetwork.Spec.ScapyServer

/-!
# Connection cycles and the packets they take

A wait starts with a search of the whole buffer, so a cycle can take a packet an
earlier cycle has taken; the polls that follow it skip old packets and cannot. The
check of a GET ignores its sequence number.

* `newest_of_find`: a search finds the newest packet of the buffer it may take.
* `InSequence.first_data`: TCP gives the first data of a connection its number.
* `Inv.step`: what every search with a fresh newest packet preserves.
* `cycles_separate`: **no packet is taken twice and every GET belongs to its cycle's
  connection**, in every run of such searches and such clients.
-/

namespace EspNetwork.Scapy

open CLib Lts

variable {port : UInt16} {s t : State} {e : Entry} {w : Wait} {rnd : ℕ}

/-! ## What the cycles have taken -/

/-- The packets taken by one kind of wait, newest first. -/
def State.picks (s : State) : Wait → List Pick
  | .syn => s.cycles.map Cycle.syn
  | .ack => []
  | .get => s.cycles.filterMap Cycle.get

/-- The cycles do not share packets, and each GET was sent on the connection its cycle
opened. -/
structure State.Separate (s : State) : Prop where
  nodup : ∀ w, ((s.picks w).map fun p => p.entry.idx).Nodup
  seq : ∀ c ∈ s.cycles, ∀ g ∈ c.get, c.announced = some g.entry.pkt.seq.toNat

/-- From the same client address and port. -/
def sameClient (p q : Packet) : Prop := p.src = q.src ∧ p.sport = q.sport

instance (p q : Packet) : Decidable (sameClient p q) := inferInstanceAs (Decidable (_ ∧ _))

/-- Stored after the last time such a packet of this client was taken, and a GET after
the SYN of the current cycle. -/
def State.Fresh (s : State) (w : Wait) (e : Entry) : Prop :=
  (∀ p ∈ s.picks w, sameClient p.entry.pkt e.pkt → p.after ≤ e.idx) ∧
    (w = .get → ∀ c ∈ s.cycles.head?, c.syn.entry.idx < e.idx)

instance (s : State) (w : Wait) (e : Entry) : Decidable (s.Fresh w e) := inferInstanceAs (Decidable (_ ∧ _))

/-! ## What the clients send -/

/-- The packets of a client to the port that take up sequence numbers: SYNs and data. -/
def flow (port : UInt16) (client : Packet) (l : List Packet) : List Packet :=
  l.filter fun p => sameClient p client ∧ p.dport = port ∧ (isSyn port p ∨ p.load.isSome)

/-- TCP of the clients: data that follows a SYN has the number after it. -/
def InSequence (port : UInt16) (history : List Packet) (pkt : Packet) : Prop :=
  pkt.load.isSome → pkt.dport = port → ∀ y ∈ (flow port pkt history).getLast?, isSyn port y → pkt.seq = y.seq + 1

instance (port : UInt16) (history : List Packet) (pkt : Packet) : Decidable (InSequence port history pkt) :=
  inferInstanceAs (Decidable (_ → _ → ∀ y ∈ _, _))

/-- The client of the current cycle sends its first data after the cycle's SYN, or after a
repetition of it, and `e` is that first data or a repetition of it. -/
def State.FirstData (port : UInt16) (s : State) (e : Entry) : Prop :=
  ∀ c ∈ s.cycles.head?,
    let sent := flow port c.syn.entry.pkt (s.history.drop (c.syn.entry.idx + 1))
    (∀ y ∈ (sent.takeWhile fun p => p.load.isNone).getLast?, y.seq = c.syn.entry.pkt.seq) ∧
      ∀ d ∈ sent.find? fun p => p.load.isSome, e.pkt.seq = d.seq

instance (port : UInt16) (s : State) (e : Entry) : Decidable (s.FirstData port e) :=
  inferInstanceAs (Decidable (∀ c ∈ _, (∀ y ∈ _, _) ∧ ∀ d ∈ _, _))

/-! ## The buffer before a search -/

/-- The packets the wait looks for; a poll skips the old ones. -/
def State.candidates (port : UInt16) (s : State) : List Entry :=
  match s.phase with
  | .wait w .scan _ => s.globalPackets.filter fun e => w.wants port s.conn e.pkt
  | .wait w .poll startTime => s.globalPackets.filter fun e => startTime ≤ e.timestamp && w.wants port s.conn e.pkt
  | _ => []

def State.Newest (port : UInt16) (s : State) (e : Entry) : Prop :=
  e ∈ s.candidates port ∧ ∀ e' ∈ s.candidates port, e'.idx ≤ e.idx

instance (port : UInt16) (s : State) (e : Entry) : Decidable (s.Newest port e) := inferInstanceAs (Decidable (_ ∧ _))

/-- What the newest packet has to be: a fresh one if the whole buffer is searched, the
first data after the SYN if a GET is looked for. -/
def State.Allows (port : UInt16) (s : State) (e : Entry) : Phase → Prop
  | .wait w stage _ => (stage = .scan → s.Fresh w e) ∧ (w = .get → s.FirstData port e)
  | _ => True

instance (port : UInt16) (s : State) (e : Entry) : ∀ phase, Decidable (s.Allows port e phase)
  | .wait _ _ _ => inferInstanceAs (Decidable (_ ∧ _))
  | .cycle | .start _ | .synack | .respond | .stopped => isTrue trivial

/-- What is captured is a client's TCP, and what is newest in the buffer may be taken. -/
def State.Timely (port : UInt16) (s : State) : Action → Prop
  | .store => ∀ p ∈ s.callback, InSequence port s.history p.2
  | .look _ => ∀ e ∈ s.globalPackets, s.Newest port e → s.Allows port e s.phase
  | _ => True

instance (port : UInt16) (s : State) : ∀ a, Decidable (s.Timely port a)
  | .store => inferInstanceAs (Decidable (∀ p ∈ _, _))
  | .look _ => inferInstanceAs (Decidable (∀ e ∈ _, _ → _))
  | .capture _ | .clock _ | .signal | .loop | .start | .test | .sendSynack _ | .respond => isTrue trivial

/-! ## First data -/

theorem mem_flow {client p : Packet} {l : List Packet} :
    p ∈ flow port client l ↔
      p ∈ l ∧ sameClient p client ∧ p.dport = port ∧ (isSyn port p = true ∨ p.load.isSome = true) := by
  simp [flow]

/-- The flow is the same for every packet of the client. -/
theorem flow_congr {p q : Packet} (h : sameClient p q) (l : List Packet) : flow port p l = flow port q l := by
  have hsame : ∀ x, sameClient x p ↔ sameClient x q := fun x => by rw [sameClient, sameClient, h.1, h.2]
  exact List.filter_congr fun x _ => decide_eq_decide.2 (and_congr_left' (hsame x))

/-- The first data of a flow, with the SYNs before it and the packets stored before it. -/
theorem exists_first_data {client d : Packet} {l : List Packet}
    (h : (flow port client l).find? (fun p => p.load.isSome) = some d) :
    ∃ pre post, l = pre ++ d :: post ∧ d ∈ flow port client l ∧
      flow port client pre = (flow port client l).takeWhile fun p => p.load.isNone := by
  have hmem := List.mem_of_find?_eq_some h
  obtain ⟨hd, syns, rest, heq, hsyns⟩ := List.find?_eq_some_iff_append.1 h
  have htake : (flow port client l).takeWhile (fun p => p.load.isNone) = syns := by
    rw [heq, List.takeWhile_append_of_pos (by simpa using hsyns)]
    simp [Option.isNone_eq_false_iff.2 hd]
  obtain ⟨l₁, l₂, rfl, hl₁, hl₂⟩ := List.filter_eq_append_iff.1 heq
  obtain ⟨m, post, rfl, hm, -, -⟩ := List.filter_eq_cons_iff.1 hl₂
  refine ⟨l₁ ++ m, post, by simp, hmem, ?_⟩
  have hnil : flow port client m = [] := List.filter_eq_nil_iff.2 hm
  rw [htake, ← hl₁]
  change List.filter _ _ = _
  rw [List.filter_append]
  exact (congrArg _ hnil).trans (List.append_nil _)

/-- **The first data after a SYN has the number after it**, whatever the client sent
before the SYN: it follows the SYN or a repetition of it. -/
theorem InSequence.first_data {history : List Packet} {syn d : Packet} {i : ℕ}
    (hn : ∀ pre p post, history = pre ++ p :: post → InSequence port pre p) (hsyn : isSyn port syn = true)
    (hi : history[i]? = some syn)
    (hlast : ∀ y ∈ ((flow port syn (history.drop (i + 1))).takeWhile fun p => p.load.isNone).getLast?, y.seq = syn.seq)
    (hd : (flow port syn (history.drop (i + 1))).find? (fun p => p.load.isSome) = some d) : d.seq = syn.seq + 1 := by
  obtain ⟨mid, post, heq, hmem, hmid⟩ := exists_first_data hd
  have hload : d.load.isSome = true := by simpa using List.find?_some hd
  obtain ⟨-, hclient, hport, -⟩ := mem_flow.1 hmem
  have hsplit : history = (history.take i ++ syn :: mid) ++ d :: post := by
    obtain ⟨hlt, hget⟩ := List.getElem?_eq_some_iff.1 hi
    calc history = history.take i ++ history.drop i := (List.take_append_drop i history).symm
      _ = history.take i ++ syn :: history.drop (i + 1) := by rw [List.drop_eq_getElem_cons hlt, hget]
      _ = (history.take i ++ syn :: mid) ++ d :: post := by rw [heq, List.append_assoc, List.cons_append]
  have hflow : flow port d (history.take i ++ syn :: mid) =
      flow port syn (history.take i) ++ syn :: flow port syn mid := by
    rw [flow_congr hclient]
    have hown : syn.dport = port := (of_decide_eq_true hsyn).1
    simp [flow, sameClient, List.filter_append, hsyn, hown]
  -- what it follows is a SYN with the number of the first
  have hnum := hn _ _ _ hsplit hload hport
  rw [hflow, hmid] at hnum
  rcases List.eq_nil_or_concat ((flow port syn (history.drop (i + 1))).takeWhile fun p => p.load.isNone) with
    hnil | ⟨as, y, hcons⟩
  · rw [hnil] at hnum
    exact hnum syn (by simp) hsyn
  · have hy : y ∈ (flow port syn (history.drop (i + 1))).takeWhile fun p => p.load.isNone := by
      rw [hcons]
      simp
    have hnone := List.mem_takeWhile_imp hy
    have hsyn' : isSyn port y = true := by
      obtain ⟨-, -, -, h | h⟩ := mem_flow.1 ((List.takeWhile_prefix _).subset hy)
      · exact h
      · simp [Option.isNone_iff_eq_none.1 hnone] at h
    rw [hcons, List.concat_eq_append] at hnum hlast
    rw [hnum y (by simp [List.getLast?_cons]) hsyn', hlast y (by simp)]

/-! ## Searches -/

/-- A search from the newest end finds the newest packet it may take. -/
theorem newest_of_find {p : Entry → Bool} {l : List Entry} (ho : l.Pairwise fun a b => a.idx < b.idx)
    (h : l.reverse.find? p = some e) : e ∈ l.filter p ∧ ∀ e' ∈ l.filter p, e'.idx ≤ e.idx := by
  obtain ⟨he, newer, older, heq, hnewer⟩ := List.find?_eq_some_iff_append.1 h
  obtain rfl : l = older.reverse ++ e :: newer.reverse := by
    rw [← l.reverse_reverse, heq]
    simp
  refine ⟨by simp [he], fun e' he' => ?_⟩
  obtain ⟨hmem, hp⟩ := List.mem_filter.1 he'
  simp only [List.mem_append, List.mem_reverse, List.mem_cons] at hmem
  rcases hmem with hmem | rfl | hmem
  · exact (List.pairwise_append.1 ho).2.2 e' (List.mem_reverse.2 hmem) e List.mem_cons_self |>.le
  · exact le_rfl
  · exact absurd hp (by simpa using hnewer e' hmem)

/-- **A search finds the newest packet of the buffer** that the wait wants. -/
theorem newest_of_found (ho : s.globalPackets.Pairwise fun a b => a.idx < b.idx) (h : s.found port = some e) :
    s.Newest port e ∧ ∃ w stage start, s.phase = .wait w stage start ∧ e ∈ s.globalPackets ∧
      w.wants port s.conn e.pkt = true := by
  unfold State.found at h
  split at h
  · rename_i w start hp
    have hnew := newest_of_find ho h
    refine ⟨by simpa only [State.Newest, State.candidates, hp] using hnew, w, _, start, hp, ?_⟩
    exact List.mem_filter.1 hnew.1
  · rename_i w start hp
    have hnew := newest_of_find ho h
    obtain ⟨he, hwant⟩ := List.mem_filter.1 hnew.1
    exact ⟨by simpa only [State.Newest, State.candidates, hp] using hnew, w, _, start, hp, he,
      (Bool.and_eq_true_iff.1 hwant).2⟩
  · cases h

/-- A search of the whole buffer that finds nothing leaves nothing to find. -/
theorem found_none {start : ℕ} (hp : s.phase = .wait w .scan start) (h : s.found port = none) :
    ∀ e ∈ s.globalPackets, ¬ w.wants port s.conn e.pkt = true := by
  simp only [State.found, hp, List.find?_eq_none, List.mem_reverse] at h
  exact h

theorem keepLast_sublist (l : List Entry) : (keepLast l).Sublist l := by
  unfold keepLast
  split
  · exact List.tail_sublist l
  · exact List.Sublist.refl l

/-! ## The invariant -/

/-- The buffer holds packets of the history in its order, and the clients' data is
numbered as TCP does. -/
structure Buffered (port : UInt16) (history : List Packet) (l : List Entry) : Prop where
  stored : ∀ e ∈ l, history[e.idx]? = some e.pkt
  ordered : l.Pairwise fun a b => a.idx < b.idx
  numbered : ∀ pre p post, history = pre ++ p :: post → InSequence port pre p

theorem Buffered.idx_lt {history : List Packet} {l : List Entry} (h : Buffered port history l) (he : e ∈ l) :
    e.idx < history.length := (List.getElem?_eq_some_iff.1 (h.stored e he)).1

/-- **A packet is stored** at the end of the buffer. -/
theorem Buffered.store {history : List Packet} {l : List Entry} {timestamp : ℕ} {pkt : Packet}
    (h : Buffered port history l) (hn : InSequence port history pkt) :
    Buffered port (history ++ [pkt]) (keepLast (l ++ [⟨timestamp, pkt, history.length⟩])) := by
  have hsub := keepLast_sublist (l ++ [⟨timestamp, pkt, history.length⟩])
  refine ⟨fun e he => ?_, List.Pairwise.sublist hsub ?_, fun pre p post heq => ?_⟩
  · rcases List.mem_append.1 (hsub.subset he) with he | he
    · rw [List.getElem?_append_left (h.idx_lt he)]
      exact h.stored e he
    · obtain rfl := List.mem_singleton.1 he
      simp
  · refine List.pairwise_append.2 ⟨h.ordered, List.pairwise_singleton _ _, fun a ha b hb => ?_⟩
    obtain rfl := List.mem_singleton.1 hb
    exact h.idx_lt ha
  · rcases List.eq_nil_or_concat post with rfl | ⟨post, q, rfl⟩
    · obtain ⟨rfl, hp⟩ := List.append_inj' heq rfl
      obtain rfl := List.singleton_injective hp
      exact hn
    · have hcut : history ++ [pkt] = (pre ++ p :: post) ++ [q] := by simpa using heq
      exact h.numbered pre p post (List.append_inj' hcut rfl).1

/-- A pick is an element of the history, made after it was stored. -/
structure Pick.Sound (history : List Packet) (p : Pick) : Prop where
  get : history[p.entry.idx]? = some p.entry.pkt
  lt : p.entry.idx < p.after
  le : p.after ≤ history.length

theorem Pick.Sound.append {history : List Packet} {p : Pick} (h : p.Sound history) (q : Packet) :
    p.Sound (history ++ [q]) := by
  have hlt : p.entry.idx < history.length := lt_of_lt_of_le h.lt h.le
  refine ⟨?_, h.lt, ?_⟩
  · rw [List.getElem?_append_left hlt]
    exact h.get
  · rw [List.length_append]
    exact le_trans h.le (Nat.le_add_right _ _)

/-- Between the SYN and the GET of a cycle. -/
def Phase.inCycle : Phase → Bool
  | .synack => true
  | .start w => w ≠ .syn
  | .wait w _ _ => w ≠ .syn
  | _ => false

/-- The newest cycle is the one being served. -/
structure State.Serves (port : UInt16) (s : State) (c : Cycle) (rest : List Cycle) (conn : Conn) : Prop where
  newest : s.cycles = c :: rest
  client : s.conn = some conn
  opened : isSyn port c.syn.entry.pkt = true
  ip : conn.clientIp = c.syn.entry.pkt.src
  sport : conn.clientPort = c.syn.entry.pkt.sport
  ack : conn.ack = c.syn.entry.pkt.seq.toNat + 1
  get : c.get = none
  /-- the SYN/ACK was packed -/
  announced : s.phase ≠ .synack → c.announced = some conn.ack ∧ conn.ack < 2 ^ 32

theorem State.Serves.congr {c : Cycle} {rest : List Cycle} {conn : Conn} (h : s.Serves port c rest conn)
    (hc : t.cycles = s.cycles) (hconn : t.conn = s.conn) (hsyn : s.phase = .synack → t.phase = .synack) :
    t.Serves port c rest conn :=
  { h with
    newest := hc.trans h.newest
    client := hconn.trans h.client
    announced := fun hne => h.announced fun hp => hne (hsyn hp) }

/-- After the search of the whole buffer, what the polls can find is fresh. -/
def State.Scanned (port : UInt16) (s : State) : Prop :=
  ∀ w stage start, s.phase = .wait w stage start → stage ≠ .scan →
    ∀ e ∈ s.globalPackets, w.wants port s.conn e.pkt = true → s.Fresh w e

structure Inv (port : UInt16) (s : State) : Prop where
  buffer : Buffered port s.history s.globalPackets
  picks : ∀ w, ∀ p ∈ s.picks w, p.Sound s.history
  separate : s.Separate
  serves : s.phase.inCycle = true → ∃ c rest conn, s.Serves port c rest conn
  scanned : s.Scanned port

theorem Inv.init : Inv port (State.machine port).init := by
  have hbuffer : Buffered port ([] : List Packet) [] := ⟨by simp, .nil, by simp⟩
  refine ⟨hbuffer, ?_, ⟨?_, by simp [State.machine]⟩, ?_, ?_⟩
  · intro w
    cases w <;> simp [State.picks, State.machine]
  · intro w
    cases w <;> simp [State.picks, State.machine]
  · intro h
    cases h
  · intro w stage start hp
    cases hp

/-- A fresh packet has not been taken: a pick at the same place would be of the same
packet, hence of the same client, and earlier. -/
theorem Inv.not_mem_picks (hi : Inv port s) (he : e ∈ s.globalPackets) (hf : s.Fresh w e) :
    e.idx ∉ (s.picks w).map fun p => p.entry.idx := by
  intro hmem
  obtain ⟨p, hp, hidx⟩ := List.mem_map.1 hmem
  have hs := hi.picks w p hp
  have hpkt : p.entry.pkt = e.pkt := by
    have hget := hs.get
    rw [hidx, hi.buffer.stored e he] at hget
    exact (Option.some.inj hget).symm
  have hle := hf.1 p hp (by rw [hpkt]; exact ⟨rfl, rfl⟩)
  have hlt := hs.lt
  omega

/-- A pick made now. -/
theorem Inv.sound_now (hi : Inv port s) (he : e ∈ s.globalPackets) :
    Pick.Sound s.history ⟨e, s.history.length⟩ := ⟨hi.buffer.stored e he, hi.buffer.idx_lt he, le_rfl⟩

/-! ## Steps that take nothing -/

/-- Something happens outside the server thread. -/
theorem Inv.outside {now : ℕ} {running : Bool} {callback : Option (ℕ × Packet)} (hi : Inv port s) :
    Inv port { s with now, running, callback } := by
  refine ⟨hi.buffer, hi.picks, ⟨hi.separate.nodup, hi.separate.seq⟩, ?_, hi.scanned⟩
  intro hin
  obtain ⟨c, rest, conn, h⟩ := hi.serves hin
  exact ⟨c, rest, conn, h.congr rfl rfl id⟩

/-- The server goes to a phase that is neither in a cycle nor in a wait. -/
theorem Inv.leave {conn : Option Conn} {phase : Phase} (hi : Inv port s)
    (hp : phase = .cycle ∨ phase = .stopped ∨ phase = .start .syn) : Inv port { s with conn, phase } := by
  refine ⟨hi.buffer, hi.picks, ⟨hi.separate.nodup, hi.separate.seq⟩, ?_, ?_⟩
  · intro hin
    rcases hp with rfl | rfl | rfl <;> cases hin
  · intro w stage start hw
    rcases hp with rfl | rfl | rfl <;> cases hw

/-- A wait begins, or goes on. -/
theorem Inv.wait {stage : Stage} {startTime : ℕ} (hi : Inv port s)
    (hp : s.phase = .start w ∨ ∃ stage' start', s.phase = .wait w stage' start')
    (hscan : stage ≠ .scan → ∀ e ∈ s.globalPackets, w.wants port s.conn e.pkt = true → s.Fresh w e) :
    Inv port { s with phase := .wait w stage startTime } := by
  have hne : s.phase ≠ .synack := by
    rcases hp with hp | ⟨stage', start', hp⟩ <;> rw [hp] <;> exact nofun
  refine ⟨hi.buffer, hi.picks, ⟨hi.separate.nodup, hi.separate.seq⟩, ?_, ?_⟩
  · intro hin
    have hin' : s.phase.inCycle = true := by
      rcases hp with hp | ⟨stage', start', hp⟩ <;> rw [hp] <;> exact hin
    obtain ⟨c, rest, conn, h⟩ := hi.serves hin'
    exact ⟨c, rest, conn, h.congr rfl rfl fun hsyn => absurd hsyn hne⟩
  · intro w' stage' start' hw hstage
    obtain ⟨rfl, rfl, -⟩ := Phase.wait.inj hw
    exact hscan hstage

/-- The SYN of the current cycle is a pick. -/
theorem Inv.syn_lt (hi : Inv port s) : ∀ c ∈ s.cycles.head?, c.syn.entry.idx < s.history.length := by
  intro c hc
  have hs := hi.picks .syn c.syn (List.mem_map_of_mem (List.mem_of_mem_head? hc))
  exact lt_of_lt_of_le hs.lt hs.le

/-- **A packet is stored**: it is fresh for every wait. -/
theorem Inv.store {timestamp : ℕ} {pkt : Packet} (hi : Inv port s) (hn : InSequence port s.history pkt) :
    Inv port { s with
      callback := none
      globalPackets := keepLast (s.globalPackets ++ [⟨timestamp, pkt, s.history.length⟩])
      history := s.history ++ [pkt] } := by
  refine ⟨hi.buffer.store hn, ?_, ⟨hi.separate.nodup, hi.separate.seq⟩, ?_, ?_⟩
  · intro w p hp
    exact (hi.picks w p hp).append pkt
  · intro hin
    obtain ⟨c, rest, conn, h⟩ := hi.serves hin
    exact ⟨c, rest, conn, h.congr rfl rfl id⟩
  · intro w stage start hp hstage e he hwant
    have hmem : e ∈ s.globalPackets ∨ e = ⟨timestamp, pkt, s.history.length⟩ := by
      simpa using (keepLast_sublist _).subset he
    rcases hmem with he | rfl
    · exact hi.scanned w stage start hp hstage e he hwant
    · exact ⟨fun p hpick _ => (hi.picks w p hpick).le, fun _ => hi.syn_lt⟩

/-- The SYN/ACK is sent. -/
theorem Inv.announce {c : Conn} (hi : Inv port s) (hp : s.phase = .synack) (hconn : s.conn = some c)
    (hack : c.ack < 2 ^ 32) :
    Inv port { s with
      phase := .start .ack
      cycles := s.cycles.modifyHead fun cycle => { cycle with announced := some c.ack } } := by
  obtain ⟨cy, rest, conn, h⟩ := hi.serves (by rw [hp]; rfl)
  obtain rfl : c = conn := Option.some.inj (hconn.symm.trans h.client)
  have hpicks : ∀ w, State.picks { s with
      phase := .start .ack
      cycles := s.cycles.modifyHead fun cycle => { cycle with announced := some c.ack } } w = s.picks w := by
    intro w
    cases w <;> simp [State.picks, h.newest, List.filterMap_cons]
  refine ⟨hi.buffer, ?_, ⟨?_, ?_⟩, ?_, ?_⟩
  · intro w
    rw [hpicks w]
    exact hi.picks w
  · intro w
    rw [hpicks w]
    exact hi.separate.nodup w
  · have hseq := hi.separate.seq
    rw [h.newest] at hseq
    simp only [h.newest, List.modifyHead_cons, List.mem_cons, forall_eq_or_imp]
    refine ⟨?_, fun c hc => hseq c (List.mem_cons_of_mem _ hc)⟩
    simp [h.get]
  · intro _
    exact ⟨{ cy with announced := some c.ack }, rest, c, by simp [h.newest], hconn, h.opened, h.ip, h.sport, h.ack,
      h.get, fun _ => ⟨rfl, hack⟩⟩
  · intro w stage start hw
    cases hw

/-! ## Taking a packet -/

/-- One more pick of a fresh packet. -/
theorem Inv.pick (hi : Inv port s) (he : e ∈ s.globalPackets) (hf : s.Fresh w e) (hh : t.history = s.history)
    (hw : t.picks w = ⟨e, s.history.length⟩ :: s.picks w) (hother : ∀ v, v ≠ w → t.picks v = s.picks v) :
    (∀ v, ∀ p ∈ t.picks v, p.Sound t.history) ∧ ∀ v, ((t.picks v).map fun p => p.entry.idx).Nodup := by
  have hsame : ∀ v, v ≠ w → (∀ p ∈ t.picks v, p.Sound t.history) ∧ ((t.picks v).map fun p => p.entry.idx).Nodup := by
    intro v hv
    rw [hother v hv, hh]
    exact ⟨hi.picks v, hi.separate.nodup v⟩
  have hnew : (∀ p ∈ t.picks w, p.Sound t.history) ∧ ((t.picks w).map fun p => p.entry.idx).Nodup := by
    rw [hw, hh, List.map_cons, List.nodup_cons, List.forall_mem_cons]
    exact ⟨⟨hi.sound_now he, hi.picks w⟩, hi.not_mem_picks he hf, hi.separate.nodup w⟩
  have hall : ∀ v, (∀ p ∈ t.picks v, p.Sound t.history) ∧ ((t.picks v).map fun p => p.entry.idx).Nodup := by
    intro v
    by_cases hv : v = w
    · subst hv
      exact hnew
    · exact hsame v hv
  exact ⟨fun v => (hall v).1, fun v => (hall v).2⟩

/-- The SYN of a new cycle. -/
theorem Inv.take_syn (hi : Inv port s) (he : e ∈ s.globalPackets) (hwant : isSyn port e.pkt = true)
    (hf : s.Fresh .syn e) :
    Inv port (s.take e rnd .syn) := by
  have hother : ∀ v, v ≠ .syn → (s.take e rnd .syn).picks v = s.picks v := by
    intro v hv
    cases v with
    | syn => exact absurd rfl hv
    | ack => rfl
    | get => simp [State.picks, State.take]
  obtain ⟨hsound, hnodup⟩ := hi.pick (t := s.take e rnd .syn) he hf rfl rfl hother
  refine ⟨hi.buffer, hsound, ⟨hnodup, ?_⟩, ?_, ?_⟩
  · simp only [State.take, List.mem_cons, forall_eq_or_imp]
    exact ⟨by simp, hi.separate.seq⟩
  · intro _
    exact ⟨_, _, _, rfl, rfl, hwant, rfl, rfl, rfl, rfl, fun h => absurd rfl h⟩
  · intro v stage start hw
    cases hw

/-- The handshake ACK. -/
theorem Inv.take_ack (hi : Inv port s) (hp : s.phase.inCycle = true) (hne : s.phase ≠ .synack) :
    Inv port (s.take e rnd .ack) := by
  obtain ⟨c, rest, conn, h⟩ := hi.serves hp
  refine ⟨hi.buffer, hi.picks, ⟨hi.separate.nodup, hi.separate.seq⟩, ?_, ?_⟩
  · intro _
    refine ⟨c, rest, { conn with seq := conn.seq + 1 }, { h with
      client := ?_
      announced := fun _ => h.announced hne }⟩
    simp [State.take, h.client]
  · intro w stage start hw
    cases hw

/-- **The GET has the announced number**: it repeats the first data its client sent
after the SYN. -/
theorem Inv.get_seq {c : Cycle} {rest : List Cycle} {conn : Conn} (hi : Inv port s) (h : s.Serves port c rest conn)
    (hne : s.phase ≠ .synack) (he : e ∈ s.globalPackets) (hwant : Wait.get.wants port s.conn e.pkt = true)
    (hf : s.Fresh .get e) (hfirst : s.FirstData port e) : c.announced = some e.pkt.seq.toNat := by
  have hnewest : c ∈ s.cycles.head? := by
    rw [h.newest]
    rfl
  obtain ⟨⟨hsrc, hsport, hdport⟩, load, hload, -⟩ : (e.pkt.src = conn.clientIp ∧ e.pkt.sport = conn.clientPort ∧
      e.pkt.dport = port) ∧ ∃ load ∈ e.pkt.load, bytes "GET" <:+: load := by
    simpa [Wait.wants, h.client, isGet, fromClient] using hwant
  have hsome : e.pkt.load.isSome = true := Option.isSome_of_mem hload
  -- it was stored after the SYN
  have hsent : e.pkt ∈ flow port c.syn.entry.pkt (s.history.drop (c.syn.entry.idx + 1)) := by
    refine mem_flow.2 ⟨?_, ⟨hsrc.trans h.ip, hsport.trans h.sport⟩, hdport, .inr hsome⟩
    have hlt := hf.2 rfl c hnewest
    refine List.mem_of_getElem? (i := e.idx - (c.syn.entry.idx + 1)) ?_
    rw [List.getElem?_drop, Nat.add_sub_cancel' hlt]
    exact hi.buffer.stored e he
  obtain ⟨hlast, hrep⟩ := hfirst c hnewest
  obtain ⟨d, hd⟩ : ∃ d, (flow port c.syn.entry.pkt (s.history.drop (c.syn.entry.idx + 1))).find?
      (fun p => p.load.isSome) = some d := by
    rw [← Option.isSome_iff_exists, List.find?_isSome]
    exact ⟨e.pkt, hsent, hsome⟩
  have hsyn := hi.picks .syn c.syn (List.mem_map_of_mem (List.mem_of_mem_head? hnewest))
  have hseq : e.pkt.seq = c.syn.entry.pkt.seq + 1 :=
    (hrep d hd).trans (InSequence.first_data hi.buffer.numbered h.opened hsyn.get hlast hd)
  obtain ⟨hann, hpacked⟩ := h.announced hne
  rw [h.ack] at hpacked
  rw [hann, h.ack, hseq, UInt32.toNat_add, UInt32.toNat_one, Nat.mod_eq_of_lt hpacked]

/-- The GET of the current cycle. -/
theorem Inv.take_get (hi : Inv port s) (hp : s.phase.inCycle = true) (hne : s.phase ≠ .synack)
    (he : e ∈ s.globalPackets) (hwant : Wait.get.wants port s.conn e.pkt = true) (hf : s.Fresh .get e)
    (hfirst : s.FirstData port e) : Inv port (s.take e rnd .get) := by
  obtain ⟨c, rest, conn, h⟩ := hi.serves hp
  have hother : ∀ v, v ≠ .get → (s.take e rnd .get).picks v = s.picks v := by
    intro v hv
    cases v with
    | syn => simp [State.picks, State.take, h.newest]
    | ack => rfl
    | get => exact absurd rfl hv
  have hget : (s.take e rnd .get).picks .get = ⟨e, s.history.length⟩ :: s.picks .get := by
    simp [State.picks, State.take, h.newest, h.get]
  obtain ⟨hsound, hnodup⟩ := hi.pick (t := s.take e rnd .get) he hf rfl hget hother
  refine ⟨hi.buffer, hsound, ⟨hnodup, ?_⟩, ?_, ?_⟩
  · have hseq := hi.separate.seq
    rw [h.newest] at hseq
    simp only [State.take, h.newest, List.modifyHead_cons, List.mem_cons, forall_eq_or_imp]
    refine ⟨?_, fun c hc => hseq c (List.mem_cons_of_mem _ hc)⟩
    intro g hg
    obtain rfl := Option.mem_some.1 hg
    exact hi.get_seq h hne he hwant hf hfirst
  · intro hin
    cases hin
  · intro v stage start hw
    cases hw

/-! ## The step -/

/-- A search: it takes what it finds, or goes back to the loop condition. -/
theorem Inv.look (hi : Inv port s) (hg : s.Timely port (.look rnd)) (h : s.look port rnd = some t) : Inv port t := by
  unfold State.look at h
  split at h
  · cases h
  · rename_i w stage start hstage hp
    simp only [State.Timely, hp, State.Allows] at hg
    split at h
    · rename_i e hfound
      simp only [Option.some.injEq] at h
      subst h
      obtain ⟨hnew, w', stage', start', hp', he, hwant⟩ := newest_of_found hi.buffer.ordered hfound
      obtain ⟨rfl, rfl, rfl⟩ : w = w' ∧ stage = stage' ∧ start = start' := by
        rw [hp] at hp'
        simpa using hp'
      obtain ⟨hfresh, hfirst⟩ := hg e he hnew
      have hf : s.Fresh w e := by
        by_cases hs : stage = .scan
        · exact hfresh hs
        · exact hi.scanned w stage start hp hs e he hwant
      have hne : s.phase ≠ .synack := by
        rw [hp]
        exact nofun
      cases w with
      | syn => exact hi.take_syn he hwant hf
      | ack => exact hi.take_ack (by rw [hp]; rfl) hne
      | get => exact hi.take_get (by rw [hp]; rfl) hne he hwant hf (hfirst rfl)
    · rename_i hfound
      simp only [Option.some.injEq] at h
      subst h
      refine hi.wait (.inr ⟨stage, start, hp⟩) fun _ e he hwant => ?_
      by_cases hs : stage = .scan
      · subst hs
        exact absurd hwant (found_none hp hfound e he)
      · exact hi.scanned w stage start hp hs e he hwant
  · cases h

theorem Inv.step {a : Action} (hi : Inv port s) (hg : s.Timely port a) (h : s.step port a = some t) : Inv port t := by
  cases a with
  | capture pkt =>
    simp only [State.step] at h
    split at h
    · simp only [Option.some.injEq] at h
      subst h
      split
      · exact hi.outside
      · exact hi
    · cases h
  | store =>
    simp only [State.step] at h
    split at h
    · rename_i timestamp pkt hc
      simp only [Option.some.injEq] at h
      subst h
      exact hi.store (hg _ hc)
    · cases h
  | clock now | signal =>
    simp only [State.step, Option.some.injEq] at h
    subst h
    exact hi.outside
  | loop =>
    simp only [State.step] at h
    split at h
    · simp only [Option.some.injEq] at h
      subst h
      split
      · exact hi.leave (.inr (.inr rfl))
      · exact hi.leave (.inr (.inl rfl))
    · cases h
  | start =>
    simp only [State.step] at h
    split at h
    · rename_i w hp
      simp only [Option.some.injEq] at h
      subst h
      split
      · exact hi.leave (.inr (.inl rfl))
      · exact hi.wait (.inl hp) fun hne => absurd rfl hne
    · cases h
  | look rnd =>
    simp only [State.step, Option.ite_none_right_eq_some] at h
    exact hi.look hg h.2
  | test =>
    simp only [State.step] at h
    split at h
    · rename_i w start hp
      simp only [Option.some.injEq] at h
      subst h
      split
      · exact hi.wait (.inr ⟨.test, start, hp⟩) fun _ => hi.scanned w .test start hp nofun
      · exact hi.leave (.inl rfl)
    · cases h
  | sendSynack ok =>
    simp only [State.step] at h
    split at h
    · rename_i hp
      split at h
      · simp only [State.sendSynack] at h
        split at h
        · rename_i c hconn
          split at h
          · rename_i hok
            simp only [Option.some.injEq] at h
            subst h
            exact hi.announce hp hconn hok.2
          · simp only [Option.some.injEq] at h
            subst h
            exact hi.leave (.inl rfl)
        · cases h
      · simp only [Option.some.injEq] at h
        subst h
        exact hi.leave (.inr (.inl rfl))
    · cases h
  | respond =>
    simp only [State.step] at h
    split at h
    · simp only [Option.some.injEq] at h
      subst h
      split
      · exact hi.leave (.inl rfl)
      · exact hi.leave (.inr (.inl rfl))
    · cases h

/-- **Cycles do not share packets** in a run in which, at every search of the whole buffer,
the newest packet it may take is not older than the last one taken from its client, and a
GET is the first data its client sent after the cycle's SYN, with TCP clients. -/
theorem cycles_separate (port : UInt16) (s : State) (h : (State.machine port).Reach (State.Timely port) s) :
    s.Separate := by
  have hi : Inv port s := h.invariant Inv.init fun _ _ _ hi hg hs => hi.step hg hs
  exact hi.separate

/-! ## Runs -/

/-- A packet of the client 10.0.0.2 to port 3333, captured and stored. -/
def packet (sport flags : UInt16) (seq ack : UInt32) (load : Option Bytes) : List Action :=
  [.capture ⟨0x0a000002, sport, 3333, flags, seq, ack, load⟩, .store]

/-- A cycle in which every first search succeeds, with the packets that arrive just
before each. -/
def serve (rnd : ℕ) (syn ack get : List Action) : List Action :=
  List.flatten [[.loop], syn, [.start, .look rnd, .sendSynack true], ack, [.start, .look rnd], get,
    [.start, .look rnd, .respond]]

/-- The requests of two clients, the second of which connects while the first is served.
Then the first connects again from its port, and repeats its SYN and its request. -/
def twoClients : List Action :=
  serve 9 (packet 5000 0x02 100 0 none) (packet 5000 0x10 101 10 none)
    (packet 5000 0x18 101 10 (some (bytes "GET /")) ++ packet 5001 0x02 900 0 none) ++
  serve 70 [] (packet 5001 0x10 901 71 none) (packet 5001 0x18 901 71 (some (bytes "GET /"))) ++
  serve 7 (packet 5000 0x02 400 0 none) (packet 5000 0x02 400 0 none ++ packet 5000 0x10 401 8 none)
    (packet 5000 0x18 401 8 (some (bytes "GET /")) ++ packet 5000 0x18 401 8 (some (bytes "GET /")))

/-- `cycles_separate` after three cycles. -/
theorem cycles_separate_two : ∃ s, (State.machine 3333).Reach (State.Timely 3333) s ∧
    (s.picks .get).length = 3 ∧ s.Separate := by
  have hrun : ((State.machine 3333).exec (State.Timely 3333) (State.machine 3333).init twoClients).map
      (fun s => decide ((s.picks .get).length = 3)) = some true := by decide +kernel
  obtain ⟨s, hs, hlen⟩ := Machine.Reach.of_exec hrun
  exact ⟨s, hs, of_decide_eq_true hlen, cycles_separate 3333 s hs⟩

/-- A client connects twice from one port: its second cycle takes the first GET again,
and a third cycle takes the second SYN again. -/
def portReused : List Action :=
  serve 9 (packet 5000 0x02 100 0 none) (packet 5000 0x10 101 10 none)
    (packet 5000 0x18 101 10 (some (bytes "GET /"))) ++
  serve 70 (packet 5000 0x02 900 0 none) (packet 5000 0x10 901 71 none) [] ++ [.loop, .start, .look 8]

theorem packets_taken_twice : ∃ s, (State.machine 3333).Reach anyStep s ∧
    ¬ ((s.picks .syn).map fun p => p.entry.idx).Nodup ∧ ¬ ((s.picks .get).map fun p => p.entry.idx).Nodup ∧
    ∃ c ∈ s.cycles, ∃ g ∈ c.get, c.announced ≠ some g.entry.pkt.seq.toNat := by
  have hrun : ((State.machine 3333).exec anyStep (State.machine 3333).init portReused).map
      (fun s => decide (¬ ((s.picks .syn).map fun p => p.entry.idx).Nodup ∧
        ¬ ((s.picks .get).map fun p => p.entry.idx).Nodup ∧
        ∃ c ∈ s.cycles, ∃ g ∈ c.get, c.announced ≠ some g.entry.pkt.seq.toNat)) = some true := by decide +kernel
  obtain ⟨s, hs, hp⟩ := Machine.Reach.of_exec hrun
  exact ⟨s, hs, of_decide_eq_true hp⟩

end EspNetwork.Scapy
