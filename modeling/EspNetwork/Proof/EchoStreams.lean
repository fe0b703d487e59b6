import EspNetwork.Proof.Peers

/-!
# The echoed streams

The server of `EspNetwork.Spec.TcpPeers` seen from its clients: what a client gets back
is what it has sent, whatever the other clients do and whatever descriptors the kernel
reuses.

* `Server.Streams`: on each descriptor the bytes sent back continue to be the bytes
  received, up to what `socket_send` still has in `rx_buffer`.
* `World.Flow`: what a client has sent is what its descriptor has received and what is
  still unread.
* `World.echo_streams`: the two together, for every run.
-/

namespace EspNetwork.Tcp

open CLib Handle Lts

variable {n L fd fd' i : ℕ} {log : List Call} {c : Call}

/-! ## The streams of a descriptor -/

/-- What has been received on a descriptor since it was last accepted. -/
def inStream (fd : ℕ) : List Call → Bytes
  | [] => []
  | .accept (.ok fd') :: log => if fd' = fd then [] else inStream fd log
  | .recv fd' (.ok data) :: log => if fd' = fd then inStream fd log ++ data else inStream fd log
  | _ :: log => inStream fd log

/-- What has been sent on a descriptor since it was last accepted. -/
def outStream (fd : ℕ) : List Call → Bytes
  | [] => []
  | .accept (.ok fd') :: log => if fd' = fd then [] else outStream fd log
  | .send fd' _ _ (.ok bs) :: log => if fd' = fd then outStream fd log ++ bs else outStream fd log
  | _ :: log => outStream fd log

/-- A call that neither moves data nor starts a connection. -/
def inert : Call → Bool
  | .accept (.ok _) | .recv _ (.ok _) | .send _ _ _ (.ok _) => false
  | _ => true

@[simp] theorem inStream_accept (fd : ℕ) (log : List Call) : inStream fd (.accept (.ok fd) :: log) = [] := by
  simp [inStream]

@[simp] theorem outStream_accept (fd : ℕ) (log : List Call) : outStream fd (.accept (.ok fd) :: log) = [] := by
  simp [outStream]

theorem inStream_accept_ne (h : fd' ≠ fd) : inStream fd (.accept (.ok fd') :: log) = inStream fd log := by
  simp [inStream, h]

theorem outStream_accept_ne (h : fd' ≠ fd) : outStream fd (.accept (.ok fd') :: log) = outStream fd log := by
  simp [outStream, h]

/-- What `recv` returns is what the connection has sent. -/
@[simp] theorem inStream_recv (fd : ℕ) (data : Bytes) (log : List Call) :
    inStream fd (.recv fd (.ok data) :: log) = inStream fd log ++ data := by
  simp [inStream]

theorem inStream_recv_ne {data : Bytes} (h : fd' ≠ fd) :
    inStream fd (.recv fd' (.ok data) :: log) = inStream fd log := by
  simp [inStream, h]

@[simp] theorem outStream_recv (fd fd' : ℕ) (r : Except Errno Bytes) (log : List Call) :
    outStream fd (.recv fd' r :: log) = outStream fd log := rfl

/-- What `send` accepts goes to the connection. -/
@[simp] theorem outStream_send (fd : ℕ) (o m : ℤ) (bs : Bytes) (log : List Call) :
    outStream fd (.send fd o m (.ok bs) :: log) = outStream fd log ++ bs := by
  simp [outStream]

theorem outStream_send_ne {o m : ℤ} {bs : Bytes} (h : fd' ≠ fd) :
    outStream fd (.send fd' o m (.ok bs) :: log) = outStream fd log := by
  simp [outStream, h]

@[simp] theorem inStream_send (fd fd' : ℕ) (o m : ℤ) (r : Except Errno Bytes) (log : List Call) :
    inStream fd (.send fd' o m r :: log) = inStream fd log := rfl

/-- An inert call moves no byte to the server. -/
theorem inStream_inert (h : inert c = true) (fd : ℕ) : inStream fd (c :: log) = inStream fd log := by
  cases c with
  | accept r | recv _ r =>
    cases r with
    | ok x => exact absurd h (by simp [inert])
    | error e => rfl
  | _ => rfl

/-- An inert call moves no byte to a client. -/
theorem outStream_inert (h : inert c = true) (fd : ℕ) : outStream fd (c :: log) = outStream fd log := by
  cases c with
  | accept r | send _ _ _ r =>
    cases r with
    | ok x => exact absurd h (by simp [inert])
    | error e => rfl
  | _ => rfl

/-! ## What the server sends back -/

namespace Server

variable {s t : Server} {l : Label}

/-- The descriptor whose service has not ended. -/
def busy (s : Server) : Option ℕ :=
  match s.pc with
  | .send i _ _ | .close i => s.sock[i]?.join
  | _ => none

/-- What `socket_send` has not sent yet. -/
def owed (s : Server) : Bytes :=
  match s.pc with
  | .send _ len toWrite => (s.rxBuffer.data.take len).drop (len - toWrite).toNat
  | _ => []

/-- Between services nothing is owed; a service that has failed leaves a shorter stream
behind on a descriptor that is closed next. -/
structure Streams (s : Server) : Prop where
  back (fd : ℕ) : outStream fd s.log <+: inStream fd s.log
  kept (fd : ℕ) (ho : fd ∈ s.openSocks) (hb : s.busy ≠ some fd) : outStream fd s.log = inStream fd s.log
  owed {i len : ℕ} {w : ℤ} (hpc : s.pc = .send i len w) (fd : ℕ) (hfd : s.sock[i]? = some (some fd)) :
    outStream fd s.log ++ s.owed = inStream fd s.log

/-- Outside the send loop no descriptor is being served. -/
theorem busy_eq_none (h : (∀ i len w, s.pc ≠ .send i len w) ∧ ∀ i, s.pc ≠ .close i) : s.busy = none := by
  unfold busy
  split
  · rename_i i len w hpc; exact absurd hpc (h.1 i len w)
  · rename_i i hpc; exact absurd hpc (h.2 i)
  · rfl

/-- In the send loop it is the one of the slot at hand. -/
theorem busy_send {len : ℕ} {w : ℤ} (hpc : s.pc = .send i len w) : s.busy = s.sock[i]?.join := by
  unfold busy
  rw [hpc]

theorem sendLoop_pos {len : ℕ} {w : ℤ} (h : 0 < w) : sendLoop i len w = .send i len w := if_pos h

/-- A step that moves no data and finishes no service. -/
theorem Streams.quiet (h : s.Streams) (hr : ∀ fd, inStream fd t.log = inStream fd s.log)
    (hb : ∀ fd, outStream fd t.log = outStream fd s.log) (hpc : ∀ i len w, t.pc ≠ .send i len w)
    (hopen : ∀ fd ∈ t.openSocks, t.busy ≠ some fd → fd ∈ s.openSocks ∧ s.busy ≠ some fd) : t.Streams where
  back fd := by rw [hr, hb]; exact h.back fd
  kept fd ho hbusy := by
    obtain ⟨ho, hbusy⟩ := hopen fd ho hbusy
    rw [hr, hb]
    exact h.kept fd ho hbusy
  owed hsend := absurd hsend (hpc _ _ _)

/-- **A new connection** starts with empty streams. -/
theorem Streams.accepted {k : ℕ} (h : s.Streams) (hpc : s.pc = .accept k)
    (hlog : t.log = .accept (.ok fd) :: s.log) (hL : t.listenSock = s.listenSock) (ht : t.pc = .fcntl k) :
    t.Streams := by
  have hbusy : s.busy = none := busy_eq_none (by simp [hpc])
  have hsame : ∀ fd', outStream fd' s.log = inStream fd' s.log →
      outStream fd' t.log = inStream fd' t.log := by
    intro fd' he
    rw [hlog]
    by_cases hne : fd = fd'
    · subst hne; simp
    · rw [outStream_accept_ne hne, inStream_accept_ne hne, he]
  refine ⟨?_, ?_, fun hsend => by simp [ht] at hsend⟩
  · intro fd'
    rw [hlog]
    by_cases hne : fd = fd'
    · subst hne; simp
    · rw [outStream_accept_ne hne, inStream_accept_ne hne]
      exact h.back fd'
  · intro fd' ho _
    by_cases hne : fd = fd'
    · subst hne; rw [hlog]; simp
    · -- every other open descriptor was open before
      have ho' : fd' ∈ s.openSocks := by
        rw [openSocks_eq, hL, hlog] at ho
        rcases List.mem_cons.1 ho with rfl | ho
        · exact absurd rfl hne
        · exact ho
      exact hsame fd' (h.kept fd' ho' (by simp [hbusy]))

/-- The bytes in `rx_buffer` behind those sent so far. -/
theorem owed_send {len : ℕ} {w : ℤ} (hpc : s.pc = .send i len w) :
    s.owed = (s.rxBuffer.data.take len).drop (len - w).toNat := by
  unfold owed
  rw [hpc]

/-- **A service starts**: what has been received is owed. -/
theorem Streams.received {data : Bytes} {rx : Arr 128} (h : s.Streams) (hi : Inv n s) (hpc : s.pc = .serve i)
    (hfd : s.sock[i]? = some (some fd)) (hrx : s.rxBuffer.store 0 data = some rx) :
    Streams { s with rxBuffer := rx, pc := .send i data.length data.length
                     log := .recv fd (.ok data) :: s.log } := by
  have hbusy : s.busy = none := busy_eq_none (by simp [hpc])
  have hmem : fd ∈ s.openSocks := mem_open_of_slot ((slots_of_loop (by simp [InLoop, hpc])).1 hi.slots).1 hfd
  have heq : outStream fd s.log = inStream fd s.log := h.kept fd hmem (by simp [hbusy])
  refine ⟨?_, ?_, ?_⟩
  · intro fd'
    by_cases hne : fd = fd'
    · subst hne
      simp [heq]
    · rw [outStream_recv, inStream_recv_ne hne]
      exact h.back fd'
  · intro fd' ho hb
    have hne : fd ≠ fd' := by
      intro he
      simp [busy, hfd, he] at hb
    rw [outStream_recv, inStream_recv_ne hne]
    exact h.kept fd' ho (by simp [hbusy])
  · intro j len w hsend fd' hfd'
    obtain ⟨rfl, rfl, rfl⟩ := Pc.send.inj hsend
    obtain rfl : fd = fd' := by
      rw [hfd] at hfd'
      simpa using hfd'
    obtain ⟨-, hb⟩ := Arr.store_eq_some_iff.1 hrx
    rw [owed_send rfl, outStream_recv, inStream_recv, heq, sub_self, hb]
    simp

/-- **One turn of `socket_send`**: what `send` has accepted is owed no longer. -/
theorem Streams.sent {len k : ℕ} {w : ℤ} (h : s.Streams) (hi : Inv n s) (hpc : s.pc = .send i len w)
    (hfd : s.sock[i]? = some (some fd)) (hkw : k ≤ w) : Streams
      { s with pc := sendLoop i len (w - k)
               log := .send fd (len - w) w (.ok ((s.rxBuffer.data.drop (len - w).toNat).take k)) :: s.log } := by
  obtain ⟨hpos, hle, data, -, hlen, hrx⟩ := hi.sending hpc hfd
  set o := ((len : ℤ) - w).toNat with ho
  have hnext : ((len : ℤ) - (w - k)).toNat = o + k := by omega
  have howed : outStream fd s.log ++ (s.rxBuffer.data.take len).drop o = inStream fd s.log := by
    rw [← h.owed hpc fd hfd, owed_send hpc]
  -- the bytes that `send` has accepted are the first of those owed
  have hsplit : (s.rxBuffer.data.take len).drop o =
      (s.rxBuffer.data.drop o).take k ++ (s.rxBuffer.data.take len).drop (o + k) := by
    have htake : (s.rxBuffer.data.drop o).take k = ((s.rxBuffer.data.take len).drop o).take k := by
      rw [List.drop_take, List.take_take, min_eq_left (by omega)]
    rw [htake, ← List.drop_drop, List.take_append_drop]
  have hsent : outStream fd s.log ++ (s.rxBuffer.data.drop o).take k ++
      (s.rxBuffer.data.take len).drop (o + k) = inStream fd s.log := by
    rw [List.append_assoc, ← hsplit, howed]
  have hbusy : s.busy = some fd := by simp [busy, hpc, hfd]
  refine ⟨?_, ?_, ?_⟩
  · intro fd'
    by_cases hne : fd = fd'
    · subst hne
      rw [outStream_send, inStream_send]
      exact ⟨_, hsent⟩
    · rw [outStream_send_ne hne]
      exact h.back fd'
  · intro fd' hopen hb
    by_cases hne : fd = fd'
    · subst hne
      -- the service has ended, so that all of `len` has been sent
      have hend : ¬ 0 < w - k := by
        intro hmore
        rw [busy_send (sendLoop_pos hmore)] at hb
        exact hb (by rw [hfd]; rfl)
      have hdone : (s.rxBuffer.data.take len).drop (o + k) = [] := by
        apply List.drop_eq_nil_of_le
        rw [hrx]
        omega
      rw [hdone, List.append_nil] at hsent
      rw [outStream_send, inStream_send, hsent]
    · rw [outStream_send_ne hne]
      exact h.kept fd' hopen (by simp [hbusy, hne])
  · intro j len' w' hsend fd' hfd'
    simp only [sendLoop] at hsend
    split at hsend
    · obtain ⟨rfl, rfl, rfl⟩ := Pc.send.inj hsend
      obtain rfl : fd = fd' := by
        rw [hfd] at hfd'
        simpa using hfd'
      rw [owed_send (sendLoop_pos ‹_›), outStream_send, inStream_send, hnext]
      exact hsent
    · exact absurd hsend (by simp)

/-- Closing a descriptor leaves the other open ones. -/
theorem mem_open_close (hi : Inv n s) (hfd : fd ∈ opened s.listenSock s.log)
    (ho : fd' ∈ opened s.listenSock (.close fd :: s.log)) : fd' ∈ s.openSocks ∧ fd' ≠ fd := by
  rw [(hi.hist.release hfd).2.1] at ho
  have hnd : (opened s.listenSock s.log).Nodup := live_nodup hi.hist.proper
  exact ⟨List.mem_of_mem_erase ho, (hnd.mem_erase_iff.1 ho).1⟩

/-- A call that opens and closes no client's descriptor. -/
theorem opened_stay (L fd : ℕ) (log : List Call) (hc : event L c = none ∨ event L c = some (.use fd)) :
    opened L (c :: log) = opened L log := by
  rw [opened, opened, List.filterMap_cons]
  rcases hc with hc | hc
  · rw [hc]
  · rw [hc]; rfl

/-- **Every step keeps the streams.** -/
theorem Streams.step (h : s.Streams) (hi : Inv n s) (hg : Env s l) (hs : s.step l = some t) : t.Streams := by
  have hidle : (∀ i len w, s.pc ≠ .send i len w) ∧ (∀ i, s.pc ≠ .close i) → ∀ fd, s.busy ≠ some fd := by
    intro hpc fd
    simp [busy_eq_none hpc]
  cases step_cases hs with
  | free hpc | full hpc | skip hpc | sweepSkip hpc | sweepEnd hpc =>
    have hidle := hidle (by simp [hpc])
    exact h.quiet (fun _ => rfl) (fun _ => rfl) (by simp) fun fd ho _ => ⟨ho, hidle fd⟩
  | accepted hpc => exact h.accepted hpc rfl rfl rfl
  | noClient hpc | acceptFailed hpc | fcntl hpc | fcntlFailed hpc | pass hpc =>
    have hidle := hidle (by simp [hpc])
    refine h.quiet (fun _ => rfl) (fun _ => rfl) (by simp) fun fd ho _ => ⟨?_, hidle fd⟩
    rwa [openSocks_eq, opened_stay _ 0 _ (.inl rfl)] at ho
  | received hpc hfd hrx hne => exact h.received hi hpc hfd hrx
  | @receivedEnd i fd rx hpc hfd hrx =>
    have hidle := hidle (by simp [hpc])
    refine h.quiet ?_ (fun _ => rfl) (by simp) fun fd' ho _ => ⟨?_, hidle fd'⟩
    · intro fd'
      by_cases hne : fd = fd'
      · subst hne; simp
      · exact inStream_recv_ne hne
    · rwa [openSocks_eq, opened_stay _ fd _ (.inr rfl)] at ho
  | @noData i fd e hpc hfd he | @recvFailed i fd e hpc hfd he =>
    have hidle := hidle (by simp [hpc])
    refine h.quiet (fun _ => rfl) (fun _ => rfl) (by simp) fun fd' ho _ => ⟨?_, hidle fd'⟩
    rwa [openSocks_eq, opened_stay _ fd _ (.inr rfl)] at ho
  | sent hpc hfd ho hk => exact h.sent hi hpc hfd hk
  | sentNone hpc hfd ho he => exact absurd (he.symm.trans hg) (by decide)
  | @sendFailed i fd len w e hpc hfd hlen he =>
    -- the service ends here, and the descriptor is closed next
    refine h.quiet (fun _ => rfl) (fun _ => rfl) (by simp) fun fd' ho hb => ⟨?_, ?_⟩
    · rwa [openSocks_eq, opened_stay _ fd _ (.inr rfl)] at ho
    · rw [busy_send hpc]
      exact hb
  | @close i fd hpc hfd =>
    have hmem := mem_open_of_slot ((slots_of_loop (by simp [InLoop, hpc])).1 hi.slots).1 hfd
    refine h.quiet (fun _ => rfl) (fun _ => rfl) (by simp) fun fd' ho _ => ?_
    obtain ⟨ho, hne⟩ := mem_open_close hi hmem ho
    refine ⟨ho, ?_⟩
    simp only [busy, hpc, hfd, Option.join_some, ne_eq, Option.some.injEq]
    exact hne.symm
  | error hpc =>
    have hidle := hidle (by simp [hpc])
    refine h.quiet (fun _ => rfl) (fun _ => rfl) (by simp) fun fd ho _ => ⟨?_, hidle fd⟩
    rwa [openSocks_eq, opened_stay _ 0 _ (.inl (by simp [event]))] at ho
  | @sweepClose i fd hpc hfd =>
    have hidle := hidle (by simp [hpc])
    obtain ⟨hp, -⟩ := hi.rest hpc
    rw [reduceOption_drop hfd, List.reduceOption_cons_of_some] at hp
    refine h.quiet (fun _ => rfl) (fun _ => rfl) (by simp) fun fd' ho _ => ?_
    exact ⟨(mem_open_close hi (hp.mem_iff.1 List.mem_cons_self) ho).1, hidle fd'⟩

theorem streams_init (n L : ℕ) : Streams (init n L) where
  back fd := List.nil_prefix
  kept fd ho := by cases ho
  owed hpc := by cases hpc

/-- **Every reachable state** of the server relates the streams. -/
theorem streams_of_reach (h : (machine n L).Reach Env s) : s.Streams := by
  obtain ⟨ls, h⟩ := h
  induction h with
  | nil => exact streams_init n L
  | snoc hrun hg hs ih => exact ih.step (inv_of_reach ⟨_, hrun⟩) hg hs

end Server

/-- An `accept` is chosen by the environment. -/
theorem Server.accept_call {s t : Server} {l : Label} {r : Except Errno ℕ} (hs : s.step l = some t)
    (hlog : t.log = .accept r :: s.log) : l = .accept r := by
  cases Server.step_cases hs with
  | accepted | noClient | acceptFailed =>
    obtain rfl := Call.accept.inj (List.cons.inj hlog).1
    rfl
  | _ => simp at hlog

/-! ## What a client has sent -/

/-- What the steps of a run have sent from one client. -/
def clientSent (j : ℕ) (ls : List WorldLabel) : Bytes :=
  ls.flatMap fun
    | .send c data => if c = j then data else []
    | _ => []

theorem clientSent_append (j : ℕ) (ls ks : List WorldLabel) :
    clientSent j (ls ++ ks) = clientSent j ls ++ clientSent j ks := List.flatMap_append

theorem clientSent_send (j : ℕ) (data : Bytes) : clientSent j [.send j data] = data := by
  simp [clientSent]

theorem clientSent_other {j : ℕ} {l : WorldLabel} (h : ∀ data, l ≠ .send j data) : clientSent j [l] = [] := by
  cases l with
  | send c data =>
    by_cases hc : c = j
    · subst hc; exact absurd rfl (h data)
    · simp [clientSent, hc]
  | _ => rfl

/-! ## What the kernel does to an inbox -/

variable {peers qs : List Peer} {p q : Peer} {j : ℕ}

/-- What `recv` returns leaves the front of the inbox. -/
theorem Peer.recv_inbox {r : Except Errno Bytes} (h : p.recv r = some q) :
    (∀ data, r = .ok data → p.inbox = data ++ q.inbox) ∧ (∀ e, r = .error e → q.inbox = p.inbox) := by
  unfold Peer.recv at h
  split at h
  · rename_i data
    refine ⟨?_, by simp⟩
    rintro _ ⟨⟩
    split at h
    · exact absurd h (by simp)
    split at h
    · rename_i hemp
      obtain rfl : data = [] := by simpa using hemp
      split at h
      · simp only [Option.some.injEq] at h; subst h
        rfl
      · exact absurd h (by simp)
    · split at h
      · rename_i hpre
        simp only [Option.some.injEq] at h; subst h
        obtain ⟨rest, hrest⟩ := List.isPrefixOf_iff_prefix.1 hpre
        simp only [← hrest, List.drop_left]
      · exact absurd h (by simp)
  · refine ⟨by simp, fun _ _ => ?_⟩
    split at h
    · split at h
      · exact absurd h (by simp)
      · simp only [Option.some.injEq] at h; subst h
        rfl
    · split at h
      · simp only [Option.some.injEq] at h; subst h
        rfl
      · exact absurd h (by simp)

/-- A send leaves the inbox alone. -/
theorem Peer.send_inbox {r : Except Errno Bytes} (h : p.send r = some q) : q.inbox = p.inbox := by
  unfold Peer.send at h
  split at h
  · split at h
    · exact absurd h (by simp)
    · simp only [Option.some.injEq] at h; subst h
      rfl
  · simp only [Option.some.injEq] at h; subst h
    rfl

/-- What one call does to one client. -/
inductive Turn (p q : Peer) : Call → Prop
  /-- the bytes a `recv` hands out leave the inbox behind its descriptor -/
  | pulled {fd : ℕ} {data : Bytes} (hp : p.fd = some fd) (hc : q.conn = p.conn) (hb : p.inbox = data ++ q.inbox) :
    Turn p q (.recv fd (.ok data))
  | kept {c : Call} (hc : q.conn = p.conn) (hb : q.inbox = p.inbox)
      (hno : ∀ fd data, c = .recv fd (.ok data) → p.fd ≠ some fd) : Turn p q c
  | accepted {fd : ℕ} (hp : p.conn = .pending) (hq : q.conn = .accepted fd) (hb : q.inbox = p.inbox) :
    Turn p q (.accept (.ok fd))
  | released {fd : ℕ} (hq : q.conn = .released) : Turn p q (.close fd)

/-- A client that the call does not concern. -/
theorem Turn.same (h : ∀ fd data, c = .recv fd (.ok data) → p.fd ≠ some fd) : Turn p p c :=
  .kept rfl rfl h

/-- A call on one descriptor, seen from each client. -/
theorem withPeer_turn {f : Peer → Option Peer} (h : withPeer peers fd f = some qs)
    (hn : (peers.map Peer.fd).reduceOption.Nodup) (hj : qs[j]? = some q)
    (hc : ∀ fd' data, c = .recv fd' (.ok data) → fd' = fd)
    (hf : ∀ p q, p.fd = some fd → f p = some q → Turn p q c) : ∃ p, peers[j]? = some p ∧ Turn p q c := by
  obtain ⟨m, p, q', hm, hp, hq, rfl⟩ := withPeer_spec h
  by_cases hjm : j = m
  · subst hjm
    rw [List.getElem?_set_self (List.getElem?_eq_some_iff.1 hm).1] at hj
    obtain rfl := Option.some.inj hj
    exact ⟨p, hm, hf p q' hp hq⟩
  · rw [List.getElem?_set_ne (Ne.symm hjm)] at hj
    refine ⟨q, hj, .same ?_⟩
    -- no two clients share a descriptor
    intro fd' data he hfd
    obtain rfl := hc fd' data he
    exact hjm (slot_unique hn (by rw [slot_fd hj, hfd]) (by rw [slot_fd hm, hp]))

/-- A call of the server is a turn of each of its connections. -/
theorem kernel_turn (h : kernel peers c = some qs) (hn : (peers.map Peer.fd).reduceOption.Nodup)
    (hj : qs[j]? = some q) : ∃ p, peers[j]? = some p ∧ Turn p q c := by
  cases kernel_cases h with
  | @accepted fd m p hm hp =>
    rcases getElem?_set_cases hj with ⟨rfl, rfl⟩ | hj
    · exact ⟨p, hm, .accepted hp rfl rfl⟩
    · exact ⟨q, hj, .same (by simp)⟩
  | @used _ fd m p q' hev hm hp hq hend hknown =>
    cases c with
    | recv fd r =>
      refine withPeer_turn h hn hj (fun fd' data he => (Call.recv.inj he).1.symm) ?_
      intro p q hp hq
      obtain ⟨hconn, -, -⟩ := Peer.recv_spec hq
      obtain ⟨hok, herr⟩ := Peer.recv_inbox hq
      cases r with
      | ok data => exact .pulled hp hconn (hok data rfl)
      | error e => exact .kept hconn (herr e rfl) (by simp)
    | send fd o m r =>
      refine withPeer_turn h hn hj (by simp) ?_
      intro p q hp hq
      exact .kept (Peer.send_spec hq).1 (Peer.send_inbox hq) (by simp)
    | accept r => cases r <;> exact absurd (hev 0) (by simp [Server.event])
    | close fd =>
      have := hev fd
      simp [Server.event] at this
    | fcntl | usleep => exact absurd (hev 0) (by simp [Server.event])
  | @closed fd m p hm hp =>
    rcases getElem?_set_cases hj with ⟨rfl, rfl⟩ | hj
    · exact ⟨p, hm, .released rfl⟩
    · exact ⟨q, hj, .same (by simp)⟩
  | notClient hno => exact ⟨q, hj, .same (by simp)⟩
  | other hev hf =>
    refine ⟨q, hj, .same ?_⟩
    rintro fd data rfl
    exact absurd (hev 0) (by simp [Server.event])

/-! ## Runs -/

namespace World

variable {w v : World} {l : WorldLabel} {ls : List WorldLabel}

/-- What one client has sent so far is where the stream says: unread before `accept`,
received on its descriptor or unread after. -/
structure FlowAt (w : World) (p : Peer) (sent : Bytes) : Prop where
  pending (hp : p.conn = .pending) : sent = p.inbox
  accepted (fd : ℕ) (hp : p.fd = some fd) : sent = inStream fd w.srv.log ++ p.inbox

structure Flow (w : World) (ls : List WorldLabel) : Prop where
  flow (j : ℕ) (p : Peer) (hj : w.peers[j]? = some p) : w.FlowAt p (clientSent j ls)
  /-- a client that has not connected has sent nothing -/
  absent (j : ℕ) (hj : w.peers[j]? = none) : clientSent j ls = []

theorem flow_init (n L : ℕ) : Flow (machine n L).init [] where
  flow j p hj := by cases hj
  absent j hj := rfl

/-- A new connection has sent nothing yet. -/
theorem Flow.connect (h : Flow w ls) :
    Flow { w with peers := w.peers ++ [⟨.pending, [], false, false, false⟩] } (ls ++ [.connect]) := by
  have hsent : ∀ j, clientSent j (ls ++ [.connect]) = clientSent j ls := by
    intro j
    rw [clientSent_append, clientSent_other (by simp), List.append_nil]
  refine ⟨?_, ?_⟩
  · intro j p hj
    rw [hsent]
    by_cases hlt : j < w.peers.length
    · rw [List.getElem?_append_left hlt] at hj
      obtain ⟨hp, ha⟩ := h.flow j p hj
      exact ⟨hp, ha⟩
    · rw [List.getElem?_append_right (by omega)] at hj
      obtain rfl := List.mem_singleton.1 (List.mem_of_getElem? hj)
      rw [h.absent j (List.getElem?_eq_none (by omega))]
      exact ⟨fun _ => rfl, fun fd hfd => by cases hfd⟩
  · intro j hj
    rw [hsent]
    refine h.absent j (List.getElem?_eq_none ?_)
    have := List.getElem?_eq_none_iff.1 hj
    rw [List.length_append] at this
    omega

/-- What a client does on its own end. -/
theorem client_cases {f : Peer → Option Peer} (hs : w.client j f = some v) :
    ∃ p q, w.peers[j]? = some p ∧ f p = some q ∧ v = { w with peers := w.peers.set j q } := by
  obtain ⟨p, hp, hs⟩ := Option.bind_eq_some_iff.1 hs
  obtain ⟨q, hq, hs⟩ := Option.bind_eq_some_iff.1 hs
  simp only [Option.some.injEq] at hs
  exact ⟨p, q, hp, hq, hs.symm⟩

/-- A client writes to its own stream, or closes or resets it. -/
theorem Flow.client {data : Bytes} (h : Flow w ls) (hj : w.peers[j]? = some p) (hconn : q.conn = p.conn)
    (hinbox : q.inbox = p.inbox ++ data) (hsent : clientSent j [l] = data)
    (hother : ∀ k, k ≠ j → clientSent k [l] = []) :
    Flow { w with peers := w.peers.set j q } (ls ++ [l]) := by
  refine ⟨?_, ?_⟩
  · intro k r hk
    rw [clientSent_append]
    by_cases hkj : k = j
    · subst hkj
      rw [List.getElem?_set_self (List.getElem?_eq_some_iff.1 hj).1] at hk
      obtain rfl := Option.some.inj hk
      obtain ⟨hp, ha⟩ := h.flow k p hj
      rw [hsent]
      refine ⟨?_, ?_⟩
      · intro hpend
        rw [hp (hconn ▸ hpend), hinbox]
      · intro fd hfd
        rw [ha fd ((Peer.fd_congr hconn).symm.trans hfd), hinbox, List.append_assoc]
    · rw [List.getElem?_set_ne (Ne.symm hkj)] at hk
      rw [hother k hkj, List.append_nil]
      obtain ⟨hp, ha⟩ := h.flow k r hk
      exact ⟨hp, ha⟩
  · intro k hk
    have hkj : k ≠ j := by
      rintro rfl
      rw [List.getElem?_set_self (List.getElem?_eq_some_iff.1 hj).1] at hk
      cases hk
    rw [List.getElem?_set_ne (Ne.symm hkj)] at hk
    rw [clientSent_append, hother k hkj, h.absent k hk, List.append_nil]

/-- A call moves bytes from the inbox of the client behind its descriptor to the stream of
that descriptor, and a new descriptor starts with an empty stream. -/
theorem FlowAt.turn {sent : Bytes} (h : w.FlowAt p sent) (ht : Turn p q c) (hlog : v.srv.log = c :: w.srv.log)
    (hnew : ∀ fd, c = .accept (.ok fd) → p.fd ≠ some fd) : v.FlowAt q sent := by
  obtain ⟨hp, ha⟩ := h
  cases ht with
  | @pulled fd data hfd hconn hb =>
    have hfdq : q.fd = some fd := (Peer.fd_congr hconn).trans hfd
    refine ⟨?_, ?_⟩
    · intro hpend
      rw [Peer.fd, hpend] at hfdq
      cases hfdq
    · intro fd' hfd'
      obtain rfl : fd = fd' := Option.some.inj (hfdq.symm.trans hfd')
      rw [ha fd hfd, hb, hlog, inStream_recv, List.append_assoc]
  | kept hconn hb hno =>
    refine ⟨?_, ?_⟩
    · intro hpend
      rw [hp (hconn ▸ hpend), hb]
    · intro fd hfd
      have hfdp : p.fd = some fd := (Peer.fd_congr hconn).symm.trans hfd
      have hstay : inStream fd v.srv.log = inStream fd w.srv.log := by
        rw [hlog]
        cases hc : inert c with
        | true => exact inStream_inert hc fd
        | false =>
          cases c with
          | accept r =>
            cases r with
            | ok fd' =>
              apply inStream_accept_ne
              rintro rfl
              exact hnew _ rfl hfdp
            | error e => cases hc
          | recv fd' r =>
            cases r with
            | ok data =>
              apply inStream_recv_ne
              rintro rfl
              exact hno _ data rfl hfdp
            | error e => cases hc
          | _ => rfl
      rw [ha fd hfdp, hb, hstay]
  | accepted hpend hq hb =>
    refine ⟨?_, ?_⟩
    · intro hpq
      rw [hq] at hpq
      cases hpq
    · intro fd' hfd'
      rw [Peer.fd, hq] at hfd'
      obtain rfl := Option.some.inj hfd'
      rw [hp hpend, hb, hlog, inStream_accept, List.nil_append]
  | released hq =>
    refine ⟨?_, ?_⟩
    · intro hpq
      rw [hq] at hpq
      cases hpq
    · intro fd' hfd'
      rw [Peer.fd, hq] at hfd'
      cases hfd'

/-- A call neither adds nor removes a client. -/
theorem kernel_length (hk : Kernel peers c qs) : qs.length = peers.length := by
  cases hk with
  | accepted | used | closed => exact List.length_set
  | notClient | other => rfl

/-- **A step of the server** keeps the account of every connection. -/
theorem Flow.server {b : Label} (h : Flow w ls) (hw : (machine n L).Reach NewSock w) (hg : Tcp.NewSock w.srv b)
    (hs : w.step (.server b) = some v) : Flow v (ls ++ [.server b]) := by
  have hsent : ∀ j, clientSent j (ls ++ [.server b]) = clientSent j ls := by
    intro j
    rw [clientSent_append, clientSent_other (by simp), List.append_nil]
  obtain ⟨ht, ⟨hlog, hpeers⟩ | ⟨c, hlog, hk⟩⟩ := server_step hs
  · refine ⟨?_, ?_⟩
    · intro j p hj
      rw [hpeers] at hj
      obtain ⟨hp, ha⟩ := h.flow j p hj
      rw [hsent]
      exact ⟨hp, by rw [hlog]; exact ha⟩
    · intro j hj
      rw [hsent]
      exact h.absent j (hpeers ▸ hj)
  · refine ⟨?_, ?_⟩
    · intro j q hj
      obtain ⟨p, hp, hturn⟩ := kernel_turn (kernel_of_step hs hlog) (fds_nodup hw) hj
      rw [hsent]
      refine (h.flow j p hp).turn hturn hlog ?_
      rintro fd rfl hfd
      -- the kernel hands out no open descriptor
      obtain rfl := Server.accept_call ht hlog
      exact hg.2 (mem_open hw hp hfd)
    · intro j hj
      rw [hsent]
      refine h.absent j (List.getElem?_eq_none ?_)
      rw [← kernel_length hk]
      exact List.getElem?_eq_none_iff.1 hj

/-- **A step of the server or of a client** keeps the account of every connection. -/
theorem Flow.step (h : Flow w ls) (hw : (machine n L).Reach NewSock w) (hg : w.NewSock l) (hs : w.step l = some v) :
    Flow v (ls ++ [l]) := by
  cases l with
  | connect =>
    simp only [World.step, Option.some.injEq] at hs; subst hs
    exact h.connect
  | send j data =>
    obtain ⟨p, q, hj, hq, rfl⟩ := client_cases hs
    simp only [Option.ite_none_left_eq_some, Option.some.injEq] at hq
    obtain ⟨-, rfl⟩ := hq
    refine h.client hj rfl rfl (clientSent_send j data) ?_
    intro k hk
    refine clientSent_other ?_
    rintro _ ⟨⟩
    exact hk rfl
  | close j =>
    obtain ⟨p, q, hj, hq, rfl⟩ := client_cases hs
    simp only [Option.ite_none_left_eq_some, Option.some.injEq] at hq
    obtain ⟨-, rfl⟩ := hq
    exact h.client hj rfl (List.append_nil _).symm (clientSent_other (by simp)) fun k _ => clientSent_other (by simp)
  | reset j =>
    obtain ⟨p, q, hj, hq, rfl⟩ := client_cases hs
    obtain rfl := Option.some.inj hq
    exact h.client hj rfl (List.append_nil _).symm (clientSent_other (by simp)) fun k _ => clientSent_other (by simp)
  | server b => exact h.server hw hg hs

/-- The account of every run. -/
theorem flow_of_run (h : (machine n L).Run NewSock (machine n L).init ls w) : Flow w ls := by
  induction h with
  | nil => exact flow_init n L
  | snoc hrun hg hs ih => exact ih.step ⟨_, hrun⟩ hg hs

theorem newSock_of_run (h : (machine n L).Run Posix (machine n L).init ls w) :
    (machine n L).Run NewSock (machine n L).init ls w := h.mono fun _ _ => Posix.newSock

/-- **The echo.** In every run of the server with any number of slots and any clients:
what an accepted client has sent is what its descriptor has received since it was
accepted and what is unread, what the server has sent back to it is a beginning of that,
and whenever the client's service is not under way nothing that was received is missing. -/
theorem echo_streams (n L : ℕ) (ls : List WorldLabel) (w : World)
    (h : (machine n L).Run Posix (machine n L).init ls w) (j : ℕ) (p : Peer) (fd : ℕ)
    (hj : w.peers[j]? = some p) (hp : p.conn = .accepted fd) :
    clientSent j ls = inStream fd w.srv.log ++ p.inbox ∧
    outStream fd w.srv.log <+: clientSent j ls ∧
    (w.srv.busy ≠ some fd → clientSent j ls = outStream fd w.srv.log ++ p.inbox) := by
  have hfd : p.fd = some fd := by rw [Peer.fd, hp]
  have hnew := newSock_of_run h
  have hin := ((flow_of_run hnew).flow j p hj).accepted fd hfd
  have hstreams := Server.streams_of_reach (srv_reach (fun _ _ hg => hg) ⟨ls, h⟩)
  refine ⟨hin, ?_, ?_⟩
  · rw [hin]
    exact (hstreams.back fd).trans (List.prefix_append _ _)
  · intro hbusy
    rw [hin, hstreams.kept fd (mem_open ⟨ls, hnew⟩ hj hfd) hbusy]

/-- Two clients; the descriptor of the first is given to the second. -/
def reused : List WorldLabel :=
  [.connect, .connect, .server .tau, .server (.accept (.ok 7)), .server (.fcntl true), .send 0 [1, 2],
    .server (.recv (.ok [1, 2])), .reset 0, .server (.send (.error (.other 104))), .server .tau, .server .tau,
    .server .tau, .server (.accept (.ok 7)), .server (.fcntl true), .send 1 [3, 4, 5],
    .server (.recv (.ok [3, 4])), .server (.send (.ok 1)), .server (.send (.ok 1))]

/-- `echo_streams` at the end of `reused`. -/
theorem echo_streams_reused : ∃ w p, (machine 1 3).Run Posix (machine 1 3).init reused w ∧
    w.peers[1]? = some p ∧ clientSent 1 reused = [3, 4, 5] ∧
    clientSent 1 reused = outStream 7 w.srv.log ++ p.inbox := by
  have hrun : ((machine 1 3).exec Posix (machine 1 3).init reused).map (fun w =>
      w.srv.pc == .serve 1 && w.peers[1]?.map (·.conn) == some (.accepted 7)) = some true := by
    decide +kernel
  obtain ⟨w, hw, hp⟩ := Option.map_eq_some_iff.1 hrun
  rw [Bool.and_eq_true, beq_iff_eq, beq_iff_eq] at hp
  obtain ⟨hpc, hconn⟩ := hp
  obtain ⟨p, hp, hconn⟩ := Option.map_eq_some_iff.1 hconn
  have hrun := Machine.Run.of_exec hw
  obtain ⟨-, -, hall⟩ := echo_streams 1 3 reused w hrun 1 p 7 hp hconn
  exact ⟨w, p, hrun, hp, rfl, hall (by simp [Server.busy, hpc])⟩

end World

end EspNetwork.Tcp
