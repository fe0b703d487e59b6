import EspNetwork.Proof.TcpStep

/-!
# The slot table of the TCP server

* `Hist`: what the calls made so far satisfy, whatever the task does next; one lemma
  for each kind of call (`Hist.acquire`, `Hist.use`, `Hist.release`, `Hist.inert`).
* `Server.Table`: the slots hold the open descriptors, whatever `send` returns.
* `Server.Inv`: besides, `socket_send` is at the byte after the last one sent back, if
  every `send` takes something or fails for good.
* `Server.sweeps`: the loop after `error` comes to its end.
-/

namespace EspNetwork.Tcp

open CLib Handle

variable {L fd : ℕ} {log : List Call} {c : Call}

/-! ## The calls made so far -/

/-- A run that has used only open descriptors. -/
structure Hist (L : ℕ) (log : List Call) : Prop where
  proper : Proper (log.filterMap (Server.event L))
  /-- the listening descriptor is not a client's -/
  listen : L ∉ live (log.filterMap (Server.event L))

/-- The open client descriptors. -/
def opened (L : ℕ) (log : List Call) : List ℕ := live (log.filterMap (Server.event L))

theorem hist_nil (L : ℕ) : Hist L [] := ⟨trivial, List.not_mem_nil⟩

/-- A call that is no operation on a client's descriptor. -/
theorem Hist.inert (h : Hist L log) (hc : Server.event L c = none) :
    Hist L (c :: log) ∧ opened L (c :: log) = opened L log := by
  have he : (c :: log).filterMap (Server.event L) = log.filterMap (Server.event L) := by
    rw [List.filterMap_cons, hc]
  refine ⟨⟨?_, ?_⟩, ?_⟩
  · rw [he]; exact h.proper
  · rw [he]; exact h.listen
  · rw [opened, he]; rfl

theorem Hist.acquire (h : Hist L log) (hL : fd ≠ L) (hfd : fd ∉ opened L log) :
    Hist L (.accept (.ok fd) :: log) ∧ opened L (.accept (.ok fd) :: log) = fd :: opened L log := by
  refine ⟨⟨⟨h.proper, hfd⟩, ?_⟩, rfl⟩
  intro hm
  rcases List.mem_cons.1 hm with rfl | hm
  · exact hL rfl
  · exact h.listen hm

/-- A `recv` or `send` on an open descriptor. -/
theorem Hist.use (h : Hist L log) (hc : Server.event L c = some (.use fd)) (hfd : fd ∈ opened L log) :
    Hist L (c :: log) ∧ opened L (c :: log) = opened L log := by
  have hev : (c :: log).filterMap (Server.event L) = .use fd :: log.filterMap (Server.event L) := by
    rw [List.filterMap_cons, hc]
  refine ⟨⟨?_, ?_⟩, ?_⟩
  · rw [hev]; exact ⟨h.proper, hfd⟩
  · rw [hev]; exact h.listen
  · rw [opened, hev]; rfl

theorem Hist.release (h : Hist L log) (hfd : fd ∈ opened L log) : Hist L (.close fd :: log) ∧
    opened L (.close fd :: log) = (opened L log).erase fd ∧
      List.count (Call.close L) (.close fd :: log) = List.count (Call.close L) log := by
  have hne : fd ≠ L := by intro he; subst he; exact h.listen hfd
  have hev : (Call.close fd :: log).filterMap (Server.event L) =
      .release fd :: log.filterMap (Server.event L) := by
    rw [List.filterMap_cons, Server.event, if_neg hne]
  refine ⟨⟨?_, ?_⟩, ?_, ?_⟩
  · rw [hev]; exact ⟨h.proper, hfd⟩
  · rw [hev]; intro hm; exact h.listen (List.mem_of_mem_erase hm)
  · rw [opened, hev]; rfl
  · rw [List.count_cons, if_neg (by simpa using hne), Nat.add_zero]

/-- A call that sends nothing. -/
theorem echoes_cons (h : Echoes log) (hc : ∀ fd o m bs, c ≠ .send fd o m (.ok bs)) : Echoes (c :: log) := by
  cases c with
  | send fd o m r =>
    cases r with
    | ok bs => exact absurd rfl (hc fd o m bs)
    | error e => exact h
  | _ => exact h

theorem Env.newSock {s : Server} {l : Label} (h : Env s l) : NewSock s l := by
  cases l with
  | accept r =>
    cases r with
    | ok fd => exact h
    | error e => trivial
  | tau | fcntl | recv | send => trivial

/-! ## The invariants -/

namespace Server

variable {s t : Server} {l : Label} {n i k : ℕ}

theorem openSocks_eq (s : Server) : s.openSocks = opened s.listenSock s.log := rfl

/-- The slots and the open descriptors. After `error` the slots are closed from the front. -/
def Slots (s : Server) : Prop :=
  match s.pc with
  | .sweep i => (s.sock.drop i).reduceOption.Perm s.openSocks ∧ s.log.count (.close s.listenSock) = 1
  | .done => s.openSocks = [] ∧ s.log.count (.close s.listenSock) = 1
  | _ => s.sock.reduceOption.Perm s.openSocks ∧ s.log.count (.close s.listenSock) = 0

/-- `socket_send` has sent back all but the last `toWrite` bytes of what was received on `fd`. -/
structure Sending (s : Server) (fd len : ℕ) (toWrite : ℤ) : Prop where
  pos : 0 < toWrite
  le : toWrite ≤ len
  echoing : ∃ data, echoing s.log = some (fd, data, data.take (len - toWrite).toNat) ∧
    data.length = len ∧ s.rxBuffer.data.take len = data

/-- The slot that the code is at. -/
def Local (s : Server) : Prop :=
  match s.pc with
  | .accept k => s.sock[k]? = some none
  | .fcntl i | .send i _ _ | .close i => ∃ fd, s.sock[i]? = some (some fd)
  | _ => True

structure Table (n : ℕ) (s : Server) : Prop where
  len : s.sock.length = n
  hist : Hist s.listenSock s.log
  slots : s.Slots
  here : s.Local

structure Inv (n : ℕ) (s : Server) : Prop extends Table n s where
  sending {i len fd : ℕ} {w : ℤ} (hpc : s.pc = .send i len w) (hfd : s.sock[i]? = some (some fd)) : s.Sending fd len w

theorem table_init (n L : ℕ) : Table n (init n L) where
  len := List.length_replicate
  hist := hist_nil L
  slots := by
    refine ⟨?_, rfl⟩
    rw [show (init n L).sock.reduceOption = [] from List.reduceOption_replicate_none]
    exact List.Perm.refl _
  here := trivial

/-- In the main loop a slot's descriptor is open. -/
theorem mem_open_of_slot (h : s.sock.reduceOption.Perm s.openSocks) (hi : s.sock[i]? = some (some fd)) :
    fd ∈ opened s.listenSock s.log :=
  h.mem_iff.1 (List.reduceOption_mem_iff.2 (List.mem_of_getElem? hi))

/-! ## Steps -/

/-- Before the label `error` has been left. -/
def InLoop (s : Server) : Prop := (∀ i, s.pc ≠ .sweep i) ∧ s.pc ≠ .done

theorem slots_of_loop (h : s.InLoop) : s.Slots ↔
    s.sock.reduceOption.Perm s.openSocks ∧ s.log.count (.close s.listenSock) = 0 := by
  unfold Slots
  split
  · rename_i i hi; exact absurd hi (h.1 i)
  · rename_i hd; exact absurd hd h.2
  · rfl

/-- A step within the main loop that leaves the table and the open descriptors alone. -/
theorem Table.move (h : Table n s) (hs : s.InLoop) (ht : t.InLoop) (hsock : t.sock = s.sock)
    (hL : t.listenSock = s.listenSock)
    (hlog : Hist s.listenSock t.log ∧ opened s.listenSock t.log = opened s.listenSock s.log)
    (hcount : t.log.count (.close s.listenSock) = s.log.count (.close s.listenSock))
    (hl : t.Local) : Table n t where
  len := hsock ▸ h.len
  hist := hL ▸ hlog.1
  slots := by
    obtain ⟨hp, hc⟩ := (slots_of_loop hs).1 h.slots
    rw [slots_of_loop ht, hsock, hL, hcount, openSocks_eq, hL, hlog.2]
    exact ⟨hp, hc⟩
  here := hl

/-- The slot that `accept` is called for. -/
theorem Table.free (h : Table n s) (hpc : s.pc = .accept k) : s.sock[k]? = some none := by
  have hhere := h.here
  unfold Local at hhere
  rwa [hpc] at hhere

/-- The slot that is set up, served or closed. -/
theorem Table.taken (h : Table n s) (hpc : s.pc = .fcntl i ∨ (∃ len w, s.pc = .send i len w) ∨ s.pc = .close i) :
    ∃ fd, s.sock[i]? = some (some fd) := by
  have hhere := h.here
  unfold Local at hhere
  rcases hpc with hpc | ⟨len, w, hpc⟩ | hpc <;> rwa [hpc] at hhere

/-- A slot filled with a descriptor that is not open. -/
theorem Table.accepted (h : Table n s) (hpc : s.pc = .accept k) (hL : fd ≠ s.listenSock)
    (hnew : fd ∉ s.openSocks) : Table n
      { s with sock := s.sock.set k (some fd), pc := .fcntl k, log := .accept (.ok fd) :: s.log } := by
  obtain ⟨hp, hc⟩ := (slots_of_loop (by simp [InLoop, hpc])).1 h.slots
  have hfree := h.free hpc
  obtain ⟨hh, ho⟩ := h.hist.acquire hL hnew
  refine ⟨?_, hh, ?_, fd, List.getElem?_set_self (List.getElem?_eq_some_iff.1 hfree).1⟩
  · rw [← h.len]; exact List.length_set
  · rw [slots_of_loop (by simp [InLoop]), openSocks_eq, ho]
    exact ⟨(reduceOption_set_some hfree).trans (hp.cons fd), (List.count_cons_of_ne (by simp)).trans hc⟩

/-- `accept` has written -1 into a slot that held -1. -/
theorem Table.notAccepted {e : Errno} {pc : Pc} (h : Table n s) (hpc : s.pc = .accept k)
    (hnext : pc = .serve 0 ∨ pc = .error) : Table n
      { s with sock := s.sock.set k none, pc := pc, log := .accept (.error e) :: s.log } := by
  have hfree := h.free hpc
  refine h.move (by simp [InLoop, hpc]) ?_ (set_none_of_none hfree) rfl (h.hist.inert rfl)
    (List.count_cons_of_ne (by simp)) ?_
  · rcases hnext with rfl | rfl <;> simp [InLoop]
  · rcases hnext with rfl | rfl <;> trivial

/-- **A `recv` or `send`** on a slot's descriptor, after which the slot is left, closed or sent to. -/
theorem Table.used {pc : Pc} {rx : Arr 128} (h : Table n s) (hin : s.InLoop)
    (hfd : s.sock[i]? = some (some fd)) (hc : event s.listenSock c = some (.use fd))
    (hnext : (∃ j, pc = .serve j) ∨ pc = .close i ∨ ∃ len w, pc = .send i len w) :
    Table n { s with rxBuffer := rx, pc := pc, log := c :: s.log } := by
  have hmem := mem_open_of_slot ((slots_of_loop hin).1 h.slots).1 hfd
  have hne : c ≠ .close s.listenSock := by
    intro hcl; subst hcl; simp [event] at hc
  refine h.move hin ?_ rfl rfl (h.hist.use hc hmem) (List.count_cons_of_ne hne) ?_
  · rcases hnext with ⟨j, rfl⟩ | rfl | ⟨len, w, rfl⟩ <;> simp [InLoop]
  · rcases hnext with ⟨j, rfl⟩ | rfl | ⟨len, w, rfl⟩
    · trivial
    · exact ⟨fd, hfd⟩
    · exact ⟨fd, hfd⟩

theorem sendLoop_cases (i len : ℕ) (w : ℤ) :
    (0 < w ∧ sendLoop i len w = .send i len w) ∨ (w ≤ 0 ∧ sendLoop i len w = .serve (i + 1)) := by
  unfold sendLoop
  split
  · exact .inl ⟨‹_›, rfl⟩
  · exact .inr ⟨by omega, rfl⟩

/-- A turn of the loop of `socket_send`, whatever it has sent. -/
theorem Table.turned {len : ℕ} {w : ℤ} (h : Table n s) (hin : s.InLoop) (hfd : s.sock[i]? = some (some fd))
    (hc : event s.listenSock c = some (.use fd)) : Table n { s with pc := sendLoop i len w, log := c :: s.log } := by
  refine h.used hin hfd hc ?_
  rcases sendLoop_cases i len w with ⟨-, hnext⟩ | ⟨-, hnext⟩
  · exact .inr (.inr ⟨len, w, hnext⟩)
  · exact .inl ⟨i + 1, hnext⟩

/-- **A slot is given back** with its descriptor. -/
theorem Table.closed (h : Table n s) (hpc : s.pc = .close i) (hfd : s.sock[i]? = some (some fd)) :
    Table n { s with pc := .serve (i + 1), sock := s.sock.set i none, log := .close fd :: s.log } := by
  obtain ⟨hp, hc⟩ := (slots_of_loop (by simp [InLoop, hpc])).1 h.slots
  obtain ⟨hh, ho, hcount⟩ := h.hist.release (mem_open_of_slot hp hfd)
  refine ⟨?_, hh, ?_, trivial⟩
  · rw [List.length_set]; exact h.len
  · rw [slots_of_loop (by simp [InLoop]), openSocks_eq, ho]
    have := ((reduceOption_set_none hfd).trans hp).erase fd
    rw [List.erase_cons_head] at this
    exact ⟨this, hcount.trans hc⟩

theorem Table.error (h : Table n s) (hpc : s.pc = .error) :
    Table n { s with pc := .sweep 0, log := .close s.listenSock :: s.log } := by
  obtain ⟨hp, hc⟩ := (slots_of_loop (by simp [InLoop, hpc])).1 h.slots
  obtain ⟨hh, ho⟩ := h.hist.inert (c := .close s.listenSock) (by simp [event])
  refine ⟨h.len, hh, ?_, trivial⟩
  unfold Slots
  simp only [List.drop_zero, openSocks_eq, ho, List.count_cons_self, hc, and_true]
  exact hp

/-- What is left to close at `sock[i]` after `error`. -/
theorem Table.rest (h : Table n s) (hpc : s.pc = .sweep i) :
    (s.sock.drop i).reduceOption.Perm s.openSocks ∧ s.log.count (.close s.listenSock) = 1 := by
  have hslots := h.slots
  unfold Slots at hslots
  rwa [hpc] at hslots

theorem Table.sweepClose (h : Table n s) (hpc : s.pc = .sweep i) (hfd : s.sock[i]? = some (some fd)) :
    Table n { s with pc := .sweep (i + 1), log := .close fd :: s.log } := by
  obtain ⟨hp, hc⟩ := h.rest hpc
  rw [reduceOption_drop hfd, List.reduceOption_cons_of_some] at hp
  obtain ⟨hh, ho, hcount⟩ := h.hist.release (hp.mem_iff.1 List.mem_cons_self)
  refine ⟨h.len, hh, ?_, trivial⟩
  have := hp.erase fd
  rw [List.erase_cons_head] at this
  unfold Slots
  simp only [openSocks_eq, ho, hcount]
  exact ⟨this, hc⟩

/-- **Every step keeps the table**, whatever `send` returns. -/
theorem Table.step (h : Table n s) (hg : NewSock s l) (hs : s.step l = some t) : Table n t := by
  cases step_cases hs with
  | free hpc hk =>
    refine h.move (by simp [InLoop, hpc]) (by simp [InLoop]) rfl rfl ⟨h.hist, rfl⟩ rfl ?_
    -- the first free slot
    obtain ⟨hlt, hnone, -⟩ := List.findIdx?_eq_some_iff_getElem.1 hk
    exact List.getElem?_eq_some_iff.2 ⟨hlt, by simpa using hnone⟩
  | full hpc | skip hpc =>
    have hin : s.InLoop := by simp [InLoop, hpc]
    exact h.move hin (by simp [InLoop]) rfl rfl ⟨h.hist, rfl⟩ rfl trivial
  | accepted hpc => exact h.accepted hpc hg.1 hg.2
  | noClient hpc => exact h.notAccepted hpc (.inl rfl)
  | acceptFailed hpc he => exact h.notAccepted hpc (.inr rfl)
  | fcntl hpc | fcntlFailed hpc | pass hpc =>
    have hin : s.InLoop := by simp [InLoop, hpc]
    exact h.move hin (by simp [InLoop]) rfl rfl (h.hist.inert rfl) (List.count_cons_of_ne (by simp)) trivial
  | received hpc hfd => exact h.used (by simp [InLoop, hpc]) hfd rfl (.inr (.inr ⟨_, _, rfl⟩))
  | receivedEnd hpc hfd | noData hpc hfd => exact h.used (by simp [InLoop, hpc]) hfd rfl (.inl ⟨_, rfl⟩)
  | recvFailed hpc hfd | sendFailed hpc hfd => exact h.used (by simp [InLoop, hpc]) hfd rfl (.inr (.inl rfl))
  | sent hpc hfd | sentNone hpc hfd => exact h.turned (by simp [InLoop, hpc]) hfd rfl
  | close hpc hfd => exact h.closed hpc hfd
  | error hpc => exact h.error hpc
  | sweepSkip hpc hi =>
    obtain ⟨hp, hc⟩ := h.rest hpc
    rw [reduceOption_drop hi, List.reduceOption_cons_of_none] at hp
    exact ⟨h.len, h.hist, ⟨hp, hc⟩, trivial⟩
  | sweepClose hpc hfd => exact h.sweepClose hpc hfd
  | sweepEnd hpc hi =>
    obtain ⟨hp, hc⟩ := h.rest hpc
    rw [List.drop_eq_nil_of_le (List.getElem?_eq_none_iff.1 hi)] at hp
    exact ⟨h.len, h.hist, ⟨List.nil_perm.1 hp, hc⟩, trivial⟩

/-! ## What is sent back -/

/-- The rest of what `socket_send` has to send back, before and after a turn. -/
theorem Sending.split {len : ℕ} {w : ℤ} (h : s.Sending fd len w) (hkw : k ≤ w) :
    ∃ data, Tcp.echoing s.log = some (fd, data, data.take (len - w).toNat) ∧ data.length = len ∧
      s.rxBuffer.data.take len = data ∧
      data.take (len - w).toNat ++ (s.rxBuffer.data.drop (len - w).toNat).take k = data.take (len - (w - k)).toNat := by
  obtain ⟨hpos, hle, data, hecho, hdata, hrx⟩ := h
  refine ⟨data, hecho, hdata, hrx, ?_⟩
  -- the bytes accepted lie in the part of the buffer that `recv` has filled
  have hbytes : (s.rxBuffer.data.drop (len - w).toNat).take k = (data.drop (len - w).toNat).take k := by
    rw [← hrx, List.drop_take, List.take_take, min_eq_left (by omega)]
  have hnext : ((len : ℤ) - (w - k)).toNat = ((len : ℤ) - w).toNat + k := by omega
  rw [hbytes, hnext, List.take_add]

/-- **The service of a slot starts**: what `recv` stores is what is to be sent back. -/
theorem sending_received {data : Bytes} {rx : Arr 128} (hrx : s.rxBuffer.store 0 data = some rx) (hne : data ≠ []) :
    Sending { s with rxBuffer := rx, pc := .send i data.length data.length, log := .recv fd (.ok data) :: s.log }
      fd data.length data.length := by
  have hpos := List.length_pos_iff.2 hne
  refine ⟨by omega, le_rfl, data, ?_, rfl, ?_⟩
  · rw [sub_self]; rfl
  · -- the front of `rx_buffer` is the data
    obtain ⟨-, hb⟩ := Arr.store_eq_some_iff.1 hrx
    rw [hb, List.take_zero, List.nil_append, List.take_left' rfl]

/-- **One turn of `socket_send`** goes on behind what it has sent. -/
theorem Sending.sent {len : ℕ} {w : ℤ} {pc : Pc} (h : s.Sending fd len w) (hkw : k ≤ w) (hmore : 0 < w - k) :
    Sending { s with pc := pc
                     log := .send fd (len - w) w (.ok ((s.rxBuffer.data.drop (len - w).toNat).take k)) :: s.log }
      fd len (w - k) := by
  obtain ⟨data, hecho, hdata, hrx, hback⟩ := h.split hkw
  refine ⟨hmore, by have := h.le; omega, data, ?_, hdata, hrx⟩
  rw [← hback]
  simp only [Tcp.echoing, hecho, Option.map_some]

/-- **Every step keeps the invariant.** -/
theorem Inv.step (h : Inv n s) (hg : Env s l) (hs : s.step l = some t) : Inv n t := by
  refine ⟨h.toTable.step hg.newSock hs, fun {j m fd w'} hpc' hfd' => ?_⟩
  cases step_cases hs with
  | received hpc hfd hrx hne =>
    cases hpc'
    cases hfd.symm.trans hfd'
    exact sending_received hrx hne
  | @sent i fd len k w hpc hfd ho hk =>
    rcases sendLoop_cases i len (w - k) with ⟨hmore, hnext⟩ | ⟨-, hnext⟩
    · cases hnext.symm.trans hpc'
      cases hfd.symm.trans hfd'
      exact (h.sending hpc hfd).sent hk hmore
    · cases hnext.symm.trans hpc'
  | sentNone hpc hfd ho he => exact absurd (he.symm.trans hg) (by decide)
  | free | full | accepted | noClient | acceptFailed | fcntl | fcntlFailed | skip | pass | receivedEnd | noData
  | recvFailed | sendFailed | close | error | sweepSkip | sweepClose | sweepEnd => cases hpc'

/-- **What is sent was received**, in the same service step. -/
theorem Inv.echoes (h : Inv n s) (he : Echoes s.log) (hs : s.step l = some t) : Echoes t.log := by
  cases step_cases hs with
  | @sent i fd len k w hpc hfd ho hk =>
    obtain ⟨data, hecho, -, -, hback⟩ := (h.sending hpc hfd).split hk
    exact ⟨he, data, _, hecho, by rw [hback]; exact List.take_prefix _ _⟩
  | free | full | skip | sweepSkip | sweepEnd => exact he
  | accepted | noClient | acceptFailed | fcntl | fcntlFailed | pass | received | receivedEnd | noData | recvFailed
  | sentNone | sendFailed | close | error | sweepClose => exact echoes_cons he (by simp)

/-- No step changes the listening descriptor. -/
theorem step_listenSock (hs : s.step l = some t) : t.listenSock = s.listenSock := by
  cases step_cases hs <;> rfl

theorem listenSock_of_reach {G : Server → Label → Prop} (h : (machine n L).Reach G s) : s.listenSock = L :=
  h.invariant (P := fun s => s.listenSock = L) rfl fun _ _ _ hL _ hs => (step_listenSock hs).trans hL

theorem inv_init (n L : ℕ) : Inv n (init n L) := ⟨table_init n L, fun hpc => by cases hpc⟩

theorem inv_of_reach (h : (machine n L).Reach Env s) : Inv n s :=
  h.invariant (inv_init n L) fun _ _ _ hi hg hs => hi.step hg hs

theorem echoes_of_reach (h : (machine n L).Reach Env s) : Echoes s.log := by
  have hall : Inv n s ∧ Echoes s.log :=
    h.invariant (P := fun s => Inv n s ∧ Echoes s.log) ⟨inv_init n L, trivial⟩
      fun _ _ _ hi hg hs => ⟨hi.1.step hg hs, hi.1.echoes hi.2 hs⟩
  exact hall.2

/-! ## Runs -/

/-- An event that stands for one call only is in the history as often as the call in the log. -/
theorem count_events {L : ℕ} {x : Event ℕ} {c : Call} (h : ∀ d, event L d = some x ↔ d = c) (log : List Call) :
    (log.filterMap (event L)).count x = log.count c := by
  rw [List.count_filterMap, List.count]
  apply List.countP_congr
  intro d _
  rw [beq_iff_eq, beq_iff_eq]
  exact h d

theorem count_accept (L fd : ℕ) (log : List Call) :
    (log.filterMap (event L)).count (.acquire fd) = log.count (.accept (.ok fd)) := by
  apply count_events
  intro d
  cases d with
  | accept r => cases r <;> simp [event]
  | close fd' => by_cases hL : fd' = L <;> simp [event, hL]
  | _ => simp [event]

theorem count_close {L fd : ℕ} (hne : fd ≠ L) (log : List Call) :
    (log.filterMap (event L)).count (.release fd) = log.count (.close fd) := by
  apply count_events
  intro d
  cases d with
  | accept r => cases r <;> simp [event]
  | close fd' =>
    by_cases hL : fd' = L
    · subst hL
      simp [event, hne.symm]
    · simp [event, hL]
  | _ => simp [event]

/-! ### After an error -/

/-- **The sweep comes to its end**, one step for each slot and one to leave. -/
theorem sweeps {G : Server → Label → Prop} (hG : ∀ s, G s .tau) {m : ℕ} (hpc : s.pc = .sweep i)
    (hm : s.sock.length ≤ i + m) : ∃ k t, (machine n L).Run G s (List.replicate k .tau) t ∧ t.pc = .done := by
  induction m generalizing s i with
  | zero =>
    have hi : s.sock[i]? = none := List.getElem?_eq_none hm
    exact ⟨1, { s with pc := .done }, .single (hG s) (by simp only [machine, step, tau, hpc, hi]), rfl⟩
  | succ m ih =>
    -- the slot holds a descriptor or not; the step goes on to the next one
    obtain ⟨u, hstep, hnext, hsock⟩ : ∃ u, s.step .tau = some u ∧ (u.pc = .done ∨ u.pc = .sweep (i + 1)) ∧
        u.sock = s.sock := by
      simp only [step, tau, hpc]
      rcases hi : s.sock[i]? with _ | _ | fd
      · exact ⟨_, rfl, .inl rfl, rfl⟩
      · exact ⟨_, rfl, .inr rfl, rfl⟩
      · exact ⟨_, rfl, .inr rfl, rfl⟩
    rcases hnext with hdone | hnext
    · exact ⟨1, u, .single (hG s) hstep, hdone⟩
    · obtain ⟨k, t, hrun, hdone⟩ := ih hnext (by rw [hsock]; omega)
      exact ⟨k + 1, t, .cons (hG s) hstep hrun, hdone⟩

/-- From the label `error` on. -/
theorem error_done {G : Server → Label → Prop} (hG : ∀ s, G s .tau) (hpc : s.pc = .error ∨ ∃ i, s.pc = .sweep i) :
    ∃ k t, (machine n L).Run G s (List.replicate k .tau) t ∧ t.pc = .done := by
  rcases hpc with hpc | ⟨i, hpc⟩
  · set u : Server := { s with pc := .sweep 0, log := .close s.listenSock :: s.log } with hu
    have hstep : s.step .tau = some u := by simp only [step, tau, hpc, hu]
    obtain ⟨k, t, hrun, hdone⟩ := sweeps (n := n) (L := L) hG (s := u) rfl (Nat.le_add_left _ 0)
    exact ⟨k + 1, t, .cons (hG s) hstep hrun, hdone⟩
  · exact sweeps hG hpc (Nat.le_add_left _ i)

/-- **The slot table.** In every run with any number of slots: at an iteration boundary
the slots hold the open descriptors, each once; `recv`, `send` and `close` are only
called on open descriptors; what is sent on a descriptor continues what the same service
step received on it; from the label `error` on, the task's own steps take it to its end;
and a finished task has closed the listening descriptor once and every other one as
often as it was accepted. -/
theorem slot_table (n L : ℕ) (s : Server) (h : (machine n L).Reach Env s) :
    (s.pc = .head → s.sock.reduceOption.Nodup ∧ s.sock.reduceOption.Perm s.openSocks) ∧
    Proper s.events ∧ Echoes s.log ∧
    ((s.pc = .error ∨ ∃ i, s.pc = .sweep i) →
      ∃ k t, (machine n L).Run Env s (List.replicate k .tau) t ∧ t.pc = .done) ∧
    (s.pc = .done → s.openSocks = [] ∧ s.log.count (.close L) = 1 ∧
      ∀ fd, fd ≠ L → s.log.count (.close fd) = s.log.count (.accept (.ok fd))) := by
  have hi := inv_of_reach h
  obtain rfl := listenSock_of_reach h
  refine ⟨?_, hi.hist.proper, echoes_of_reach h, error_done fun _ => trivial, ?_⟩
  · intro hpc
    obtain ⟨hp, -⟩ := (slots_of_loop (by simp [InLoop, hpc])).1 hi.slots
    exact ⟨hp.nodup_iff.2 (live_nodup hi.hist.proper), hp⟩
  · intro hpc
    have hslots := hi.slots
    unfold Slots at hslots
    rw [hpc] at hslots
    obtain ⟨hnil, hc⟩ := hslots
    refine ⟨hnil, hc, ?_⟩
    intro fd hne
    have hbal := count_acquire_of_live_nil hi.hist.proper hnil fd
    rw [count_accept, count_close hne] at hbal
    exact hbal.symm

/-- Two clients are accepted, one of them is closed after `ENOTCONN`, the other is echoed
two bytes one at a time; then `accept` fails. -/
def hangup : List Label :=
  [.tau, .accept (.ok 7), .fcntl true, .recv (.error .enotconn), .tau, .tau, .tau,
    .tau, .accept (.ok 8), .fcntl true, .recv (.ok [104, 105]), .send (.ok 1), .send (.ok 1), .tau, .tau,
    .tau, .accept (.error (.other 24))]

/-- `slot_table` at the label `error`, with a client still open, and after the sweep. -/
theorem slot_table_hangup : ∃ s t k, (machine 2 3).Reach Env s ∧ s.pc = .error ∧ s.sock = [some 8, none] ∧
    (machine 2 3).Run Env s (List.replicate k .tau) t ∧ t.pc = .done ∧ t.openSocks = [] ∧
    t.log.count (.close 8) = t.log.count (.accept (.ok 8)) := by
  have hrun : ((machine 2 3).exec Env (machine 2 3).init hangup).map (fun s =>
      s.pc == .error && s.sock == [some 8, none]) = some true := by decide +kernel
  obtain ⟨s, hs, hp⟩ := Lts.Machine.Reach.of_exec hrun
  rw [Bool.and_eq_true, beq_iff_eq, beq_iff_eq] at hp
  obtain ⟨hpc, hsock⟩ := hp
  obtain ⟨-, -, -, hend, -⟩ := slot_table 2 3 s hs
  obtain ⟨k, t, hk, hdone⟩ := hend (.inl hpc)
  obtain ⟨-, -, -, -, hclosed⟩ := slot_table 2 3 t (hs.run hk)
  obtain ⟨hnil, -, hcount⟩ := hclosed hdone
  exact ⟨s, t, k, hs, hpc, hsock, hk, hdone, hnil, hcount 8 (by decide)⟩

end Server

end EspNetwork.Tcp
