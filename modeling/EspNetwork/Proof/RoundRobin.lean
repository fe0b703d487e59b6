import EspNetwork.Proof.Peers

/-!
# The rounds of the TCP server

The service loop goes round the slots. A slot holds it up for a bounded number of steps:
one `recv`, at most 128 turns of `socket_send` and one `close`.

* `Server.turns`: the steps, at most, before a slot is polled.
* `Server.turns_step`: every step uses one of them up.
* `World.can_step`: the loop is never stuck: there is a step that the server can take.
* `World.served_within`: **no client waits for longer than a round**, whatever the others do.
-/

namespace EspNetwork.Tcp

open CLib Handle Lts

variable {n L i j fd : ℕ} {peers : List Peer} {p q : Peer}

/-! ## The way to a slot -/

/-- The steps, at most, from `sock[j]` to `sock[i]`, over the end of the pass if need be. -/
def toSlot (n i j : ℕ) : ℕ := if j ≤ i then 130 * (i - j) else 130 * (n - j) + 4 + 130 * i

theorem toSlot_zero (n i : ℕ) : toSlot n i 0 = 130 * i := by
  unfold toSlot
  rw [if_pos (Nat.zero_le i), Nat.sub_zero]

theorem toSlot_end {j : ℕ} (h : i < j) : 130 * i + 4 ≤ toSlot n i j := by
  unfold toSlot
  rw [if_neg (by omega)]
  omega

theorem toSlot_succ {j : ℕ} (hne : j ≠ i) (hj : j < n) : toSlot n i (j + 1) + 130 ≤ toSlot n i j := by
  unfold toSlot
  split <;> split <;> omega

theorem toSlot_next {j : ℕ} (hi : i < n) : toSlot n i (j + 1) + 130 ≤ 130 * n + 4 := by
  unfold toSlot
  split <;> omega

theorem toSlot_le {j : ℕ} (hi : i < n) : toSlot n i j ≤ 130 * n + 3 := by
  unfold toSlot
  split <;> omega

namespace Server

variable {s t : Server} {l : Label}

/-- The steps, at most, before `sock[i]` is polled. -/
def turns (s : Server) (i : ℕ) : ℕ :=
  match s.pc with
  | .head => toSlot s.sock.length i 0 + 3
  | .accept _ => toSlot s.sock.length i 0 + 2
  | .fcntl _ => toSlot s.sock.length i 0 + 1
  | .serve j => toSlot s.sock.length i j
  | .send j _ toWrite => toSlot s.sock.length i (j + 1) + toWrite.toNat + 1
  | .close j => toSlot s.sock.length i (j + 1) + 1
  | .error | .sweep _ | .done => 0

/-- One step, seen from `sock[i]`, which holds `fd`. -/
inductive Visit (s t : Server) (i fd : ℕ) : Prop
  | polled {r : Except Errno Bytes} (hpc : s.pc = .serve i) (hlog : t.log = .recv fd r :: s.log)
  | closed (hpc : s.pc = .close i) (hlog : t.log = .close fd :: s.log)
  | left (h : ¬ t.InLoop)
  | nearer (hfd : t.sock[i]? = some (some fd)) (hlt : t.turns i < s.turns i)

theorem turns_sendLoop {j len : ℕ} {w : ℤ} (h : t.pc = sendLoop j len w) :
    t.turns i ≤ toSlot t.sock.length i (j + 1) + w.toNat + 1 := by
  unfold sendLoop at h
  unfold turns
  split at h
  · rw [h]
  · rw [h]
    dsimp only
    omega

/-- A piece that `recv` has stored fits into `rx_buffer`. -/
theorem length_le_of_store {data : Bytes} {b rx : Arr 128} (h : b.store 0 data = some rx) : data.length ≤ 128 := by
  obtain ⟨hle, -⟩ := Arr.store_eq_some_iff.1 h
  omega

/-- What `socket_send` has to write was in `rx_buffer`. -/
theorem Sending.le_buffer {len : ℕ} {w : ℤ} (h : s.Sending fd len w) : w.toNat ≤ 128 := by
  obtain ⟨-, hle, data, -, hlen, hrx⟩ := h
  have : data.length ≤ 128 := by
    rw [← hrx, List.length_take, s.rxBuffer.size_eq]
    omega
  omega

/-- **A bound for every point of the loop.** -/
theorem turns_le (hi : Inv n s) (hlt : i < n) : s.turns i ≤ 130 * n + 3 := by
  have hlen := hi.len
  unfold turns
  split
  · rw [hlen, toSlot_zero]; omega
  · rw [hlen, toSlot_zero]; omega
  · rw [hlen, toSlot_zero]; omega
  · rw [hlen]
    exact toSlot_le hlt
  · rename_i j len w hpc
    obtain ⟨fd, hfd⟩ := hi.taken (.inr (.inl ⟨len, w, hpc⟩))
    have hw := (hi.sending hpc hfd).le_buffer
    have hnext := toSlot_next (j := j) hlt
    rw [hlen]
    omega
  · rename_i j hpc
    have hnext := toSlot_next (j := j) hlt
    rw [hlen]
    omega
  · omega
  · omega
  · omega

/-- **Every step brings the loop nearer to a slot that it neither polls nor closes.** -/
theorem turns_step (hi : Inv n s) (hg : Env s l) (hfd : s.sock[i]? = some (some fd)) (hin : s.InLoop)
    (hs : s.step l = some t) : Visit s t i fd := by
  obtain ⟨hlt, -⟩ := List.getElem?_eq_some_iff.1 hfd
  cases step_cases hs with
  | free hpc | full hpc => exact .nearer hfd (by simp only [turns, hpc]; omega)
  | @accepted k fd' hpc =>
    -- the slot written was free
    have hne : k ≠ i := by
      rintro rfl
      rw [hi.free hpc] at hfd
      cases hfd
    refine .nearer ((List.getElem?_set_ne hne).trans hfd) ?_
    simp only [turns, hpc, List.length_set]
    omega
  | noClient hpc =>
    have hsame := set_none_of_none (hi.free hpc)
    refine .nearer (by rw [hsame]; exact hfd) ?_
    simp only [turns, hpc, hsame]
    omega
  | acceptFailed hpc =>
    have hsame := set_none_of_none (hi.free hpc)
    refine .nearer (by rw [hsame]; exact hfd) ?_
    simp only [turns, hpc]
    omega
  | fcntl hpc | fcntlFailed hpc => exact .nearer hfd (by simp only [turns, hpc]; omega)
  | @skip j hpc hj =>
    have hne : j ≠ i := by
      rintro rfl
      rw [hfd] at hj
      cases hj
    have hnext := toSlot_succ (i := i) hne (List.getElem?_eq_some_iff.1 hj).1
    exact .nearer hfd (by simp only [turns, hpc]; omega)
  | @pass j hpc hj =>
    -- the next pass
    have hend : s.sock.length ≤ j := List.getElem?_eq_none_iff.1 hj
    have hfar := toSlot_end (n := s.sock.length) (show i < j by omega)
    exact .nearer hfd (by simp only [turns, hpc, toSlot_zero]; omega)
  | @received j fd' data rx hpc hj hrx =>
    by_cases hne : j = i
    · subst hne
      rw [hfd] at hj
      cases hj
      exact .polled hpc rfl
    · have hnext := toSlot_succ (i := i) hne (List.getElem?_eq_some_iff.1 hj).1
      have hshort := length_le_of_store hrx
      exact .nearer hfd (by simp only [turns, hpc, Int.toNat_natCast]; omega)
  | @receivedEnd j fd' rx hpc hj | @noData j fd' e hpc hj | @recvFailed j fd' e hpc hj =>
    by_cases hne : j = i
    · subst hne
      rw [hfd] at hj
      cases hj
      exact .polled hpc rfl
    · have hnext := toSlot_succ (i := i) hne (List.getElem?_eq_some_iff.1 hj).1
      exact .nearer hfd (by simp only [turns, hpc]; omega)
  | @sent j fd' len k w hpc hj ho hk =>
    obtain ⟨hpos, -⟩ := hi.sending hpc hj
    have hk1 : 1 ≤ k := hg
    refine .nearer hfd (lt_of_le_of_lt (turns_sendLoop rfl) ?_)
    simp only [turns, hpc]
    omega
  | sentNone hpc hj ho he => exact absurd (he.symm.trans hg) (by decide)
  | @sendFailed j fd' len w e hpc hj ho he =>
    obtain ⟨hpos, -⟩ := hi.sending hpc hj
    exact .nearer hfd (by simp only [turns, hpc]; omega)
  | @close j fd' hpc hj =>
    by_cases hne : j = i
    · subst hne
      rw [hfd] at hj
      cases hj
      exact .closed hpc rfl
    · refine .nearer ((List.getElem?_set_ne hne).trans hfd) ?_
      simp only [turns, hpc, List.length_set]
      omega
  | error hpc => exact .left fun h => h.1 0 rfl
  | sweepSkip hpc | sweepClose hpc => exact absurd hpc (hin.1 _)
  | sweepEnd hpc => exact absurd hpc (hin.1 _)

/-- The loop is not entered again. -/
theorem inLoop_of_step (hs : s.step l = some t) (h : t.InLoop) : s.InLoop := by
  cases step_cases hs with
  | sweepSkip | sweepClose => exact absurd rfl (h.1 _)
  | sweepEnd => exact absurd rfl h.2
  | free hpc | full hpc | accepted hpc | noClient hpc | acceptFailed hpc | fcntl hpc | fcntlFailed hpc | skip hpc
  | pass hpc | received hpc | receivedEnd hpc | noData hpc | recvFailed hpc | sent hpc | sentNone hpc
  | sendFailed hpc | close hpc | error hpc => simp [InLoop, hpc]

/-- A step makes one call at most. -/
theorem log_step (hs : s.step l = some t) : s.log <:+ t.log := by
  rcases step_closing hs with ⟨hlog, -⟩ | ⟨c, hlog, -⟩ | ⟨fd, hlog, -⟩
  · rw [hlog]
  · rw [hlog]
    exact List.suffix_cons _ _
  · rw [hlog]
    exact List.suffix_cons _ _

end Server

/-! ## Runs -/

namespace World

variable {w v : World} {l : WorldLabel}

/-- The steps of the server. -/
def serverStep : WorldLabel → Bool
  | .server _ => true
  | .connect | .send _ _ | .close _ | .reset _ => false

/-- A client's step leaves the server alone. -/
theorem srv_cases (hs : w.step l = some v) :
    (v.srv = w.srv ∧ serverStep l = false) ∨ ∃ b, l = .server b ∧ w.srv.step b = some v.srv := by
  rcases step_cases hs with ⟨rfl, rfl⟩ | ⟨j, f, hf, hc⟩ | ⟨b, rfl⟩
  · exact .inl ⟨rfl, rfl⟩
  · cases l with
    | server b => exact .inr ⟨b, rfl, (server_step hs).1⟩
    | connect | send | close | reset => exact .inl ⟨(client_step hf hc).1, rfl⟩
  · exact .inr ⟨b, rfl, (server_step hs).1⟩

/-! ### The loop goes on -/

theorem withPeer_some {f : Peer → Option Peer} (hn : (peers.map Peer.fd).reduceOption.Nodup) (hj : peers[j]? = some p)
    (hp : p.fd = some fd) (hq : f p = some q) : ∃ qs, withPeer peers fd f = some qs := by
  cases hm : peers.findIdx? fun p => p.fd == some fd with
  | none =>
    have := List.findIdx?_eq_none_iff.1 hm p (List.mem_of_getElem? hj)
    simp [hp] at this
  | some m =>
    obtain ⟨p', hp', hfd⟩ := findIdx?_spec hm
    rw [beq_iff_eq] at hfd
    obtain rfl : j = m := slot_unique hn (by rw [slot_fd hj, hp]) (by rw [slot_fd hp', hfd])
    obtain rfl : p = p' := Option.some.inj (hj.symm.trans hp')
    exact ⟨peers.set j q, by simp only [withPeer, hm, hj, hq, Option.bind_eq_bind, Option.bind_some]⟩

/-- `recv` can always return: an error, the end, the first byte, or that there is nothing. -/
theorem recv_some (p : Peer) : ∃ r q, p.recv r = some q ∧ ∀ data, r = .ok data → data.length ≤ 128 := by
  cases hr : p.reset with
  | true => exact ⟨.error .enotconn, { p with known := true }, by simp [Peer.recv, Errno.soft, hr], by simp⟩
  | false =>
    cases hb : p.inbox with
    | nil =>
      cases hc : p.closed with
      | true => exact ⟨.ok [], { p with known := true }, by simp [Peer.recv, Peer.atEnd, hr, hb, hc], by simp⟩
      | false => exact ⟨.error .eagain, p, by simp [Peer.recv, Errno.soft, hr, hb, hc], by simp⟩
    | cons b rest => exact ⟨.ok [b], { p with inbox := rest }, by simp [Peer.recv, hr, hb], by simp⟩

/-- A step that makes no call, or one whose call the kernel can answer. -/
theorem step_some {b : Label} {t : Server} (hg : w.Posix (.server b)) (ht : w.srv.step b = some t)
    (hc : t.log = w.srv.log ∨ ∃ c qs, t.log = c :: w.srv.log ∧ kernel w.peers c = some qs) :
    ∃ b v, w.Posix (.server b) ∧ w.step (.server b) = some v := by
  rcases hc with hlog | ⟨c, qs, hlog, hqs⟩
  · exact ⟨b, ⟨t, w.peers⟩, hg, by simp only [World.step, ht, hlog, if_true, Option.bind_eq_bind, Option.bind_some]⟩
  · exact ⟨b, ⟨t, qs⟩, hg, by rw [step_call ht hlog, hqs, Option.map_some]⟩

theorem kernel_close (peers : List Peer) (fd : ℕ) : ∃ qs, kernel peers (.close fd) = some qs := by
  simp only [kernel]
  split <;> exact ⟨_, rfl⟩

/-- **The kernel can answer every call on a slot.** -/
theorem exists_peer (h : (machine n L).Reach NewSock w) (hin : w.srv.InLoop) (hfd : w.srv.sock[i]? = some (some fd)) :
    ∃ (j : ℕ) (p : Peer), w.peers[j]? = some p ∧ p.fd = some fd := by
  have hopen := Server.mem_open_of_slot ((Server.slots_of_loop hin).1 (srv_table h).slots).1 hfd
  obtain ⟨p, hp, hfd⟩ := List.mem_map.1 (List.reduceOption_mem_iff.1 ((link_of_reach h).mem_iff.2 hopen))
  obtain ⟨j, hj⟩ := List.mem_iff_getElem?.1 hp
  exact ⟨j, p, hj, hfd⟩

/-- At `accept`, the first of those who wait gets a new descriptor. -/
theorem can_accept {k : ℕ} (h : (machine n L).Reach NewSock w) (hpc : w.srv.pc = .accept k) :
    ∃ b v, w.Posix (.server b) ∧ w.step (.server b) = some v := by
  have hk := (List.getElem?_eq_some_iff.1 ((srv_table h).free hpc)).1
  cases hpend : w.peers.any (·.conn == .pending) with
  | true =>
    obtain ⟨fd, hfd⟩ := Infinite.exists_notMem_finset (insert w.srv.listenSock w.srv.openSocks.toFinset)
    simp only [Finset.mem_insert, List.mem_toFinset, not_or] at hfd
    obtain ⟨u, hu, -⟩ := (accept_pending hpc hk hpend).2 fd
    exact ⟨.accept (.ok fd), u, hfd, hu⟩
  | false =>
    have ht : w.srv.step (.accept (.error .eagain)) = some (w.srv.accept k (.error .eagain)) := by
      simp only [Server.step, hpc]
    exact step_some (b := .accept (.error .eagain)) trivial ht
      (.inr ⟨.accept (.error .eagain), w.peers, rfl, by simp [kernel, hpend]⟩)

/-- In the service loop, a slot is skipped or polled, or the pass ends. -/
theorem can_serve (h : (machine n L).Reach NewSock w) (hpc : w.srv.pc = .serve i) :
    ∃ b v, w.Posix (.server b) ∧ w.step (.server b) = some v := by
  rcases hi : w.srv.sock[i]? with _ | _ | fd
  · exact step_some (b := .tau) (t := { w.srv with pc := .head, log := .usleep :: w.srv.log }) trivial
      (by simp only [Server.step, Server.tau, hpc, hi]) (.inr ⟨.usleep, w.peers, rfl, rfl⟩)
  · exact step_some (b := .tau) (t := { w.srv with pc := .serve (i + 1) }) trivial
      (by simp only [Server.step, Server.tau, hpc, hi]) (.inl rfl)
  · obtain ⟨j, p, hj, hp⟩ := exists_peer h (by simp [Server.InLoop, hpc]) hi
    obtain ⟨r, q, hq, hshort⟩ := recv_some p
    obtain ⟨qs, hqs⟩ := withPeer_some (f := (·.recv r)) (fds_nodup h) hj hp hq
    -- what `recv` returns fits into `rx_buffer`
    obtain ⟨rx, hrx⟩ : ∃ rx, Server.rxStore w.srv.rxBuffer r = some rx := by
      cases r with
      | ok data => exact Arr.exists_store _ _ _ (by have := hshort data rfl; omega)
      | error e => exact ⟨_, rfl⟩
    have ht : w.srv.step (.recv r) = w.srv.received i fd r := by simp only [Server.step, hpc, hi]
    rw [Server.received, hrx, Option.map_some] at ht
    exact step_some (b := .recv r) trivial ht (.inr ⟨.recv fd r, qs, rfl, hqs⟩)

/-- In `socket_send`, a byte is taken, or the client has reset its connection. -/
theorem can_send {len : ℕ} {k : ℤ} (h : (machine n L).Reach Posix w) (hpc : w.srv.pc = .send i len k) :
    ∃ b v, w.Posix (.server b) ∧ w.step (.server b) = some v := by
  have hnew := h.mono fun _ _ => Posix.newSock
  obtain ⟨fd, hfd⟩ := (srv_inv h).taken (.inr (.inl ⟨len, k, hpc⟩))
  obtain ⟨hpos, hle, -⟩ := (srv_inv h).sending hpc hfd
  obtain ⟨j, p, hj, hp⟩ := exists_peer hnew (by simp [Server.InLoop, hpc]) hfd
  have hstep : ∀ r, w.srv.step (.send r) = w.srv.sent i fd len k r := by
    intro r; simp only [Server.step, hpc, hfd]
  have ho : (0 : ℤ) ≤ len - k := by omega
  cases hr : p.reset with
  | true =>
    have ht := hstep (.error .enotconn)
    simp only [Server.sent, if_pos ho] at ht
    obtain ⟨qs, hqs⟩ := withPeer_some (f := (·.send (.error .enotconn))) (fds_nodup hnew) hj hp rfl
    exact step_some (b := .send (.error .enotconn)) rfl ht (.inr ⟨_, qs, rfl, hqs⟩)
  | false =>
    have ht := hstep (.ok 1)
    simp only [Server.sent, if_pos ho] at ht
    rw [if_pos (by omega)] at ht
    obtain ⟨qs, hqs⟩ := withPeer_some (f := (·.send (.ok ((w.srv.rxBuffer.data.drop (len - k).toNat).take 1))))
      (fds_nodup hnew) hj hp (by simp only [Peer.send, hr]; rfl)
    exact step_some (b := .send (.ok 1)) (le_refl 1) ht (.inr ⟨_, qs, rfl, hqs⟩)

/-- **The loop is never stuck.** In every reachable state of the loop there is a step of the
server, with a result that the kernel can return. -/
theorem can_step (h : (machine n L).Reach Posix w) (hin : w.srv.InLoop) :
    ∃ b v, w.Posix (.server b) ∧ w.step (.server b) = some v := by
  have hnew := h.mono fun _ _ => Posix.newSock
  have htau : ∀ t : Server, w.srv.step .tau = some t →
      (t.log = w.srv.log ∨ ∃ c qs, t.log = c :: w.srv.log ∧ kernel w.peers c = some qs) →
      ∃ b v, w.Posix (.server b) ∧ w.step (.server b) = some v := fun t => step_some trivial
  cases hpc : w.srv.pc with
  | head =>
    cases hk : w.srv.sock.findIdx? (·.isNone) with
    | none => exact htau { w.srv with pc := .serve 0 } (by simp only [Server.step, Server.tau, hpc, hk]) (.inl rfl)
    | some k => exact htau { w.srv with pc := .accept k } (by simp only [Server.step, Server.tau, hpc, hk]) (.inl rfl)
  | accept k => exact can_accept hnew hpc
  | fcntl k =>
    obtain ⟨fd, hfd⟩ := (srv_inv h).taken (.inl hpc)
    exact step_some (b := .fcntl true) (t := { w.srv with pc := .serve 0, log := .fcntl fd true :: w.srv.log }) trivial
      (by simp only [Server.step, hpc, hfd, if_true]) (.inr ⟨.fcntl fd true, w.peers, rfl, rfl⟩)
  | serve i => exact can_serve hnew hpc
  | send i len k => exact can_send h hpc
  | close i =>
    obtain ⟨fd, hfd⟩ := (srv_inv h).taken (.inr (.inr hpc))
    obtain ⟨qs, hqs⟩ := kernel_close w.peers fd
    exact htau { w.srv with pc := .serve (i + 1), sock := w.srv.sock.set i none, log := .close fd :: w.srv.log }
      (by simp only [Server.step, Server.tau, hpc, hfd]) (.inr ⟨_, qs, rfl, hqs⟩)
  | error =>
    obtain ⟨qs, hqs⟩ := kernel_close w.peers w.srv.listenSock
    exact htau { w.srv with pc := .sweep 0, log := .close w.srv.listenSock :: w.srv.log }
      (by simp only [Server.step, Server.tau, hpc]) (.inr ⟨_, qs, rfl, hqs⟩)
  | sweep i => exact absurd hpc (hin.1 i)
  | done => exact absurd hpc hin.2

/-! ### A round -/

/-- `fd` has been polled or closed since `log`. -/
def Served (fd : ℕ) (log : List Call) (w : World) : Prop :=
  ∃ calls, w.srv.log = calls ++ log ∧ ((∃ r, .recv fd r ∈ calls) ∨ .close fd ∈ calls)

theorem Served.step {log : List Call} (h : Served fd log w) (hs : w.step l = some v) : Served fd log v := by
  obtain ⟨calls, hlog, hmem⟩ := h
  rcases srv_cases hs with ⟨hsrv, -⟩ | ⟨b, -, ht⟩
  · exact ⟨calls, by rw [hsrv, hlog], hmem⟩
  · obtain ⟨new, hnew⟩ := Server.log_step ht
    refine ⟨new ++ calls, by rw [← hnew, hlog, List.append_assoc], ?_⟩
    rcases hmem with ⟨r, hr⟩ | hc
    · exact .inl ⟨r, List.mem_append_right _ hr⟩
    · exact .inr (List.mem_append_right _ hc)

theorem Served.call {log : List Call} {c : Call} (hold : log <:+ w.srv.log) (hnew : v.srv.log = c :: w.srv.log)
    (hc : (∃ r, c = .recv fd r) ∨ c = .close fd) : Served fd log v := by
  obtain ⟨old, hold⟩ := hold
  refine ⟨c :: old, by rw [hnew, ← hold, List.cons_append], ?_⟩
  rcases hc with ⟨r, rfl⟩ | rfl
  · exact .inl ⟨r, List.mem_cons_self⟩
  · exact .inr List.mem_cons_self

/-- **No client waits for longer than a round.** From any reachable state, within
`130 * n + 4` steps of the server, whatever the clients do in between and however much
`recv` and `send` take, the descriptor in a slot is polled or closed, unless the server
leaves its loop after an error. -/
theorem served_within {ls ks : List WorldLabel} (h : (machine n L).Run Posix (machine n L).init ls w)
    (hfd : w.srv.sock[i]? = some (some fd)) (hrun : (machine n L).Run Posix w ks v)
    (hlong : 130 * n + 4 ≤ ks.countP serverStep) : ¬ v.srv.InLoop ∨ Served fd w.srv.log v := by
  have hw := srv_inv ⟨ls, h⟩
  have hi : i < n := by
    rw [← hw.len]
    exact (List.getElem?_eq_some_iff.1 hfd).1
  refine hrun.response (Q := fun v => ¬ v.srv.InLoop ∨ Served fd w.srv.log v)
    (I := fun v => (machine n L).Reach Posix v ∧ v.srv.InLoop ∧ w.srv.log <:+ v.srv.log ∧
      v.srv.sock[i]? = some (some fd))
    (μ := fun v => v.srv.turns i) (c := serverStep) ?_ ?_ ?_ ?_
  · by_cases hin : w.srv.InLoop
    · exact .inr ⟨⟨ls, h⟩, hin, List.suffix_rfl, hfd⟩
    · exact .inl (.inl hin)
  · rintro v l u ⟨hv, hin, hlog, hfd⟩ hg hs
    have hu := hv.step hg hs
    rcases srv_cases hs with ⟨hsrv, hl⟩ | ⟨b, rfl, ht⟩
    · right
      simp only [hsrv, hl]
      exact ⟨⟨hu, hin, hlog, hfd⟩, le_rfl⟩
    · cases Server.turns_step (srv_inv hv) hg hfd hin ht with
      | polled hpc hnew => exact .inl (.inr (.call hlog hnew (.inl ⟨_, rfl⟩)))
      | closed hpc hnew => exact .inl (.inr (.call hlog hnew (.inr rfl)))
      | left hout => exact .inl (.inl hout)
      | nearer hfd' hlt =>
        by_cases hout : u.srv.InLoop
        · exact .inr ⟨⟨hu, hout, hlog.trans (Server.log_step ht), hfd'⟩, hlt⟩
        · exact .inl (.inl hout)
  · intro v l u hv hg hs
    rcases hv with hout | hserved
    · left
      rcases srv_cases hs with ⟨hsrv, -⟩ | ⟨b, -, ht⟩
      · rwa [hsrv]
      · exact fun h => hout (Server.inLoop_of_step ht h)
    · exact .inr (hserved.step hs)
  · have := Server.turns_le hw hi
    omega

/-- A client is accepted into the only slot. -/
def admitOne : List WorldLabel := [.connect, .server .tau, .server (.accept (.ok 7)), .server (.fcntl true)]

/-- It sends nothing; `recv` has nothing each time. -/
def idle : List WorldLabel :=
  (List.replicate 45 [.server (.recv (.error .eagain)), .server .tau, .server .tau]).flatten

/-- `served_within` over `idle`. -/
theorem served_within_idle : ∃ w v, (machine 1 3).Run Posix (machine 1 3).init admitOne w ∧
    (machine 1 3).Run Posix w idle v ∧ w.srv.sock = [some 7] ∧ Served 7 w.srv.log v := by
  have hstart : ((machine 1 3).exec Posix (machine 1 3).init admitOne).map (fun w =>
        w.srv.sock == [some 7] && ((machine 1 3).exec Posix w idle).any (·.srv.pc == .serve 0)) = some true := by
    decide +kernel
  obtain ⟨w, hw, hp⟩ := Option.map_eq_some_iff.1 hstart
  rw [Bool.and_eq_true, beq_iff_eq, Option.any_eq_true] at hp
  obtain ⟨hsock, v, hv, hpc⟩ := hp
  rw [beq_iff_eq] at hpc
  have hadmit := Machine.Run.of_exec hw
  have hrun := Machine.Run.of_exec hv
  refine ⟨w, v, hadmit, hrun, hsock, ?_⟩
  rcases served_within hadmit (i := 0) (by rw [hsock]; rfl) hrun (by decide +kernel) with hout | h
  · exact absurd (by simp [Server.InLoop, hpc]) hout
  · exact h

end World

end EspNetwork.Tcp
