import EspNetwork.Proof.Slots
import EspNetwork.Spec.TcpPeers

/-!
# Clients that leave

`try_receive` hands `recv`'s 0 on, and the service loop takes 0 for "no data".

* `Server.step_closing`: a slot is closed next when a call on it has failed hard, and
  only then.
* `World.link_of_reach`: the open descriptors are those of the accepted clients.
* `World.Inv`: a client known to have left is one whose slot is being closed, as long as
  no end of a stream is polled.
* `World.occupied_eq`: then the slots taken are those of the connected clients.
* `Server.eof_held`: a slot whose `recv` has reported the end of the stream is still held
  at the end of the pass.
-/

namespace EspNetwork.Tcp

open CLib Handle Lts

variable {n L fd i : ℕ} {log : List Call} {c : Call} {peers qs : List Peer} {p q : Peer}

/-! ## One step of the server -/

/-- The descriptor on which a call has failed hard. -/
def failed : Call → Option ℕ
  | .recv fd (.error e) => if e.soft then none else some fd
  | .send fd _ _ (.error e) => if e.soft then none else some fd
  | _ => none

namespace Server

variable {s t : Server} {l : Label}

/-- The descriptor that is closed next in the service loop. -/
def closing (s : Server) : Option ℕ :=
  match s.pc with
  | .close i => s.sock[i]?.join
  | _ => none

theorem closing_eq_none (h : ∀ i, s.pc ≠ .close i) : s.closing = none := by
  unfold closing
  split
  · rename_i i hi; exact absurd hi (h i)
  · rfl

theorem closing_sendLoop {len : ℕ} {w : ℤ} (h : t.pc = sendLoop i len w) : t.closing = none := by
  apply closing_eq_none
  rw [h]
  unfold sendLoop
  split <;> simp

/-- **When a slot is closed.** A step makes no call, or it is the `close` of the slot
being closed, or no slot is being closed and the next one to be is the one on which the
step's call has failed. -/
theorem step_closing (hs : s.step l = some t) :
    (t.log = s.log ∧ s.closing = none ∧ t.closing = none) ∨
    (∃ c, t.log = c :: s.log ∧ s.closing = none ∧ t.closing = failed c) ∨
    (∃ fd, t.log = .close fd :: s.log ∧ s.closing = some fd ∧ t.closing = none) := by
  have hnone : (∀ i, s.pc ≠ .close i) → s.closing = none := closing_eq_none
  cases step_cases hs with
  | free hpc | full hpc | skip hpc | sweepSkip hpc | sweepEnd hpc =>
    exact .inl ⟨rfl, hnone (by simp [hpc]), rfl⟩
  | close hpc hfd => exact .inr (.inr ⟨_, rfl, by simp [closing, hpc, hfd], rfl⟩)
  | accepted hpc | noClient hpc | acceptFailed hpc | fcntl hpc | fcntlFailed hpc | pass hpc | received hpc
  | receivedEnd hpc | error hpc | sweepClose hpc =>
    exact .inr (.inl ⟨_, rfl, hnone (by simp [hpc]), rfl⟩)
  | noData hpc hfd he =>
    exact .inr (.inl ⟨_, rfl, hnone (by simp [hpc]), by simp [closing, failed, he]⟩)
  | recvFailed hpc hfd he =>
    exact .inr (.inl ⟨_, rfl, hnone (by simp [hpc]), by simp [closing, failed, hfd, he]⟩)
  | sent hpc hfd ho hk => exact .inr (.inl ⟨_, rfl, hnone (by simp [hpc]), closing_sendLoop rfl⟩)
  | sentNone hpc hfd ho he =>
    refine .inr (.inl ⟨_, rfl, hnone (by simp [hpc]), ?_⟩)
    rw [closing_sendLoop rfl]
    simp [failed, he]
  | sendFailed hpc hfd ho he =>
    exact .inr (.inl ⟨_, rfl, hnone (by simp [hpc]), by simp [closing, failed, hfd, he]⟩)

/-- A `recv` is made on the slot being served. -/
theorem recv_call {r : Except Errno Bytes} (hs : s.step l = some t) (hlog : t.log = .recv fd r :: s.log) :
    l = .recv r ∧ ∃ i, s.pc = .serve i ∧ s.sock[i]? = some (some fd) := by
  cases step_cases hs with
  | received hpc hfd | receivedEnd hpc hfd | noData hpc hfd | recvFailed hpc hfd =>
    obtain ⟨rfl, rfl⟩ := Call.recv.inj (List.cons.inj hlog).1
    exact ⟨rfl, _, hpc, hfd⟩
  | _ => simp at hlog

/-! ## The end of a stream -/

/-- Each end of a stream reported in this pass is that of a slot before `sock[i]`. -/
def HeldBelow (s : Server) (i : ℕ) : Prop :=
  ∀ fd, .recv fd (.ok []) ∈ thisPass s.log → ∃ j, j < i ∧ s.sock[j]? = some (some fd)

/-- What is known about the ends of streams reported in the current pass. -/
def EofHeld (s : Server) : Prop :=
  match s.pc with
  | .serve i | .send i _ _ | .close i => s.HeldBelow i
  | .head | .accept _ | .fcntl _ => ∀ fd, .recv fd (.ok []) ∉ thisPass s.log
  | _ => True

theorem mem_thisPass_cons {d : Call} (h : c ≠ .usleep) :
    d ∈ thisPass (c :: log) ↔ d = c ∨ d ∈ thisPass log := by
  have hb : (c != .usleep) = true := by simpa using h
  rw [thisPass, List.takeWhile_cons, if_pos hb, List.mem_cons]
  rfl

/-- A call that reports no end keeps what is held. -/
theorem HeldBelow.call {j : ℕ} (h : s.HeldBelow i) (hlog : t.log = c :: s.log) (hu : c ≠ .usleep)
    (hc : ∀ fd, c ≠ .recv fd (.ok [])) (hsock : ∀ k, k < i → t.sock[k]? = s.sock[k]?) (hij : i ≤ j) :
    t.HeldBelow j := by
  intro fd hmem
  rw [hlog, mem_thisPass_cons hu] at hmem
  rcases hmem with he | hmem
  · exact absurd he.symm (hc fd)
  · obtain ⟨k, hk, hfd⟩ := h fd hmem
    exact ⟨k, by omega, by rw [hsock k hk, hfd]⟩

theorem eofHeld_sendLoop {len : ℕ} {w : ℤ} (hpc : t.pc = sendLoop i len w) (h : t.HeldBelow i) :
    t.EofHeld := by
  unfold sendLoop at hpc
  unfold EofHeld
  split at hpc <;> rw [hpc]
  · exact h
  · intro fd hmem
    obtain ⟨j, hj, hfd⟩ := h fd hmem
    exact ⟨j, by omega, hfd⟩

theorem EofHeld.below (h : s.EofHeld)
    (hpc : s.pc = .serve i ∨ (∃ len w, s.pc = .send i len w) ∨ s.pc = .close i) : s.HeldBelow i := by
  unfold EofHeld at h
  rcases hpc with hpc | ⟨len, w, hpc⟩ | hpc <;> rwa [hpc] at h

theorem EofHeld.none (h : s.EofHeld)
    (hpc : s.pc = .head ∨ (∃ k, s.pc = .accept k) ∨ ∃ k, s.pc = .fcntl k) :
    ∀ fd, .recv fd (.ok []) ∉ thisPass s.log := by
  unfold EofHeld at h
  rcases hpc with hpc | ⟨k, hpc⟩ | ⟨k, hpc⟩ <;> rwa [hpc] at h

/-- Another call before the service loop. -/
theorem not_eof_cons (h : ∀ fd, .recv fd (.ok []) ∉ thisPass log) (hu : c ≠ .usleep)
    (hc : ∀ fd, c ≠ .recv fd (.ok [])) (fd : ℕ) : .recv fd (.ok []) ∉ thisPass (c :: log) := by
  rw [mem_thisPass_cons hu]
  intro hmem
  rcases hmem with he | hmem
  · exact hc fd he.symm
  · exact h fd hmem

theorem EofHeld.step (h : s.EofHeld) (hs : s.step l = some t) : t.EofHeld := by
  cases step_cases hs with
  | free hpc => exact h.none (.inl hpc)
  | full hpc => exact fun fd hmem => absurd hmem (h.none (.inl hpc) fd)
  | accepted hpc => exact not_eof_cons (h.none (.inr (.inl ⟨_, hpc⟩))) (by simp) (by simp)
  | noClient hpc =>
    exact fun fd hmem => absurd hmem (not_eof_cons (h.none (.inr (.inl ⟨_, hpc⟩))) (by simp) (by simp) fd)
  | fcntl hpc =>
    exact fun fd hmem => absurd hmem (not_eof_cons (h.none (.inr (.inr ⟨_, hpc⟩))) (by simp) (by simp) fd)
  | skip hpc =>
    intro fd hmem
    obtain ⟨j, hj, hfd⟩ := h.below (.inl hpc) fd hmem
    exact ⟨j, by omega, hfd⟩
  | pass hpc => intro fd; simp [thisPass]
  | received hpc hfd hrx hne =>
    exact (h.below (.inl hpc)).call rfl (by simp) (by simpa using hne) (fun _ _ => rfl) le_rfl
  | receivedEnd hpc hfd =>
    -- the slot that has just been served
    intro fd' hmem
    rw [mem_thisPass_cons (by simp)] at hmem
    rcases hmem with he | hmem
    · obtain ⟨rfl, -⟩ := Call.recv.inj he
      exact ⟨_, Nat.lt_succ_self _, hfd⟩
    · obtain ⟨j, hj, hfd'⟩ := h.below (.inl hpc) fd' hmem
      exact ⟨j, by omega, hfd'⟩
  | noData hpc =>
    exact (h.below (.inl hpc)).call rfl (by simp) (by simp) (fun _ _ => rfl) (Nat.le_succ _)
  | recvFailed hpc => exact (h.below (.inl hpc)).call rfl (by simp) (by simp) (fun _ _ => rfl) le_rfl
  | sent hpc | sentNone hpc =>
    have hbelow := h.below (.inr (.inl ⟨_, _, hpc⟩))
    exact eofHeld_sendLoop rfl (hbelow.call rfl (by simp) (by simp) (fun _ _ => rfl) le_rfl)
  | sendFailed hpc =>
    exact (h.below (.inr (.inl ⟨_, _, hpc⟩))).call rfl (by simp) (by simp) (fun _ _ => rfl) le_rfl
  | close hpc hfd =>
    exact (h.below (.inr (.inr hpc))).call rfl (by simp) (by simp)
      (fun k hk => List.getElem?_set_ne (by omega)) (Nat.le_succ _)
  | acceptFailed | fcntlFailed | error | sweepSkip | sweepClose | sweepEnd => trivial

/-- **A reported end of stream frees no slot**: at the end of the pass, and before, the
slot still holds the descriptor. -/
theorem eof_held {G : Server → Label → Prop} (h : (machine n L).Reach G s) (hpc : s.pc = .serve i)
    (hmem : .recv fd (.ok []) ∈ thisPass s.log) : some fd ∈ s.sock := by
  have hheld : s.EofHeld := by
    refine h.invariant (P := EofHeld) ?_ fun _ _ _ he _ hs => he.step hs
    intro fd hmem
    cases hmem
  obtain ⟨j, -, hj⟩ := hheld.below (.inl hpc) fd hmem
  exact List.mem_of_getElem? hj

end Server

/-! ## The clients -/

namespace Peer

/-- A `recv` keeps the descriptor; its 0 is the end of the stream; and it tells that the
client has left by this or by a hard error. -/
theorem recv_spec {r : Except Errno Bytes} (h : p.recv r = some q) : q.conn = p.conn ∧
    (r = .ok [] → p.atEnd = true) ∧
    (q.known = p.known ∨ r = .ok [] ∨ ∃ e, r = .error e ∧ e.soft = false) := by
  unfold recv at h
  split at h
  · rename_i data
    split at h
    · exact absurd h (by simp)
    split at h
    · rename_i hemp
      obtain rfl : data = [] := by simpa using hemp
      split at h
      · rename_i hend
        simp only [Option.some.injEq] at h; subst h
        exact ⟨rfl, fun _ => hend, .inr (.inl rfl)⟩
      · exact absurd h (by simp)
    · rename_i hne
      split at h
      · simp only [Option.some.injEq] at h; subst h
        refine ⟨rfl, ?_, .inl rfl⟩
        intro he
        obtain rfl := Except.ok.inj he
        exact absurd rfl hne
      · exact absurd h (by simp)
  · rename_i e
    split at h
    · split at h
      · exact absurd h (by simp)
      · simp only [Option.some.injEq] at h; subst h
        exact ⟨rfl, by simp, .inl rfl⟩
    · rename_i hhard
      split at h
      · simp only [Option.some.injEq] at h; subst h
        exact ⟨rfl, by simp, .inr (.inr ⟨e, rfl, by simpa using hhard⟩)⟩
      · exact absurd h (by simp)

theorem send_spec {r : Except Errno Bytes} (h : p.send r = some q) : q.conn = p.conn ∧
    (q.known = p.known ∨ ∃ e, r = .error e ∧ e.soft = false) := by
  unfold send at h
  split at h
  · split at h
    · exact absurd h (by simp)
    · simp only [Option.some.injEq] at h; subst h
      exact ⟨rfl, .inl rfl⟩
  · rename_i e
    simp only [Option.some.injEq] at h; subst h
    refine ⟨rfl, ?_⟩
    cases he : e.soft with
    | true => left; simp
    | false => right; exact ⟨e, rfl, he⟩

theorem fd_congr (h : q.conn = p.conn) : q.fd = p.fd := by
  unfold fd; rw [h]

end Peer

/-- What a system call does to the clients. -/
inductive Kernel (peers : List Peer) : Call → List Peer → Prop
  | accepted {fd j : ℕ} {p : Peer} (hj : peers[j]? = some p) (hp : p.conn = .pending) :
    Kernel peers (.accept (.ok fd)) (peers.set j { p with conn := .accepted fd })
  /-- a `recv` or `send` on the descriptor of a client -/
  | used {c : Call} {fd j : ℕ} {p q : Peer} (hc : ∀ L, Server.event L c = some (.use fd))
      (hj : peers[j]? = some p) (hp : p.fd = some fd) (hq : q.conn = p.conn)
      (hend : c = .recv fd (.ok []) → p.atEnd = true)
      (hknown : q.known = p.known ∨ c = .recv fd (.ok []) ∨ failed c = some fd) :
    Kernel peers c (peers.set j q)
  | closed {fd j : ℕ} {p : Peer} (hj : peers[j]? = some p) (hp : p.fd = some fd) :
    Kernel peers (.close fd) (peers.set j { p with conn := .released })
  | notClient {fd : ℕ} (h : ∀ p ∈ peers, p.fd ≠ some fd) : Kernel peers (.close fd) peers
  | other {c : Call} (hc : ∀ L, Server.event L c = none) (hf : failed c = none) : Kernel peers c peers

theorem findIdx?_spec {f : Peer → Bool} {j : ℕ} (h : peers.findIdx? f = some j) :
    ∃ p, peers[j]? = some p ∧ f p = true := by
  obtain ⟨hlt, hf, -⟩ := List.findIdx?_eq_some_iff_getElem.1 h
  exact ⟨_, List.getElem?_eq_getElem hlt, hf⟩

theorem withPeer_spec {f : Peer → Option Peer} (h : withPeer peers fd f = some qs) : ∃ j p q,
    peers[j]? = some p ∧ p.fd = some fd ∧ f p = some q ∧ qs = peers.set j q := by
  obtain ⟨j, hj, h⟩ := Option.bind_eq_some_iff.1 h
  obtain ⟨p, hp, h⟩ := Option.bind_eq_some_iff.1 h
  obtain ⟨q, hq, h⟩ := Option.bind_eq_some_iff.1 h
  simp only [Option.some.injEq] at h; subst h
  obtain ⟨p', hp', hfd⟩ := findIdx?_spec hj
  rw [hp] at hp'
  obtain rfl := Option.some.inj hp'
  exact ⟨j, p, q, hp, by simpa using hfd, hq, rfl⟩

theorem kernel_cases (h : kernel peers c = some qs) : Kernel peers c qs := by
  unfold kernel at h
  split at h
  · obtain ⟨j, hj, h⟩ := Option.bind_eq_some_iff.1 h
    obtain ⟨p, hp, h⟩ := Option.bind_eq_some_iff.1 h
    simp only [Option.some.injEq] at h; subst h
    obtain ⟨p', hp', hconn⟩ := findIdx?_spec hj
    rw [hp] at hp'
    obtain rfl := Option.some.inj hp'
    exact .accepted hp (by simpa using hconn)
  · split at h
    · exact absurd h (by simp)
    · simp only [Option.some.injEq] at h; subst h
      exact .other (fun _ => rfl) rfl
  · simp only [Option.some.injEq] at h; subst h
    exact .other (fun _ => rfl) rfl
  · rename_i fd r
    obtain ⟨j, p, q, hj, hp, hq, rfl⟩ := withPeer_spec h
    obtain ⟨hconn, hend, hknown⟩ := Peer.recv_spec hq
    refine .used (fun _ => rfl) hj hp hconn (fun he => hend (Call.recv.inj he).2) ?_
    rcases hknown with hk | rfl | ⟨e, rfl, he⟩
    · exact .inl hk
    · exact .inr (.inl rfl)
    · exact .inr (.inr (by simp [failed, he]))
  · rename_i fd o n r
    obtain ⟨j, p, q, hj, hp, hq, rfl⟩ := withPeer_spec h
    obtain ⟨hconn, hknown⟩ := Peer.send_spec hq
    refine .used (fun _ => rfl) hj hp hconn (by simp) ?_
    rcases hknown with hk | ⟨e, rfl, he⟩
    · exact .inl hk
    · exact .inr (.inr (by simp [failed, he]))
  · rename_i fd
    split at h
    · rename_i j hj
      simp only [Option.some.injEq] at h; subst h
      obtain ⟨p, hp, hfd⟩ := findIdx?_spec hj
      have hset : (peers.modify j fun p => { p with conn := .released }) =
          peers.set j { p with conn := .released } := by
        obtain ⟨hlt, rfl⟩ := List.getElem?_eq_some_iff.1 hp
        rw [List.modify_eq_set_getElem?, List.getElem?_eq_getElem hlt]
        rfl
      rw [hset]
      exact .closed hp (by simpa using hfd)
    · rename_i hnone
      simp only [Option.some.injEq] at h; subst h
      refine .notClient ?_
      intro p hp
      have := List.findIdx?_eq_none_iff.1 hnone p hp
      simpa using this
  · simp only [Option.some.injEq] at h; subst h
    exact .other (fun _ => rfl) rfl
  · simp only [Option.some.injEq] at h; subst h
    exact .other (fun _ => rfl) rfl

/-! ## Descriptors and clients -/

theorem slot_fd {j : ℕ} (hj : peers[j]? = some p) : (peers.map Peer.fd)[j]? = some p.fd := by
  rw [List.getElem?_map, hj, Option.map_some]

/-- A call on the descriptor of a client is a call on that client. -/
theorem withPeer_self {f : Peer → Option Peer} {j : ℕ} (h : withPeer peers fd f = some qs)
    (hn : (peers.map Peer.fd).reduceOption.Nodup) (hj : peers[j]? = some p) (hp : p.fd = some fd) :
    ∃ q, f p = some q ∧ qs = peers.set j q := by
  obtain ⟨m, p', q, hm, hp', hq, rfl⟩ := withPeer_spec h
  obtain rfl : j = m := slot_unique hn (by rw [slot_fd hj, hp]) (by rw [slot_fd hm, hp'])
  obtain rfl : p = p' := Option.some.inj (hj.symm.trans hm)
  exact ⟨q, hq, rfl⟩

/-- A client whose connection stays the same keeps its descriptor. -/
theorem map_fd_set {j : ℕ} (hj : peers[j]? = some p) (hq : q.conn = p.conn) :
    (peers.set j q).map Peer.fd = peers.map Peer.fd := by
  obtain ⟨hlt, he⟩ := List.getElem?_eq_some_iff.1 (slot_fd hj)
  rw [List.map_set, Peer.fd_congr hq, ← he, List.set_getElem_self]

/-- The accepted clients hold the open descriptors. -/
theorem link_kernel (hk : Kernel peers c qs) (hL : L ∉ opened L log)
    (h : (peers.map Peer.fd).reduceOption.Perm (opened L log)) :
    (qs.map Peer.fd).reduceOption.Perm (opened L (c :: log)) := by
  cases hk with
  | @accepted fd j p hj hp =>
    have hfree : (peers.map Peer.fd)[j]? = some none := by
      rw [slot_fd hj, Peer.fd, hp]
    rw [List.map_set]
    exact (reduceOption_set_some hfree).trans (h.cons fd)
  | @used c fd j p q hc hj hp hq hend hknown =>
    rw [map_fd_set hj hq, opened, List.filterMap_cons, hc]
    exact h
  | @closed fd j p hj hp =>
    have hheld : (peers.map Peer.fd)[j]? = some (some fd) := by
      rw [slot_fd hj, hp]
    have hmem : fd ∈ opened L log :=
      h.mem_iff.1 (List.reduceOption_mem_iff.2 (List.mem_of_getElem? hheld))
    have hne : fd ≠ L := by
      intro he; subst he; exact hL hmem
    have := ((reduceOption_set_none hheld).trans h).erase fd
    rw [List.erase_cons_head] at this
    rw [List.map_set, opened, List.filterMap_cons, Server.event, if_neg hne]
    exact this
  | @notClient fd hno =>
    rw [opened, List.filterMap_cons, Server.event]
    split
    · rename_i hev
      split at hev
      · exact h
      · exact absurd hev (by simp)
    · rename_i ev hev
      split at hev
      · exact absurd hev (by simp)
      · obtain rfl := Option.some.inj hev
        -- no client holds `fd`, so it was not open
        have hnot : fd ∉ opened L log := by
          rw [← h.mem_iff, List.reduceOption_mem_iff, List.mem_map]
          intro hex
          obtain ⟨p, hp, hfd⟩ := hex
          exact hno p hp hfd
        have herase : (opened L log).erase fd = opened L log := List.erase_of_not_mem hnot
        rw [← herase] at h
        exact h
  | other hc hf =>
    rw [opened, List.filterMap_cons, hc]
    exact h

/-- A client known to have left has been released, or its slot is being closed. -/
def KnownOk (peers : List Peer) (closing : Option ℕ) : Prop :=
  ∀ (j : ℕ) (p : Peer), peers[j]? = some p → p.known = true →
    p.conn = .released ∨ ∃ fd, p.fd = some fd ∧ closing = some fd

theorem getElem?_set_cases {j m : ℕ} (h : (peers.set j q)[m]? = some p) :
    (m = j ∧ p = q) ∨ peers[m]? = some p := by
  by_cases hmj : m = j
  · subst hmj
    rw [List.getElem?_set_self' ] at h
    cases hp : peers[m]? with
    | none => simp [hp] at h
    | some p' =>
      left
      simpa [hp, eq_comm] using h
  · rw [List.getElem?_set_ne (Ne.symm hmj)] at h
    exact .inr h

/-- A client whose end is known after a call that was not the end of a stream. -/
theorem KnownOk.kernel (h : KnownOk peers none) (hk : Kernel peers c qs)
    (hc : ∀ fd, c ≠ .recv fd (.ok [])) : KnownOk qs (failed c) := by
  -- a client whose state is not touched by the call
  have hold : ∀ {j : ℕ} {p : Peer}, peers[j]? = some p → p.known = true → p.conn = .released := by
    intro j p hj hp
    rcases h j p hj hp with hr | ⟨fd, -, hn⟩
    · exact hr
    · exact absurd hn (by simp)
  intro m r hm hr
  cases hk with
  | @accepted fd j p hj hp =>
    rcases getElem?_set_cases hm with ⟨rfl, rfl⟩ | hm
    · have := hold hj hr
      rw [hp] at this
      exact absurd this (by simp)
    · exact .inl (hold hm hr)
  | @used c fd j p q hev hj hp hq hend hknown =>
    rcases getElem?_set_cases hm with ⟨rfl, rfl⟩ | hm
    · right
      refine ⟨fd, (Peer.fd_congr hq).trans hp, ?_⟩
      rcases hknown with hkn | heof | hf
      · have := hold hj (hkn ▸ hr)
        simp [Peer.fd, this] at hp
      · exact absurd heof (hc fd)
      · exact hf
    · exact .inl (hold hm hr)
  | @closed fd j p hj hp =>
    rcases getElem?_set_cases hm with ⟨rfl, rfl⟩ | hm
    · exact .inl rfl
    · exact .inl (hold hm hr)
  | notClient => exact .inl (hold hm hr)
  | other => exact .inl (hold hm hr)

/-- Closing the slot releases the client that was known to have left. -/
theorem KnownOk.close (h : KnownOk peers (some fd)) (hk : Kernel peers (.close fd) qs)
    (hn : (peers.map Peer.fd).reduceOption.Nodup) : KnownOk qs none := by
  intro m r hm hr
  left
  cases hk with
  | used hc => exact absurd (hc fd) (by simp [Server.event])
  | @closed _ j p hj hp =>
    by_cases hmj : m = j
    · subst hmj
      rw [List.getElem?_set_self (List.getElem?_eq_some_iff.1 hj).1] at hm
      obtain rfl := Option.some.inj hm
      rfl
    · rw [List.getElem?_set_ne (Ne.symm hmj)] at hm
      rcases h m r hm hr with hrel | ⟨fd', hfd', hcl⟩
      · exact hrel
      · -- two clients behind one descriptor
        obtain rfl := Option.some.inj hcl
        exact absurd (slot_unique hn (by rw [slot_fd hm, hfd']) (by rw [slot_fd hj, hp])) hmj
  | notClient hno =>
    rcases h m r hm hr with hrel | ⟨fd', hfd', hcl⟩
    · exact hrel
    · obtain rfl := Option.some.inj hcl
      exact absurd hfd' (hno r (List.mem_of_getElem? hm))
  | other hc => exact absurd (hc (fd + 1)) (by simp [Server.event])

/-! ## Runs of the server and its clients -/

namespace World

variable {w v : World} {l : WorldLabel}

/-- The descriptor that the service loop polls next. -/
def polled (w : World) : Option ℕ :=
  match w.srv.pc with
  | .serve i => w.srv.sock[i]?.join
  | _ => none

/-- **The condition.** The service loop polls no client that has closed its end and whose
data has all been read. -/
def Unclosed (w : World) : WorldLabel → Prop
  | .server (.recv _) => ∀ p ∈ w.peers, p.fd.isSome = true → p.fd = w.polled → p.atEnd = false
  | _ => True

/-- A step of the server that makes a call. -/
theorem step_call {b : Label} {t : Server} (ht : w.srv.step b = some t) (hlog : t.log = c :: w.srv.log) :
    w.step (.server b) = (kernel w.peers c).map fun peers => ⟨t, peers⟩ := by
  have hne : t.log.length ≠ w.srv.log.length := by rw [hlog, List.length_cons]; omega
  simp only [World.step, ht, Option.bind_eq_bind, Option.bind_some]
  rw [if_neg hne, hlog]
  rfl

/-- A step of the server, with the clients' side of the call it makes. -/
theorem server_step {b : Label} (hs : w.step (.server b) = some v) : w.srv.step b = some v.srv ∧
    (v.srv.log = w.srv.log ∧ v.peers = w.peers ∨
      ∃ c, v.srv.log = c :: w.srv.log ∧ Kernel w.peers c v.peers) := by
  obtain ⟨t, ht, hs'⟩ := Option.bind_eq_some_iff.1 hs
  have hlog : t.log = w.srv.log ∨ ∃ c, t.log = c :: w.srv.log := by
    rcases Server.step_closing ht with ⟨h, -⟩ | ⟨c, h, -⟩ | ⟨fd, h, -⟩
    · exact .inl h
    · exact .inr ⟨c, h⟩
    · exact .inr ⟨_, h⟩
  rcases hlog with hlog | ⟨c, hlog⟩
  · simp only [hlog, if_true, Option.some.injEq] at hs'; subst hs'
    exact ⟨ht, .inl ⟨hlog, rfl⟩⟩
  · rw [step_call ht hlog] at hs
    obtain ⟨qs, hqs, rfl⟩ := Option.map_eq_some_iff.1 hs
    exact ⟨ht, .inr ⟨c, hlog, kernel_cases hqs⟩⟩

theorem kernel_of_step {b : Label} (hs : w.step (.server b) = some v) (hlog : v.srv.log = c :: w.srv.log) :
    kernel w.peers c = some v.peers := by
  rw [step_call (server_step hs).1 hlog] at hs
  obtain ⟨qs, hqs, hv⟩ := Option.map_eq_some_iff.1 hs
  obtain rfl : qs = v.peers := congrArg World.peers hv
  exact hqs

/-- A client's own step changes neither its descriptor nor what the server knows. -/
theorem client_step {j : ℕ} {f : Peer → Option Peer}
    (hf : ∀ p q, f p = some q → q.conn = p.conn ∧ q.known = p.known) (hs : w.client j f = some v) :
    v.srv = w.srv ∧ v.peers.map Peer.fd = w.peers.map Peer.fd ∧
      ∀ cl, KnownOk w.peers cl → KnownOk v.peers cl := by
  obtain ⟨p, hp, hs⟩ := Option.bind_eq_some_iff.1 hs
  obtain ⟨q, hq, hs⟩ := Option.bind_eq_some_iff.1 hs
  simp only [Option.some.injEq] at hs; subst hs
  obtain ⟨hconn, hknown⟩ := hf p q hq
  refine ⟨rfl, map_fd_set hp hconn, ?_⟩
  intro cl hk m r hm hr
  rcases getElem?_set_cases hm with ⟨rfl, rfl⟩ | hm
  · have hold := hk m p hp (hknown ▸ hr)
    rwa [← hconn, ← Peer.fd_congr hconn] at hold
  · exact hk m r hm hr

/-- A client connects, or acts on its own end, or the server takes a step. -/
theorem step_cases (hs : w.step l = some v) :
    (l = .connect ∧ v = { w with peers := w.peers ++ [⟨.pending, [], false, false, false⟩] }) ∨
    (∃ j f, (∀ p q, f p = some q → q.conn = p.conn ∧ q.known = p.known) ∧ w.client j f = some v) ∨
    ∃ b, l = .server b := by
  cases l with
  | connect =>
    simp only [World.step, Option.some.injEq] at hs; subst hs
    exact .inl ⟨rfl, rfl⟩
  | send j data =>
    refine .inr (.inl ⟨j, _, ?_, hs⟩)
    intro p q hq
    simp only [Option.ite_none_left_eq_some, Option.some.injEq] at hq
    obtain ⟨-, hq⟩ := hq
    subst hq; exact ⟨rfl, rfl⟩
  | close j =>
    refine .inr (.inl ⟨j, _, ?_, hs⟩)
    intro p q hq
    simp only [Option.ite_none_left_eq_some, Option.some.injEq] at hq
    obtain ⟨-, hq⟩ := hq
    subst hq; exact ⟨rfl, rfl⟩
  | reset j =>
    refine .inr (.inl ⟨j, _, ?_, hs⟩)
    intro p q hq
    simp only [Option.some.injEq] at hq; subst hq
    exact ⟨rfl, rfl⟩
  | server b => exact .inr (.inr ⟨b, rfl⟩)

/-! ### The open descriptors -/

theorem Posix.newSock (h : w.Posix l) : w.NewSock l := by
  cases l with
  | server b => exact Env.newSock h
  | connect | send | close | reset => trivial

/-- The server's part of a run. -/
theorem srv_reach {G : World → WorldLabel → Prop} {H : Server → Label → Prop}
    (hG : ∀ w b, G w (.server b) → H w.srv b) (h : (machine n L).Reach G w) : (Server.machine n L).Reach H w.srv := by
  obtain ⟨ls, h⟩ := h
  refine Machine.Run.map (N := Server.machine n L) (H := H) World.srv ?_ h
  intro w l v hg hs
  rcases step_cases hs with ⟨rfl, rfl⟩ | ⟨j, f, hf, hc⟩ | ⟨b, rfl⟩
  · exact ⟨[], .nil⟩
  · rw [(client_step hf hc).1]
    exact ⟨[], .nil⟩
  · exact ⟨[b], .single (hG _ _ hg) (server_step hs).1⟩

theorem srv_inv (h : (machine n L).Reach Posix w) : Server.Inv n w.srv :=
  Server.inv_of_reach (srv_reach (fun _ _ hg => hg) h)

theorem srv_table (h : (machine n L).Reach NewSock w) : Server.Table n w.srv :=
  (srv_reach (H := Tcp.NewSock) (fun _ _ hg => hg) h).invariant (Server.table_init n L)
    fun _ _ _ hi hg hs => hi.step hg hs

/-- The accepted clients hold the open descriptors. -/
def Link (w : World) : Prop := (w.peers.map Peer.fd).reduceOption.Perm w.srv.openSocks

/-- **Every step keeps the link** between clients and descriptors. -/
theorem Link.step (h : w.Link) (ht : Server.Table n w.srv) (hs : w.step l = some v) : v.Link := by
  unfold Link at h ⊢
  rcases step_cases hs with ⟨rfl, rfl⟩ | ⟨j, f, hf, hc⟩ | ⟨b, rfl⟩
  · rw [List.map_append, List.reduceOption_append]
    simpa [Peer.fd] using h
  · obtain ⟨hsrv, hfd, -⟩ := client_step hf hc
    rw [hsrv, hfd]
    exact h
  · obtain ⟨hb, ⟨hlog, hpeers⟩ | ⟨c, hlog, hk⟩⟩ := server_step hs
    · rw [hpeers, Server.openSocks_eq, Server.step_listenSock hb, hlog]
      exact h
    · rw [Server.openSocks_eq, Server.step_listenSock hb, hlog]
      exact link_kernel hk ht.hist.listen h

theorem link_of_reach (h : (machine n L).Reach NewSock w) : w.Link := by
  obtain ⟨ls, h⟩ := h
  induction h with
  | nil => exact List.Perm.refl _
  | snoc hrun hg hs ih => exact ih.step (srv_table ⟨_, hrun⟩) hs

/-- No two clients have one descriptor. -/
theorem fds_nodup (h : (machine n L).Reach NewSock w) : (w.peers.map Peer.fd).reduceOption.Nodup :=
  (link_of_reach h).nodup_iff.2 (live_nodup (srv_table h).hist.proper)

/-- The descriptor of a client is open. -/
theorem mem_open {j : ℕ} (h : (machine n L).Reach NewSock w) (hj : w.peers[j]? = some p) (hp : p.fd = some fd) :
    fd ∈ w.srv.openSocks := by
  rw [← (link_of_reach h).mem_iff, List.reduceOption_mem_iff]
  apply List.mem_of_getElem? (i := j)
  rw [slot_fd hj, hp]

/-! ### The clients that have left -/

/-- What the server knows, in a run that has seen no end of a stream. -/
structure Inv (w : World) : Prop where
  known : KnownOk w.peers w.srv.closing
  noEof : ∀ fd, .recv fd (.ok []) ∉ w.srv.log

/-- A step of the server polls no client at the end of its stream. -/
theorem not_eof {b : Label} (hg : w.Unclosed (.server b)) (hs : w.srv.step b = some v.srv)
    (hlog : v.srv.log = c :: w.srv.log) (hk : Kernel w.peers c v.peers) (fd : ℕ) :
    c ≠ .recv fd (.ok []) := by
  intro hc
  subst hc
  obtain ⟨rfl, i, hpc, hi⟩ := Server.recv_call hs hlog
  generalize v.peers = qs at hk
  cases hk with
  | @used _ fd' j p q hev hj hp hq hend hknown =>
    obtain rfl : fd = fd' := by simpa [Server.event] using hev 0
    have hat := hend rfl
    have hpoll : p.fd = w.polled := by rw [hp, polled, hpc]; simp only [hi]; rfl
    rw [hg p (List.mem_of_getElem? hj) (by rw [hp]; rfl) hpoll] at hat
    exact absurd hat (by simp)
  | other hc => exact absurd (hc 0) (by simp [Server.event])

theorem inv_init (n L : ℕ) : Inv (machine n L).init where
  known := by intro j p hj; exact absurd hj (by simp [machine])
  noEof := by intro fd; exact List.not_mem_nil

theorem Inv.connect (h : Inv w) : Inv { w with peers := w.peers ++ [⟨.pending, [], false, false, false⟩] } := by
  refine ⟨?_, h.noEof⟩
  intro j p hj hp
  by_cases hlt : j < w.peers.length
  · rw [List.getElem?_append_left hlt] at hj
    exact h.known j p hj hp
  · -- a client that has just connected is not known to have left
    rw [List.getElem?_append_right (by omega)] at hj
    obtain ⟨_, rfl⟩ := List.getElem?_eq_some_iff.1 hj
    simp at hp

theorem Inv.client {j : ℕ} {f : Peer → Option Peer} (h : Inv w)
    (hf : ∀ p q, f p = some q → q.conn = p.conn ∧ q.known = p.known) (hs : w.client j f = some v) :
    Inv v := by
  obtain ⟨hsrv, -, hk⟩ := client_step hf hs
  refine ⟨?_, ?_⟩
  · rw [hsrv]; exact hk _ h.known
  · rw [hsrv]; exact h.noEof

/-- A step of the server that makes no call. -/
theorem Inv.quiet {b : Label} (h : Inv w) (ht : w.srv.step b = some v.srv) (hlog : v.srv.log = w.srv.log)
    (hpeers : v.peers = w.peers) : Inv v := by
  -- no slot was or is being closed
  have hcl : w.srv.closing = none ∧ v.srv.closing = none := by
    rcases Server.step_closing ht with ⟨-, hcl⟩ | ⟨c, hc, -⟩ | ⟨fd, hc, -⟩
    · exact hcl
    · rw [hlog] at hc; simp at hc
    · rw [hlog] at hc; simp at hc
  refine ⟨?_, ?_⟩
  · rw [hpeers, hcl.2, ← hcl.1]; exact h.known
  · rw [hlog]; exact h.noEof

/-- A step of the server that makes a call. -/
theorem Inv.call {b : Label} (h : Inv w) (hn : (w.peers.map Peer.fd).reduceOption.Nodup)
    (hg : w.Unclosed (.server b)) (ht : w.srv.step b = some v.srv) (hlog : v.srv.log = c :: w.srv.log)
    (hk : Kernel w.peers c v.peers) : Inv v := by
  have hnot := not_eof hg ht hlog hk
  refine ⟨?_, ?_⟩
  · rcases Server.step_closing ht with ⟨hc, -⟩ | ⟨c', hc, h0, h1⟩ | ⟨fd, hc, h0, h1⟩
    · rw [hlog] at hc; simp at hc
    · obtain rfl : c = c' := by rw [hlog] at hc; exact (List.cons.inj hc).1
      rw [h1]
      exact (h0 ▸ h.known).kernel hk hnot
    · obtain rfl : c = .close fd := by rw [hlog] at hc; exact (List.cons.inj hc).1
      rw [h1]
      exact (h0 ▸ h.known).close hk hn
  · intro fd hmem
    rw [hlog] at hmem
    rcases List.mem_cons.1 hmem with he | hmem
    · exact hnot fd he.symm
    · exact h.noEof fd hmem

/-- **Every step that meets the condition keeps what is known.** -/
theorem Inv.step (h : Inv w) (hn : (w.peers.map Peer.fd).reduceOption.Nodup) (hg : w.Unclosed l)
    (hs : w.step l = some v) : Inv v := by
  rcases step_cases hs with ⟨rfl, rfl⟩ | ⟨j, f, hf, hc⟩ | ⟨b, rfl⟩
  · exact h.connect
  · exact h.client hf hc
  · obtain ⟨ht, hcall⟩ := server_step hs
    rcases hcall with ⟨hlog, hpeers⟩ | ⟨c, hlog, hk⟩
    · exact h.quiet ht hlog hpeers
    · exact h.call hn hg ht hlog hk

/-- The runs in which the condition is met. -/
def Guarded (w : World) (l : WorldLabel) : Prop := w.NewSock l ∧ w.Unclosed l

theorem Guarded.reach (h : (machine n L).Reach Guarded w) : (machine n L).Reach NewSock w := h.mono fun _ _ hg => hg.1

theorem inv_of_reach (h : (machine n L).Reach Guarded w) : Inv w := by
  obtain ⟨ls, h⟩ := h
  induction h with
  | nil => exact inv_init n L
  | snoc hrun hg hs ih => exact ih.step (fds_nodup (Guarded.reach ⟨_, hrun⟩)) hg.2 hs

theorem connected_eq (hk : KnownOk w.peers none) :
    w.connected = (w.peers.map Peer.fd).reduceOption.length := by
  rw [List.reduceOption_length_eq, ← List.countP_eq_length_filter, List.countP_map, connected]
  apply List.countP_congr
  intro p hp
  obtain ⟨j, hj⟩ := List.mem_iff_getElem?.1 hp
  -- an accepted client is not known to have left
  have hno : p.fd.isSome = true → p.known = false := by
    intro hfd
    by_contra hne
    rcases hk j p hj (by simpa using hne) with hr | ⟨fd, -, hc⟩
    · simp [Peer.fd, hr] at hfd
    · exact absurd hc (by simp)
  cases hfd : p.fd.isSome with
  | true => simp [hfd, hno hfd]
  | false => simp [hfd]

/-- Between two service steps the slots taken are those of the connected clients. -/
theorem occupied_eq (h : (machine n L).Reach Guarded w) (hin : w.srv.InLoop)
    (hpc : ∀ i, w.srv.pc ≠ .close i) : w.srv.sock.reduceOption.length = w.connected := by
  obtain ⟨hp, -⟩ := (Server.slots_of_loop hin).1 (srv_table (Guarded.reach h)).slots
  have hk := (inv_of_reach h).known
  rw [Server.closing_eq_none hpc] at hk
  rw [connected_eq hk, hp.length_eq, (link_of_reach (Guarded.reach h)).length_eq]

/-- At `accept`, a pending client does not get `EWOULDBLOCK`, and is accepted. -/
theorem accept_pending {k : ℕ} (hpc : w.srv.pc = .accept k) (hk : k < w.srv.sock.length)
    (hpend : (w.peers.any (·.conn == .pending)) = true) :
    w.step (.server (.accept (.error .eagain))) = none ∧
    ∀ fd, ∃ u, w.step (.server (.accept (.ok fd))) = some u ∧ u.srv.sock[k]? = some (some fd) ∧
      ∃ p ∈ u.peers, p.fd = some fd := by
  have hstep : ∀ r, w.srv.step (.accept r) = some (w.srv.accept k r) := by
    intro r; simp only [Server.step, hpc]
  constructor
  · rw [step_call (hstep _) rfl]
    simp only [kernel, hpend, if_true, Option.map_none]
  · intro fd
    obtain ⟨p, hp, hconn⟩ := List.any_eq_true.1 hpend
    cases hj : w.peers.findIdx? (·.conn == .pending) with
    | none =>
      rw [List.findIdx?_eq_none_iff.1 hj p hp] at hconn
      exact absurd hconn (by simp)
    | some j =>
      obtain ⟨p', hp', -⟩ := findIdx?_spec hj
      have hlt := (List.getElem?_eq_some_iff.1 hp').1
      refine ⟨⟨w.srv.accept k (.ok fd), w.peers.set j { p' with conn := .accepted fd }⟩, ?_, ?_, ?_⟩
      · rw [step_call (hstep _) rfl]
        simp only [kernel, hj, hp', Option.bind_eq_bind, Option.bind_some, Option.map_some]
      · exact List.getElem?_set_self hk
      · exact ⟨_, List.mem_set hlt _, rfl⟩

instance (w : World) : ∀ l, Decidable (w.NewSock l)
  | .server l => inferInstanceAs (Decidable (Tcp.NewSock w.srv l))
  | .connect | .send _ _ | .close _ | .reset _ => isTrue trivial

instance (w : World) : ∀ l, Decidable (w.Posix l)
  | .server l => inferInstanceAs (Decidable (Env w.srv l))
  | .connect | .send _ _ | .close _ | .reset _ => isTrue trivial

instance (w : World) : ∀ l, Decidable (w.Unclosed l)
  | .server (.recv _) => inferInstanceAs (Decidable (∀ p ∈ w.peers, _ → _ → _))
  | .server .tau | .server (.accept _) | .server (.fcntl _) | .server (.send _) => isTrue trivial
  | .connect | .send _ _ | .close _ | .reset _ => isTrue trivial

instance (w : World) (l : WorldLabel) : Decidable (w.Guarded l) := inferInstanceAs (Decidable (_ ∧ _))

/-! ## A client that closes -/

/-- The service loop skips the free slots up to the end of the pass. -/
theorem run_skip {m : ℕ} (hm : w.srv.sock.length = i + m) (hpc : w.srv.pc = .serve i)
    (hfree : ∀ j, i ≤ j → j < i + m → w.srv.sock[j]? = some none) :
    ∃ ls, (machine n L).Run Posix w ls { w with srv := { w.srv with pc := .serve (i + m) } } := by
  induction m generalizing w i with
  | zero =>
    refine ⟨[], ?_⟩
    have hw : ({ w with srv := { w.srv with pc := .serve (i + 0) } } : World) = w := by
      rw [Nat.add_zero, ← hpc]
    rw [hw]
    exact .nil
  | succ m ih =>
    set v : World := { w with srv := { w.srv with pc := .serve (i + 1) } } with hv
    have hstep : w.step (.server .tau) = some v := by
      have := hfree i le_rfl (by omega)
      simp [World.step, Server.step, Server.tau, hpc, this, hv]
    obtain ⟨ls, h⟩ := ih (w := v) (i := i + 1) (by rw [hv]; simp only; omega) rfl
      (fun j hj hlt => hfree j (by omega) (by omega))
    refine ⟨.server .tau :: ls, .cons trivial hstep ?_⟩
    rw [show i + (m + 1) = i + 1 + m by omega]
    exact h

/-- A client connects and closes; `recv` returns 0. -/
def connectClose : List WorldLabel :=
  [.connect, .server .tau, .server (.accept (.ok 7)), .server (.fcntl true), .close 0, .server (.recv (.ok []))]

/-- With 999 slots, at the end of the pass the slot is still held. -/
theorem eof_slot_held : ∃ w, (machine 999 3).Reach Posix w ∧ w.srv.pc = .serve 999 ∧
    w.srv.sock[999]? = none ∧ .recv 7 (.ok []) ∈ thisPass w.srv.log ∧ some 7 ∈ w.srv.sock := by
  have hrun : ((machine 999 3).exec Posix (machine 999 3).init connectClose).map (fun w =>
      w.srv.pc == .serve 1 && w.srv.sock == some 7 :: List.replicate 998 none &&
        (thisPass w.srv.log).contains (.recv 7 (.ok []))) = some true := by
    decide +kernel
  obtain ⟨w, hw, hp⟩ := Machine.Reach.of_exec hrun
  rw [Bool.and_eq_true, Bool.and_eq_true, beq_iff_eq, beq_iff_eq, List.contains_iff_mem] at hp
  obtain ⟨⟨hpc, hsock⟩, hmem⟩ := hp
  have hlen : w.srv.sock.length = 1 + 998 := by rw [hsock, List.length_cons, List.length_replicate]
  obtain ⟨ls, hskip⟩ := run_skip (n := 999) (L := 3) hlen hpc (by
    intro j hj hlt
    obtain ⟨j, rfl⟩ : ∃ m, j = m + 1 := ⟨j - 1, by omega⟩
    rw [hsock, List.getElem?_cons_succ, List.getElem?_replicate, if_pos (by omega)])
  exact ⟨_, hw.run hskip, rfl, List.getElem?_eq_none (by rw [hlen]), hmem, by rw [hsock]; exact List.mem_cons_self⟩

end World

end EspNetwork.Tcp
