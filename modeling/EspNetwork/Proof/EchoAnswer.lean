import EspNetwork.Proof.EchoSystem

/-!
# The client is answered

A client that waits in `recv`, with all that it has sent at the server, is answered within
a round of the server's loop.

* `due`: the steps, at most, before the server sends back on a slot.
* `step_due`: every step of the server uses one of them up, or sends.
* `can_step`: while the client waits, there is a step that the server can take.
* `answered_within`: **the answer comes**, unless the connection ends.
-/

namespace EspNetwork.EchoSystem

open CLib Lts
open SocketClient (payload)
open Tcp (Server World WorldLabel Peer)

variable {c : SocketClient.Client} {rx : Arr 128} {n L i j fd : ℕ} {w v : World} {p q : Peer} {l : WorldLabel}
  {ws : List WorldLabel}

/-! ## The server's side -/

/-- The steps, at most, before the server sends on `sock[i]`, which has something to answer. -/
def due (srv : Server) (i : ℕ) : ℕ :=
  match srv.pc with
  | .send k _ _ => if k = i then 2 else srv.turns i + 3
  | .close k => if k = i then 1 else srv.turns i + 3
  | _ => srv.turns i + 3

/-- There is something to answer, or the connection is about to be closed. -/
def Owing (srv : Server) (p : Peer) (i : ℕ) : Prop :=
  (∃ len k, srv.pc = .send i len k) ∨ srv.pc = .close i ∨ p.inbox ≠ []

theorem due_le (srv : Server) (i : ℕ) : due srv i ≤ srv.turns i + 3 := by
  unfold due
  split
  · split <;> omega
  · split <;> omega
  · omega

theorem due_send {srv : Server} {len : ℕ} {k : ℤ} (h : srv.pc = .send i len k) : due srv i = 2 := by
  simp only [due, h, if_true]

theorem due_close {srv : Server} (h : srv.pc = .close i) : due srv i = 1 := by
  simp only [due, h, if_true]

/-- Elsewhere the slot is still to be polled. -/
theorem due_eq {srv : Server} (hsend : ∀ len k, srv.pc ≠ .send i len k) (hclose : srv.pc ≠ .close i) :
    due srv i = srv.turns i + 3 := by
  unfold due
  split
  · rename_i k len w hpc
    rw [if_neg]
    rintro rfl
    exact hsend _ _ hpc
  · rename_i k hpc
    rw [if_neg]
    rintro rfl
    exact hclose hpc
  · rfl

/-- The slots hold different descriptors. -/
theorem slots_nodup {srv : Server} (hi : Server.Inv n srv) (hin : srv.InLoop) : srv.sock.reduceOption.Nodup :=
  ((Server.slots_of_loop hin).1 hi.slots).1.nodup_iff.2 (Handle.live_nodup hi.hist.proper)

/-! ## Steps on the slot -/

section Slot

variable {s t : Server} {b : Tcp.Label}

/-- The slot is polled. -/
theorem serve_next (hs : s.step b = some t) (hpc : s.pc = .serve i) (hslot : s.sock[i]? = some (some fd)) :
    ∃ r, t.log = .recv fd r :: s.log ∧ t.sock = s.sock ∧
      ((∃ len k, t.pc = .send i len k) ∨ r = .ok [] ∨ (∃ e, r = .error e ∧ e.soft = true) ∨ t.pc = .close i) := by
  cases Server.step_cases hs with
  | received hpc' hfd =>
    cases hpc.symm.trans hpc'
    cases hslot.symm.trans hfd
    exact ⟨_, rfl, rfl, .inl ⟨_, _, rfl⟩⟩
  | receivedEnd hpc' hfd =>
    cases hpc.symm.trans hpc'
    cases hslot.symm.trans hfd
    exact ⟨_, rfl, rfl, .inr (.inl rfl)⟩
  | noData hpc' hfd he =>
    cases hpc.symm.trans hpc'
    cases hslot.symm.trans hfd
    exact ⟨_, rfl, rfl, .inr (.inr (.inl ⟨_, rfl, he⟩))⟩
  | recvFailed hpc' hfd =>
    cases hpc.symm.trans hpc'
    cases hslot.symm.trans hfd
    exact ⟨_, rfl, rfl, .inr (.inr (.inr rfl))⟩
  | skip hpc' hfd | pass hpc' hfd =>
    cases hpc.symm.trans hpc'
    cases hslot.symm.trans hfd
  | free hpc' | full hpc' | accepted hpc' | noClient hpc' | acceptFailed hpc' | fcntl hpc' | fcntlFailed hpc'
  | sent hpc' | sentNone hpc' | sendFailed hpc' | close hpc' | error hpc' | sweepSkip hpc' | sweepClose hpc'
  | sweepEnd hpc' => cases hpc.symm.trans hpc'

/-- A turn of `socket_send` sends something, or ends the connection. -/
theorem send_next {len : ℕ} {k : ℤ} (hi : Server.Inv n s) (hg : Tcp.Env s b) (hs : s.step b = some t)
    (hpc : s.pc = .send i len k) (hslot : s.sock[i]? = some (some fd)) :
    (∃ o m bs, t.log = .send fd o m (.ok bs) :: s.log ∧ bs ≠ []) ∨ t.pc = .close i ∧ t.sock = s.sock := by
  obtain ⟨hpos, hle, data, -, hlen, hrx⟩ := hi.sending hpc hslot
  cases Server.step_cases hs with
  | @sent i' fd' len' a w hpc' hfd ho hk =>
    cases hpc.symm.trans hpc'
    cases hslot.symm.trans hfd
    refine .inl ⟨_, _, _, rfl, ?_⟩
    have ha : 1 ≤ a := hg
    -- `rx_buffer` holds all of `len`
    have hfill : len ≤ s.rxBuffer.data.length := by
      rw [← hlen, ← hrx, List.length_take]
      exact min_le_right _ _
    rw [← List.length_pos_iff, List.length_take, List.length_drop]
    omega
  | sentNone hpc' hfd ho he => exact absurd (he.symm.trans hg) (by decide)
  | sendFailed hpc' =>
    cases hpc.symm.trans hpc'
    exact .inr ⟨rfl, rfl⟩
  | free hpc' | full hpc' | accepted hpc' | noClient hpc' | acceptFailed hpc' | fcntl hpc' | fcntlFailed hpc'
  | skip hpc' | pass hpc' | received hpc' | receivedEnd hpc' | noData hpc' | recvFailed hpc' | close hpc'
  | error hpc' | sweepSkip hpc' | sweepClose hpc' | sweepEnd hpc' => cases hpc.symm.trans hpc'

theorem close_next (hs : s.step b = some t) (hpc : s.pc = .close i) (hslot : s.sock[i]? = some (some fd)) :
    t.log = .close fd :: s.log := by
  cases Server.step_cases hs with
  | close hpc' hfd =>
    cases hpc.symm.trans hpc'
    cases hslot.symm.trans hfd
    rfl
  | free hpc' | full hpc' | accepted hpc' | noClient hpc' | acceptFailed hpc' | fcntl hpc' | fcntlFailed hpc'
  | skip hpc' | pass hpc' | received hpc' | receivedEnd hpc' | noData hpc' | recvFailed hpc' | sent hpc'
  | sentNone hpc' | sendFailed hpc' | error hpc' | sweepSkip hpc' | sweepClose hpc' | sweepEnd hpc' =>
    cases hpc.symm.trans hpc'

end Slot

/-! ## The client's end -/

/-- **A client whose bytes are there** is not told that there are none. -/
theorem recv_inbox {r : Except Tcp.Errno Bytes} (h : p.recv r = some q) (hne : p.inbox ≠ []) :
    r ≠ .ok [] ∧ ∀ e, r = .error e → e.soft = false := by
  refine ⟨?_, ?_⟩
  · rintro rfl
    have hend := (Peer.recv_spec h).2.1 rfl
    simp [Peer.atEnd, hne] at hend
  · rintro e rfl
    by_contra hsoft
    rw [Bool.not_eq_false] at hsoft
    simp [Peer.recv, hsoft, hne] at h

/-- `close` releases the client behind the descriptor. -/
theorem released_of_close {qs : List Peer} (hk : Tcp.Kernel w.peers (.close fd) qs)
    (hn : (w.peers.map Peer.fd).reduceOption.Nodup) (hj : w.peers[j]? = some p) (hp : p.fd = some fd)
    (hq : qs[j]? = some q) : q.conn = .released := by
  cases hk with
  | used hc => exact absurd (hc (fd + 1)) (by simp [Server.event])
  | @closed _ m p' hm hp' =>
    obtain rfl : j = m := Handle.slot_unique hn (by rw [Tcp.slot_fd hj, hp]) (by rw [Tcp.slot_fd hm, hp'])
    rw [List.getElem?_set_self (List.getElem?_eq_some_iff.1 hj).1] at hq
    cases hq
    rfl
  | notClient hno => exact absurd hp (hno p (List.mem_of_getElem? hj))
  | other hc => exact absurd (hc (fd + 1)) (by simp [Server.event])

/-- One step of the server, seen from a client that is owed an answer. -/
inductive Turned (w v : World) (i j fd : ℕ) : Prop
  | answered (h : sentOn w v fd ≠ [])
  | left (h : ¬ v.srv.InLoop)
  | ended {q : Peer} (hq : v.peers[j]? = some q) (hconn : q.conn = .released)
  | nearer {q : Peer} (hq : v.peers[j]? = some q) (hconn : q.conn = .accepted fd)
      (hslot : v.srv.sock[i]? = some (some fd)) (howing : Owing v.srv q i) (hlt : due v.srv i < due w.srv i)

/-- **Every step of the server** brings the answer, or brings it nearer. -/
theorem step_due {b : Tcp.Label} (h : (World.machine n L).Run World.Posix (World.machine n L).init ws w)
    (hg : w.Posix (.server b)) (hs : w.step (.server b) = some v) (hj : w.peers[j]? = some p)
    (hp : p.conn = .accepted fd) (hslot : w.srv.sock[i]? = some (some fd)) (hin : w.srv.InLoop)
    (howing : Owing w.srv p i) : Turned w v i j fd := by
  have hi := World.srv_inv ⟨ws, h⟩
  have hn := World.fds_nodup ⟨ws, World.newSock_of_run h⟩
  obtain ⟨ht, hcall⟩ := World.server_step hs
  obtain ⟨q, hq, hm⟩ := peer_step h hg hs hj
  by_cases hrel : q.conn = .released
  · exact .ended hq hrel
  have hconn : q.conn = .accepted fd := by
    cases hm with
    | stays hc => exact hc.trans hp
    | accepted hpend => rw [hp] at hpend; cases hpend
    | released hq' => exact absurd hq' hrel
  by_cases hsend : ∃ len k, w.srv.pc = .send i len k
  · obtain ⟨len, k, hpc⟩ := hsend
    rcases send_next hi hg ht hpc hslot with ⟨o, m, bs, hlog, hne⟩ | ⟨hpc', hsock⟩
    · refine .answered ?_
      rw [sentOn_of_call hlog, sentBy, if_pos rfl]
      exact hne
    · refine .nearer hq hconn (by rw [hsock]; exact hslot) (.inr (.inl hpc')) ?_
      rw [due_send hpc, due_close hpc']
      omega
  by_cases hclose : w.srv.pc = .close i
  · have hlog := close_next ht hclose hslot
    exact absurd (released_of_close (Tcp.kernel_cases (World.kernel_of_step hs hlog)) hn hj (fd_eq_some hp) hq) hrel
  have hne : p.inbox ≠ [] := by
    rcases howing with h | h | h
    · exact absurd h hsend
    · exact absurd h hclose
    · exact h
  have hdue := due_eq (fun len k hpc => hsend ⟨len, k, hpc⟩) hclose
  by_cases hserve : w.srv.pc = .serve i
  · obtain ⟨r, hlog, hsock, hnext⟩ := serve_next ht hserve hslot
    obtain ⟨p', hrecv, -⟩ := Tcp.withPeer_self (World.kernel_of_step hs hlog) hn hj (fd_eq_some hp)
    obtain ⟨hend, hhard⟩ := recv_inbox hrecv hne
    rcases hnext with ⟨len, k, hpc⟩ | hnil | ⟨e, he, hsoft⟩ | hpc
    · refine .nearer hq hconn (by rw [hsock]; exact hslot) (.inl ⟨len, k, hpc⟩) ?_
      rw [due_send hpc, hdue]
      omega
    · exact absurd hnil hend
    · rw [hhard e he] at hsoft
      cases hsoft
    · refine .nearer hq hconn (by rw [hsock]; exact hslot) (.inr (.inl hpc)) ?_
      rw [due_close hpc, hdue]
      omega
  cases Server.turns_step hi hg hslot hin ht with
  | polled hpc => exact absurd hpc hserve
  | closed hpc => exact absurd hpc hclose
  | left hout => exact .left hout
  | nearer hslot' hlt =>
    have hkept : q.inbox = p.inbox := by
      rcases hcall with ⟨hlog, hpeers⟩ | ⟨a, hlog, hk⟩
      · rw [hpeers] at hq
        cases hj.symm.trans hq
        rfl
      · obtain ⟨p', hp', hturn⟩ := Tcp.kernel_turn (World.kernel_of_step hs hlog) hn hq
        obtain rfl : p = p' := Option.some.inj (hj.symm.trans hp')
        cases hturn with
        | pulled hfd =>
          -- only the slot's own turn takes bytes from the inbox
          obtain ⟨-, k, hpc, hk⟩ := Server.recv_call ht hlog
          cases (fd_eq_some hp).symm.trans hfd
          obtain rfl := Handle.slot_unique (slots_nodup hi hin) hslot hk
          exact absurd hpc hserve
        | kept _ hb => exact hb
        | accepted hpend => rw [hp] at hpend; cases hpend
        | released hq' => exact absurd hq' hrel
    refine .nearer hq hconn hslot' (.inr (.inr (by rw [hkept]; exact hne))) ?_
    have hle := due_le v.srv i
    omega

/-! ## Both sides, while the client waits -/

variable {s t : System} {m : Label} {ls ks : List Label}

/-- The steps of the server. -/
def serverStep : Label → Bool
  | .world l => World.serverStep l
  | .client _ | .deliver _ => false

/-- A step of another client, or bytes that reach the server: nothing is taken from an inbox. -/
theorem client_inbox (hs : w.step l = some v) (hl : World.serverStep l = false) (hj : w.peers[j]? = some p) :
    ∃ q, v.peers[j]? = some q ∧ q.conn = p.conn ∧ p.inbox <+: q.inbox := by
  have hlt := (List.getElem?_eq_some_iff.1 hj).1
  have hset : ∀ {k : ℕ} {f : Peer → Option Peer}, (∀ p q, f p = some q → q.conn = p.conn ∧ p.inbox <+: q.inbox) →
      w.client k f = some v → ∃ q, v.peers[j]? = some q ∧ q.conn = p.conn ∧ p.inbox <+: q.inbox := by
    intro k f hf hs
    obtain ⟨p', q, hp', hq, rfl⟩ := World.client_cases hs
    by_cases hkj : k = j
    · subst hkj
      cases hj.symm.trans hp'
      exact ⟨q, List.getElem?_set_self hlt, hf p q hq⟩
    · exact ⟨p, (List.getElem?_set_ne hkj).trans hj, rfl, List.prefix_rfl⟩
  cases l with
  | server b => cases hl
  | connect =>
    cases hs
    exact ⟨p, by rw [List.getElem?_append_left hlt, hj], rfl, List.prefix_rfl⟩
  | send k data =>
    refine hset (fun p q hq => ?_) hs
    simp only [Option.ite_none_left_eq_some, Option.some.injEq] at hq
    obtain ⟨-, rfl⟩ := hq
    exact ⟨rfl, List.prefix_append _ _⟩
  | close k =>
    refine hset (fun p q hq => ?_) hs
    simp only [Option.ite_none_left_eq_some, Option.some.injEq] at hq
    obtain ⟨-, rfl⟩ := hq
    exact ⟨rfl, List.prefix_rfl⟩
  | reset k =>
    refine hset (fun p q hq => ?_) hs
    cases hq
    exact ⟨rfl, List.prefix_rfl⟩

/-- **A step while the client waits** is one of the world. -/
theorem waiting_step (hg : s.Waiting m) (hs : s.step c m = some t) : s.Posix m ∧ t.conn = s.conn ∧
    t.client = s.client ∧ t.down = s.down ++ s.answer t.world ∧
    ∃ l, s.world.Posix l ∧ s.world.step l = some t.world ∧ World.serverStep l = serverStep m := by
  cases m with
  | client a => exact absurd hg id
  | deliver k =>
    obtain ⟨j, hj, hs⟩ := Option.bind_eq_some_iff.1 hs
    simp only [Option.ite_none_right_eq_some] at hs
    obtain ⟨-, hs⟩ := hs
    obtain ⟨w, hw, hs⟩ := Option.bind_eq_some_iff.1 hs
    cases hs
    have hsrv : w.srv = s.world.srv := by
      rcases World.srv_cases hw with ⟨hsrv, -⟩ | ⟨b, hb, -⟩
      · exact hsrv
      · cases hb
    refine ⟨trivial, rfl, rfl, ?_, .send j (s.up.take k), trivial, hw, rfl⟩
    -- the server takes no part in it
    have hnil : s.answer w = [] := by
      unfold System.answer
      split
      · exact sentOn_of_log (by rw [hsrv]) _
      · rfl
    rw [hnil, List.append_nil]
  | world l =>
    simp only [System.step] at hs
    split at hs
    · cases hs
    · obtain ⟨w, hw, hs⟩ := Option.bind_eq_some_iff.1 hs
      cases hs
      exact ⟨hg, rfl, rfl, rfl, l, hg, hw, rfl⟩

/-- The client is answered, or its connection ends. -/
def Answered (j : ℕ) (s : System) : Prop :=
  s.down ≠ [] ∨ ¬ s.world.srv.InLoop ∨ ∃ q, s.world.peers[j]? = some q ∧ q.conn = .released

/-- The client's bytes are at the server. -/
structure Waits (j fd i : ℕ) (s : System) : Prop where
  slot : s.world.srv.sock[i]? = some (some fd)
  inLoop : s.world.srv.InLoop
  peer : ∃ p, s.world.peers[j]? = some p ∧ p.conn = .accepted fd ∧ Owing s.world.srv p i

theorem Answered.step (h : Answered j s) (hi : Inv c rx n L ls s) (hg : s.Waiting m) (hs : s.step c m = some t) :
    Answered j t := by
  obtain ⟨-, -, -, hdown, l, hl, hw, -⟩ := waiting_step hg hs
  rcases h with h | h | ⟨p, hp, hconn⟩
  · left
    rw [hdown]
    exact List.append_ne_nil_of_left_ne_nil h _
  · right; left
    rcases World.srv_cases hw with ⟨hsrv, -⟩ | ⟨b, -, ht⟩
    · rwa [hsrv]
    · exact fun h' => h (Server.inLoop_of_step ht h')
  · right; right
    obtain ⟨ws, hrun, -⟩ := hi.world
    obtain ⟨q, hq, hm⟩ := peer_step hrun hl hw hp
    refine ⟨q, hq, ?_⟩
    cases hm with
    | stays hc => exact hc.trans hconn
    | accepted hpend => rw [hconn] at hpend; cases hpend
    | released hq' => exact hq'

theorem Waits.step (h : Waits j fd i s) (hi : Inv c rx n L ls s) (hj : s.conn = some j) (hg : s.Waiting m)
    (hs : s.step c m = some t) : Answered j t ∨
      Waits j fd i t ∧ due t.world.srv i + (if serverStep m then 1 else 0) ≤ due s.world.srv i := by
  obtain ⟨-, -, -, hdown, l, hl, hw, hm⟩ := waiting_step hg hs
  obtain ⟨hslot, hin, p, hp, hconn, howing⟩ := h
  obtain ⟨ws, hrun, -⟩ := hi.world
  rcases World.srv_cases hw with ⟨hsrv, hno⟩ | ⟨b, rfl, ht⟩
  · right
    obtain ⟨q, hq, hqc, hbox⟩ := client_inbox hw hno hp
    rw [← hm, hno, hsrv]
    refine ⟨⟨by rw [hsrv]; exact hslot, by rw [hsrv]; exact hin, q, hq, hqc.trans hconn, ?_⟩, le_rfl⟩
    rw [hsrv]
    exact howing.imp_right (Or.imp_right fun hne hnil => hne (List.prefix_nil.1 (hnil ▸ hbox)))
  · cases step_due hrun hl hw hp hconn hslot hin howing with
    | answered hne =>
      left; left
      rw [hdown, answer_eq hj hp, fd_eq_some hconn]
      exact List.append_ne_nil_of_right_ne_nil _ hne
    | left hout => exact .inl (.inr (.inl hout))
    | ended hq hrel => exact .inl (.inr (.inr ⟨_, hq, hrel⟩))
    | nearer hq hqc hslot' howing' hlt =>
      by_cases hout : t.world.srv.InLoop
      · refine .inr ⟨⟨hslot', hout, _, hq, hqc, howing'⟩, ?_⟩
        rw [← hm]
        exact hlt
      · exact .inl (.inr (.inl hout))

/-- A client that waits has bytes at the server, if all it has sent is there. -/
theorem exists_owing (hi : Inv c rx n L ls s) {sock : ℕ} (hpc : s.client.pc = .recv sock) (hj : s.conn = some j)
    (hp : s.world.peers[j]? = some p) (hconn : p.conn = .accepted fd) (hup : s.up = []) (hdown : s.down = [])
    (hin : s.world.srv.InLoop) : ∃ i, s.world.srv.sock[i]? = some (some fd) ∧ Owing s.world.srv p i := by
  obtain ⟨ws, hrun, hlink⟩ := hi.world
  have hplaced := (hlink j hj).placed hrun hp
  have hsrv := World.srv_inv ⟨ws, hrun⟩
  have hbusy : s.world.srv.busy = some fd → ∃ i, s.world.srv.sock[i]? = some (some fd) ∧ Owing s.world.srv p i := by
    intro hbusy
    unfold Server.busy at hbusy
    split at hbusy
    · rename_i i len k hpc
      exact ⟨i, Option.join_eq_some_iff.1 hbusy, .inl ⟨len, k, hpc⟩⟩
    · rename_i i hpc
      exact ⟨i, Option.join_eq_some_iff.1 hbusy, .inr (.inl hpc)⟩
    · cases hbusy
  by_cases hb : s.world.srv.busy = some fd
  · exact hbusy hb
  · -- nothing is held, so that what has not come back is in the inbox
    have hclosing : s.world.srv.closing ≠ some fd := by
      intro hc
      unfold Server.closing at hc
      split at hc
      · rename_i i hpc
        exact hb (by rw [Server.busy, hpc]; exact hc)
      · cases hc
    have hsent := hplaced.accepted hconn hclosing
    rw [hdown, hup, held, if_neg hb] at hsent
    simp only [List.append_nil] at hsent
    have hlt := hi.waits sock hpc
    have hne : p.inbox ≠ [] := by
      intro hnil
      rw [hsent, hnil, List.append_nil] at hlt
      exact lt_irrefl _ hlt
    have hopen : fd ∈ s.world.srv.sock.reduceOption := by
      rw [((Server.slots_of_loop hin).1 hsrv.slots).1.mem_iff]
      exact World.mem_open ⟨ws, World.newSock_of_run hrun⟩ hp (fd_eq_some hconn)
    obtain ⟨i, hslot⟩ := List.mem_iff_getElem?.1 (List.reduceOption_mem_iff.1 hopen)
    exact ⟨i, hslot, .inr (.inr hne)⟩

/-- What stays while the client waits. -/
structure Still (c : SocketClient.Client) (rx : Arr 128) (n L : ℕ) (k : SocketClient.State) (j : ℕ) (s : System) : Prop where
  inv : ∃ ls, Inv c rx n L ls s
  conn : s.conn = some j
  client : s.client = k

theorem Still.step {k : SocketClient.State} (h : Still c rx n L k j s) (hg : s.Waiting m) (hs : s.step c m = some t) :
    Still c rx n L k j t := by
  obtain ⟨⟨ls, hi⟩, hconn, hclient⟩ := h
  obtain ⟨hposix, hconn', hclient', -⟩ := waiting_step hg hs
  exact ⟨⟨_, hi.step hposix hs⟩, hconn'.trans hconn, hclient'.trans hclient⟩

/-- `recv` can return what has come. -/
theorem recv_enabled {sock : ℕ} (hpc : s.client.pc = .recv sock) (hdown : s.down ≠ []) :
    ∃ bs u, bs ≠ [] ∧ s.step c (.client (.recv (some bs))) = some u := by
  have hne : s.down.take 127 ≠ [] := by
    rw [← List.length_pos_iff] at hdown ⊢
    rw [List.length_take]
    omega
  have hshort : (s.down.take 127).length ≤ 127 := List.length_take_le _ _
  have hstep : (s.client.step c (.recv (some (s.down.take 127)))).isSome = true := by
    obtain ⟨rx, hprint⟩ := SocketClient.State.print_eq { s.client with log := .use sock :: s.client.log, pc := .send sock }
      hshort
    simp only [SocketClient.State.step, hpc, if_pos hshort, hprint, Option.isSome_some]
  obtain ⟨k, hk⟩ := Option.isSome_iff_exists.1 hstep
  have hcall : s.call (.recv (some (s.down.take 127))) = some { s with down := s.down.drop (s.down.take 127).length } :=
    if_pos ⟨List.take_prefix _ _, fun hnil => absurd hnil hne⟩
  exact ⟨_, _, hne, by rw [System.step, hk, Option.bind_eq_bind, Option.bind_some, hcall]; rfl⟩

/-- **The server is never stuck** in its loop, whatever the client waits for. -/
theorem can_step (h : (System.machine c rx n L).Run System.Posix (System.machine c rx n L).init ls s)
    (hin : s.world.srv.InLoop) :
    ∃ b t, s.Waiting (.world (.server b)) ∧ s.step c (.world (.server b)) = some t := by
  obtain ⟨ws, hws, -⟩ := (inv_of_run h).world
  obtain ⟨b, w, hg, hw⟩ := World.can_step ⟨ws, hws⟩ hin
  exact ⟨b, { s with world := w, down := s.down ++ s.answer w }, hg,
    by simp only [System.step, System.own, Bool.false_eq_true, if_false, hw, Option.bind_eq_bind, Option.bind_some]; rfl⟩

/-- **The answer comes.** A client waits in `recv`; its connection has been accepted and all
that it has sent has reached the server. Within `130 * n + 7` steps of the server, whatever
the other clients do in between, `recv` can return something, unless the server has closed
the connection after a failed call or has left its loop. -/
theorem answered_within (h : (System.machine c rx n L).Run System.Posix (System.machine c rx n L).init ls s) {sock : ℕ}
    (hpc : s.client.pc = .recv sock) (hp : s.peer = some p) (hconn : p.conn = .accepted fd) (hup : s.up = [])
    (hrun : (System.machine c rx n L).Run System.Waiting s ks t) (hlong : 130 * n + 7 ≤ ks.countP serverStep) :
    (∃ bs u, bs ≠ [] ∧ t.step c (.client (.recv (some bs))) = some u) ∨ t.hungUp = true ∨ ¬ t.world.srv.InLoop := by
  obtain ⟨j, hj, hp⟩ := Option.bind_eq_some_iff.1 hp
  have hi := inv_of_run h
  have hstill : Still c rx n L s.client j s := ⟨⟨ls, hi⟩, hj, rfl⟩
  have hend : Still c rx n L s.client j t ∧ Answered j t := by
    have hstay : ∀ s' m t, (Still c rx n L s.client j s' ∧ Answered j s') → s'.Waiting m → s'.step c m = some t →
        Still c rx n L s.client j t ∧ Answered j t := by
      intro s' m t ⟨hstill, ha⟩ hg hs
      obtain ⟨ls, hi⟩ := hstill.inv
      exact ⟨hstill.step hg hs, ha.step hi hg hs⟩
    by_cases ha : Answered j s
    · exact hrun.invariant ⟨hstill, ha⟩ hstay
    · simp only [Answered, not_or, not_not] at ha
      obtain ⟨hdown, hin, -⟩ := ha
      obtain ⟨i, hslot, howing⟩ := exists_owing hi hpc hj hp hconn hup hdown hin
      refine hrun.response (Q := fun t => Still c rx n L s.client j t ∧ Answered j t)
        (I := fun t => Still c rx n L s.client j t ∧ Waits j fd i t) (μ := fun t => due t.world.srv i) (c := serverStep)
        (.inr ⟨hstill, hslot, hin, p, hp, hconn, howing⟩) ?_ hstay ?_
      · intro s' m t ⟨hstill, hw⟩ hg hs
        obtain ⟨ls, hi⟩ := hstill.inv
        have hnext := hstill.step hg hs
        exact (hw.step hi hstill.conn hg hs).imp (⟨hnext, ·⟩) fun ⟨hw, hlt⟩ => ⟨⟨hnext, hw⟩, hlt⟩
      · obtain ⟨ws, hws, -⟩ := hi.world
        have hsrv := World.srv_inv ⟨ws, hws⟩
        have hlt : i < n := by
          rw [← hsrv.len]
          exact (List.getElem?_eq_some_iff.1 hslot).1
        have hturns := Server.turns_le hsrv hlt
        have hdue := due_le s.world.srv i
        omega
  obtain ⟨hstill, hdown | hout | ⟨q, hq, hrel⟩⟩ := hend
  · exact .inl (recv_enabled (by rw [hstill.client]; exact hpc) hdown)
  · exact .inr (.inr hout)
  · refine .inr (.inl ?_)
    rw [System.hungUp, System.peer, hstill.conn, Option.bind_some, hq, Option.any_some, hrel]
    rfl

instance (s : System) : ∀ m, Decidable (s.Waiting m)
  | .client _ => isFalse id
  | .deliver _ => isTrue trivial
  | .world l => inferInstanceAs (Decidable (s.world.Posix l))

/-- A payload that has reached the server. -/
def delivered : List Label :=
  [.client (.socket (some 4)), .client (.connect true), .world (.server .tau), .world (.server (.accept (.ok 7))),
    .world (.server (.fcntl true)), .client (.send (some 19)), .deliver 19]

/-- It is sent back, and the server goes round with nothing to do. -/
def rounds : List Label :=
  .world (.server (.recv (.ok payload))) :: .world (.server (.send (.ok 19))) ::
    (List.replicate 45 [.world (.server .tau), .world (.server .tau),
      .world (.server (.recv (.error .eagain)))]).flatten

/-- `tcp_client.c` against a server with one slot. -/
def oneSlot : Machine System Label := System.machine SocketClient.tcpClientTask (Arr.zeros 128) 1 3

/-- `answered_within` over `rounds`. -/
theorem answered_within_rounds : ∃ s t : System, oneSlot.Run System.Posix oneSlot.init delivered s ∧
    s.client.pc = .recv 4 ∧ s.down = [] ∧ oneSlot.Run System.Waiting s rounds t ∧
    ∃ bs u, bs ≠ [] ∧ t.step SocketClient.tcpClientTask (.client (.recv (some bs))) = some u := by
  have hrun : (oneSlot.exec System.Posix oneSlot.init delivered).map (fun s => s.client.pc == .recv 4 && s.down == [] &&
      s.up == [] && s.peer.any (·.conn == .accepted 7) && (oneSlot.exec System.Waiting s rounds).any fun t =>
        !t.hungUp && t.world.srv.pc == .serve 1) = some true := by
    decide +kernel
  obtain ⟨s, hs, hp⟩ := Option.map_eq_some_iff.1 hrun
  simp only [Bool.and_eq_true, beq_iff_eq, Option.any_eq_true, Bool.not_eq_true'] at hp
  obtain ⟨⟨⟨⟨hpc, hdown⟩, hup⟩, p, hpeer, hconn⟩, t, ht, hhung, hsrv⟩ := hp
  have hsent := Machine.Run.of_exec hs
  have hrounds := Machine.Run.of_exec ht
  refine ⟨s, t, hsent, hpc, hdown, hrounds, ?_⟩
  rcases answered_within hsent hpc hpeer hconn hup hrounds (by decide +kernel) with h | h | h
  · exact h
  · rw [hhung] at h
    cases h
  · exact absurd (by simp [Server.InLoop, hsrv]) h

end EspNetwork.EchoSystem
