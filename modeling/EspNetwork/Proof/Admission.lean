import EspNetwork.Proof.EchoStreams
import EspNetwork.Proof.RoundRobin

/-!
# Who is admitted

The server accepts its clients in the order in which they have connected, each into a free
slot.

* `World.accepted_within`: **a client for which a slot is left is accepted**, within a round
  for each client before it and one for itself.
* `World.slots_given_back`: **clients give their slots back**, as long as the loop polls none
  that has closed its end.
* `World.exhausted`: **once clients that have closed hold every slot, nobody is**, for good.
-/

namespace EspNetwork.Tcp

open CLib Handle Lts

variable {n L j fd : ℕ} {c : Call} {peers qs : List Peer} {p q : Peer}

/-! ## Who waits -/

/-- Which clients wait to be accepted. -/
def pendings (peers : List Peer) : List Bool := peers.map (·.conn == .pending)

/-- The clients that are accepted before the one at `j`. -/
def ahead (peers : List Peer) (j : ℕ) : ℕ := ((pendings peers).take j).count true

theorem pendings_getElem? (peers : List Peer) (j : ℕ) : (pendings peers)[j]? = peers[j]?.map (·.conn == .pending) :=
  List.getElem?_map

theorem pendings_set {m : ℕ} (hm : peers[m]? = some p) (hq : (q.conn == .pending) = (p.conn == .pending)) :
    pendings (peers.set m q) = pendings peers := by
  have hp : (pendings peers)[m]? = some (p.conn == .pending) := by rw [pendings_getElem?, hm, Option.map_some]
  obtain ⟨hlt, he⟩ := List.getElem?_eq_some_iff.1 hp
  rw [pendings, List.map_set, hq, ← he]
  exact List.set_getElem_self hlt

/-- **Only `accept` changes who waits.** -/
theorem pendings_kernel (hk : Kernel peers c qs) (hc : ∀ fd, c ≠ .accept (.ok fd)) : pendings qs = pendings peers := by
  cases hk with
  | accepted => exact absurd rfl (hc _)
  | used _ hm _ hq => exact pendings_set hm (by rw [hq])
  | @closed fd m p hm hp =>
    refine pendings_set hm ?_
    -- the client was accepted before
    cases hconn : p.conn with
    | accepted => rfl
    | pending | released => simp [Peer.fd, hconn] at hp
  | notClient | other => rfl

/-- **`accept` takes the first of those who wait.** -/
theorem pendings_accept (h : kernel peers (.accept (.ok fd)) = some qs) : ∃ m, (pendings peers)[m]? = some true ∧
    (∀ k, k < m → (pendings peers)[k]? ≠ some true) ∧ pendings qs = (pendings peers).set m false := by
  obtain ⟨m, hm, h⟩ := Option.bind_eq_some_iff.1 h
  obtain ⟨p, hp, h⟩ := Option.bind_eq_some_iff.1 h
  cases h
  obtain ⟨hlt, hpend, hfirst⟩ := List.findIdx?_eq_some_iff_getElem.1 hm
  refine ⟨m, ?_, ?_, ?_⟩
  · rw [pendings_getElem?, List.getElem?_eq_getElem hlt, Option.map_some, hpend]
  · intro k hk
    rw [pendings_getElem?, List.getElem?_eq_getElem (by omega), Option.map_some, ne_eq, Option.some.injEq]
    exact hfirst k hk
  · rw [pendings, List.map_set]
    rfl

/-- One who waits is accepted, or has one less before it. -/
theorem ahead_accept (h : kernel peers (.accept (.ok fd)) = some qs) (hj : (pendings peers)[j]? = some true) :
    (pendings qs)[j]? = some false ∨ (pendings qs)[j]? = some true ∧ ahead qs j + 1 = ahead peers j := by
  obtain ⟨m, hm, hfirst, hset⟩ := pendings_accept h
  have hlen := (List.getElem?_eq_some_iff.1 hj).1
  rcases Nat.lt_trichotomy m j with hlt | rfl | hgt
  · right
    have hm' : m < ((pendings peers).take j).length := by
      rw [List.length_take]
      omega
    have htrue : ((pendings peers).take j)[m] = true := by
      rw [List.getElem_take]
      exact (List.getElem?_eq_some_iff.1 hm).2
    refine ⟨by rw [hset, List.getElem?_set_ne (by omega), hj], ?_⟩
    have hpos : 0 < ((pendings peers).take j).count true := List.count_pos_iff.2 (htrue ▸ List.getElem_mem hm')
    rw [ahead, ahead, hset, List.take_set, List.count_set hm', htrue]
    simp only [beq_self_eq_true, if_true, Bool.false_eq_true, beq_iff_eq, if_false, Nat.add_zero]
    omega
  · left
    rw [hset, List.getElem?_set_self hlen]
  · exact absurd hj (hfirst j hgt)

/-! ## The way to `accept` -/

namespace Server

variable {s t : Server} {l : Label}

/-- The slots that are left. -/
def free (s : Server) : ℕ := s.sock.count none

/-- The steps, at most, before `accept` is called. -/
def toAccept (s : Server) : ℕ :=
  match s.pc with
  | .head => 2
  | .accept _ => 1
  | .fcntl _ => 130 * s.sock.length + 4
  | .serve j => 130 * (s.sock.length - j) + 3
  | .send j _ toWrite => 130 * (s.sock.length - (j + 1)) + toWrite.toNat + 4
  | .close j => 130 * (s.sock.length - (j + 1)) + 4
  | .error | .sweep _ | .done => 0

/-- One step, while there is a slot to accept into. -/
inductive Ask (n : ℕ) (s t : Server) : Prop
  | accepted {fd : ℕ} (hlog : t.log = .accept (.ok fd) :: s.log) (hfree : t.free + 1 = s.free) (hs : s.toAccept = 1)
      (ht : t.toAccept = 130 * n + 4)
  | nobody (hlog : t.log = .accept (.error .eagain) :: s.log)
  | left (h : ¬ t.InLoop)
  | nearer (hfree : s.free ≤ t.free) (hlt : t.toAccept < s.toAccept) (hlog : ∀ fd, t.log ≠ .accept (.ok fd) :: s.log)

theorem toAccept_sendLoop {i len : ℕ} {w : ℤ} (h : t.pc = sendLoop i len w) :
    t.toAccept ≤ 130 * (t.sock.length - (i + 1)) + w.toNat + 4 := by
  unfold sendLoop at h
  unfold toAccept
  split at h
  · rw [h]
  · rw [h]
    dsimp only
    omega

theorem toAccept_le (hi : Inv n s) : s.toAccept ≤ 130 * n + 4 := by
  have hlen := hi.len
  unfold toAccept
  split
  · omega
  · omega
  · omega
  · omega
  · rename_i j len w hpc
    obtain ⟨fd, hfd⟩ := hi.taken (.inr (.inl ⟨len, w, hpc⟩))
    have hw := (hi.sending hpc hfd).le_buffer
    have hj := (List.getElem?_eq_some_iff.1 hfd).1
    omega
  · omega
  · omega
  · omega
  · omega

/-- A slot that a step empties or leaves alone. -/
theorem free_set_none {k : ℕ} (hk : k < s.sock.length) : s.free ≤ (s.sock.set k none).count none := by
  rw [free, List.count_set hk]
  simp only [beq_self_eq_true, if_true]
  split <;> omega

/-- **Every step brings the loop nearer to `accept`.** -/
theorem toAccept_step (hi : Inv n s) (hg : Env s l) (hin : s.InLoop) (hfree : 0 < s.free) (hs : s.step l = some t) :
    Ask n s t := by
  have hlen := hi.len
  cases step_cases hs with
  | free hpc =>
    refine .nearer le_rfl (by simp only [toAccept, hpc]; omega) fun fd hlog => ?_
    exact absurd hlog.symm (List.cons_ne_self _ _)
  | full hpc hk =>
    -- there is a free slot
    obtain ⟨k, hk'⟩ := List.mem_iff_getElem?.1 (List.count_pos_iff.1 hfree)
    exact absurd (List.findIdx?_eq_none_iff.1 hk _ (List.mem_of_getElem? hk')) (by simp)
  | @accepted k fd hpc =>
    have hslot := hi.free hpc
    obtain ⟨hk, hnone⟩ := List.getElem?_eq_some_iff.1 hslot
    refine .accepted rfl ?_ (by simp only [toAccept, hpc]) ?_
    · have hpos : 0 < s.sock.count none := hfree
      simp only [Server.free]
      rw [List.count_set hk, hnone]
      simp only [beq_self_eq_true, if_true, beq_iff_eq, reduceCtorEq, if_false]
      omega
    · simp only [toAccept, List.length_set, hlen]
  | noClient hpc => exact .nobody rfl
  | acceptFailed hpc =>
    refine .nearer ?_ (by simp only [toAccept, hpc]; omega) (by simp)
    exact free_set_none (List.getElem?_eq_some_iff.1 (hi.free hpc)).1
  | fcntl hpc | fcntlFailed hpc =>
    exact .nearer le_rfl (by simp only [toAccept, hpc]; omega) (by simp)
  | @skip i hpc hslot =>
    have hlt := (List.getElem?_eq_some_iff.1 hslot).1
    refine .nearer le_rfl (by simp only [toAccept, hpc]; omega) fun fd hlog => ?_
    exact absurd hlog.symm (List.cons_ne_self _ _)
  | pass hpc => exact .nearer le_rfl (by simp only [toAccept, hpc]; omega) (by simp)
  | @received i fd data rx hpc hslot hrx =>
    have hlt := (List.getElem?_eq_some_iff.1 hslot).1
    have hshort := length_le_of_store hrx
    exact .nearer le_rfl (by simp only [toAccept, hpc, Int.toNat_natCast]; omega) (by simp)
  | @receivedEnd i fd rx hpc hslot | @noData i fd e hpc hslot | @recvFailed i fd e hpc hslot =>
    have hlt := (List.getElem?_eq_some_iff.1 hslot).1
    exact .nearer le_rfl (by simp only [toAccept, hpc]; omega) (by simp)
  | @sent i fd len k w hpc hslot ho hk =>
    obtain ⟨hpos, -⟩ := hi.sending hpc hslot
    have hk1 : 1 ≤ k := hg
    refine .nearer le_rfl (lt_of_le_of_lt (toAccept_sendLoop rfl) ?_) (by simp)
    simp only [toAccept, hpc]
    omega
  | sentNone hpc hslot ho he => exact absurd (he.symm.trans hg) (by decide)
  | @sendFailed i fd len w e hpc hslot ho he =>
    obtain ⟨hpos, -⟩ := hi.sending hpc hslot
    exact .nearer le_rfl (by simp only [toAccept, hpc]; omega) (by simp)
  | @close i fd hpc hslot =>
    have hlt := (List.getElem?_eq_some_iff.1 hslot).1
    refine .nearer (free_set_none hlt) ?_ (by simp)
    simp only [toAccept, hpc, List.length_set]
    omega
  | error => exact .left fun h => h.1 0 rfl
  | sweepSkip hpc | sweepClose hpc => exact absurd hpc (hin.1 _)
  | sweepEnd hpc => exact absurd hpc (hin.1 _)

end Server

/-! ## Runs -/

namespace World

variable {w v : World} {l : WorldLabel} {ls ks : List WorldLabel}

/-- **Who waits after a step** that accepts nobody: those who did, and a client that connects. -/
theorem pendings_step (hs : w.step l = some v) (hlog : ∀ fd, v.srv.log ≠ .accept (.ok fd) :: w.srv.log) :
    pendings v.peers = pendings w.peers ++ if l = .connect then [true] else [] := by
  rcases step_cases hs with ⟨rfl, rfl⟩ | ⟨i, f, hf, hc⟩ | ⟨b, rfl⟩
  · rw [if_pos rfl, pendings, List.map_append]
    rfl
  · have hne : l ≠ .connect := by
      rintro rfl
      cases hs
      obtain ⟨p, q, hp, hq, he⟩ := client_cases hc
      have hlen := congrArg (fun w => w.peers.length) he
      simp at hlen
    obtain ⟨p, q, hp, hq, rfl⟩ := client_cases hc
    rw [if_neg hne, List.append_nil]
    exact pendings_set hp (by rw [(hf p q hq).1])
  · rw [if_neg nofun, List.append_nil]
    obtain ⟨-, ⟨-, hpeers⟩ | ⟨c, hnew, hk⟩⟩ := server_step hs
    · rw [hpeers]
    · refine pendings_kernel hk fun fd hc => ?_
      exact hlog fd (hc ▸ hnew)

/-- Nobody waits a second time. -/
theorem accepted_step (hs : w.step l = some v) (hj : (pendings w.peers)[j]? = some false) :
    (pendings v.peers)[j]? = some false := by
  have hlt := (List.getElem?_eq_some_iff.1 hj).1
  by_cases hlog : ∀ fd, v.srv.log ≠ .accept (.ok fd) :: w.srv.log
  · rw [pendings_step hs hlog, List.getElem?_append_left hlt, hj]
  · push Not at hlog
    obtain ⟨fd, hlog⟩ := hlog
    rcases srv_cases hs with ⟨hsrv, -⟩ | ⟨b, rfl, -⟩
    · rw [hsrv] at hlog
      exact absurd hlog.symm (List.cons_ne_self _ _)
    · obtain ⟨m, -, -, hset⟩ := pendings_accept (kernel_of_step hs hlog)
      rw [hset]
      by_cases hmj : m = j
      · subst hmj
        exact List.getElem?_set_self hlt
      · rw [List.getElem?_set_ne hmj, hj]

/-- A client that waits, with a slot for it. -/
structure InLine (j : ℕ) (w : World) : Prop where
  inLoop : w.srv.InLoop
  waits : (pendings w.peers)[j]? = some true
  slot : ahead w.peers j < w.srv.free

/-- The steps of the server, at most, before it is accepted. -/
def line (n j : ℕ) (w : World) : ℕ := ahead w.peers j * (130 * n + 5) + w.srv.toAccept

theorem InLine.kept (h : InLine j w) (hs : w.step l = some v) (hlog : ∀ fd, v.srv.log ≠ .accept (.ok fd) :: w.srv.log) :
    (pendings v.peers)[j]? = some true ∧ ahead v.peers j = ahead w.peers j := by
  have hlt := (List.getElem?_eq_some_iff.1 h.waits).1
  rw [ahead, ahead, pendings_step hs hlog]
  exact ⟨by rw [List.getElem?_append_left hlt, h.waits], by rw [List.take_append_of_le_length hlt.le]⟩

theorem InLine.step (h : InLine j w) (hi : Server.Inv n w.srv) (hg : w.Posix l) (hs : w.step l = some v) :
    (¬ v.srv.InLoop ∨ (pendings v.peers)[j]? = some false) ∨
      InLine j v ∧ line n j v + (if serverStep l then 1 else 0) ≤ line n j w := by
  rcases srv_cases hs with ⟨hsrv, hno⟩ | ⟨b, rfl, ht⟩
  · obtain ⟨hwaits, hahead⟩ := h.kept hs fun fd hlog => by
      rw [hsrv] at hlog
      exact absurd hlog.symm (List.cons_ne_self _ _)
    right
    refine ⟨⟨hsrv ▸ h.inLoop, hwaits, ?_⟩, ?_⟩
    · rw [hahead, hsrv]
      exact h.slot
    · rw [line, line, hahead, hsrv, hno]
      exact le_rfl
  · have hfree : 0 < w.srv.free := lt_of_le_of_lt (Nat.zero_le _) h.slot
    cases Server.toAccept_step hi hg h.inLoop hfree ht with
    | @accepted fd hlog hfree hw hv =>
      rcases ahead_accept (kernel_of_step hs hlog) h.waits with hdone | ⟨hwaits, hahead⟩
      · exact .inl (.inr hdone)
      · by_cases hin : v.srv.InLoop
        · right
          have hslot := h.slot
          refine ⟨⟨hin, hwaits, by omega⟩, ?_⟩
          rw [line, line, ← hahead, hw, hv, Nat.add_mul (ahead v.peers j) 1, Nat.one_mul]
          simp only [serverStep, if_true]
          omega
        · exact .inl (.inl hin)
    | nobody hlog =>
      -- the kernel does not say so
      have hk := kernel_of_step hs hlog
      have hany : w.peers.any (·.conn == .pending) = true := by
        obtain ⟨p, hp, hpend⟩ := Option.map_eq_some_iff.1 ((pendings_getElem? _ _).symm.trans h.waits)
        exact List.any_eq_true.2 ⟨p, List.mem_of_getElem? hp, hpend⟩
      simp [kernel, hany] at hk
    | left hout => exact .inl (.inl hout)
    | nearer hfree hlt hlog =>
      obtain ⟨hwaits, hahead⟩ := h.kept hs hlog
      by_cases hin : v.srv.InLoop
      · right
        have hslot := h.slot
        refine ⟨⟨hin, hwaits, by omega⟩, ?_⟩
        rw [line, line, hahead]
        simp only [serverStep, if_true]
        omega
      · exact .inl (.inl hin)

/-- The server's part of a step that meets the assumptions. -/
theorem srv_inv_step (hi : Server.Inv n w.srv) (hg : w.Posix l) (hs : w.step l = some v) : Server.Inv n v.srv := by
  rcases srv_cases hs with ⟨hsrv, -⟩ | ⟨b, rfl, ht⟩
  · rw [hsrv]
    exact hi
  · exact hi.step hg ht

/-- Whatever has happened before, from a state in which a slot is left. -/
theorem admitted_within (hi : Server.Inv n w.srv) (hj : w.peers[j]? = some p) (hp : p.conn = .pending)
    (hslot : ahead w.peers j < w.srv.free) (hrun : (machine n L).Run Posix w ks v)
    (hlong : (ahead w.peers j + 1) * (130 * n + 5) ≤ ks.countP serverStep) :
    ¬ v.srv.InLoop ∨ ∃ q, v.peers[j]? = some q ∧ q.conn ≠ .pending := by
  have hdone : ¬ v.srv.InLoop ∨ (pendings v.peers)[j]? = some false := by
    refine hrun.response (Q := fun v => ¬ v.srv.InLoop ∨ (pendings v.peers)[j]? = some false)
      (I := fun v => Server.Inv n v.srv ∧ InLine j v) (μ := line n j) (c := serverStep) ?_ ?_ ?_ ?_
    · by_cases hin : w.srv.InLoop
      · refine .inr ⟨hi, hin, ?_, hslot⟩
        rw [pendings_getElem?, hj, Option.map_some, hp]
        rfl
      · exact .inl (.inl hin)
    · intro v l u ⟨hv, hline⟩ hg hs
      have hu := srv_inv_step hv hg hs
      exact (hline.step hv hg hs).imp_right fun ⟨hline, hlt⟩ => ⟨⟨hu, hline⟩, hlt⟩
    · intro v l u hdone hg hs
      rcases hdone with hout | hdone
      · left
        rcases srv_cases hs with ⟨hsrv, -⟩ | ⟨b, -, ht⟩
        · rwa [hsrv]
        · exact fun h => hout (Server.inLoop_of_step ht h)
      · exact .inr (accepted_step hs hdone)
    · have := Server.toAccept_le hi
      rw [line]
      rw [Nat.add_mul (ahead w.peers j) 1, Nat.one_mul] at hlong
      omega
  rcases hdone with hout | hdone
  · exact .inl hout
  · right
    obtain ⟨q, hq, hconn⟩ := Option.map_eq_some_iff.1 ((pendings_getElem? _ _).symm.trans hdone)
    exact ⟨q, hq, by simpa using hconn⟩

/-- **A client for which a slot is left is accepted.** From any reachable state with more free
slots than clients that wait before it, within `130 * n + 5` steps of the server for each of
these and for itself, whatever happens in between, unless the server leaves its loop. -/
theorem accepted_within (h : (machine n L).Run Posix (machine n L).init ls w) (hj : w.peers[j]? = some p)
    (hp : p.conn = .pending) (hslot : ahead w.peers j < w.srv.free) (hrun : (machine n L).Run Posix w ks v)
    (hlong : (ahead w.peers j + 1) * (130 * n + 5) ≤ ks.countP serverStep) :
    ¬ v.srv.InLoop ∨ ∃ q, v.peers[j]? = some q ∧ q.conn ≠ .pending :=
  admitted_within (srv_inv ⟨ls, h⟩) hj hp hslot hrun hlong

/-- A client is accepted, and then polled. -/
def admitted : List WorldLabel :=
  [.server .tau, .server (.accept (.ok 7)), .server (.fcntl true)] ++
    (List.replicate 45 [.server (.recv (.error .eagain)), .server .tau, .server .tau]).flatten

/-- `accepted_within` with one slot and one client. -/
theorem accepted_within_admitted : ∃ v, (machine 1 3).Run Posix (machine 1 3).init ([.connect] ++ admitted) v ∧
    ∃ q, v.peers[0]? = some q ∧ q.conn ≠ .pending := by
  have hend : (((machine 1 3).exec Posix (machine 1 3).init [.connect]).bind fun w => (machine 1 3).exec Posix w admitted).map
      (fun v => v.srv.pc == .serve 0) = some true := by decide +kernel
  obtain ⟨v, hv, hpc⟩ := Option.map_eq_some_iff.1 hend
  obtain ⟨w, hw, hv⟩ := Option.bind_eq_some_iff.1 hv
  rw [beq_iff_eq] at hpc
  have hrun := Machine.Run.of_exec hw
  have hks := Machine.Run.of_exec hv
  cases hw
  refine ⟨v, hrun.append hks, ?_⟩
  rcases accepted_within hrun (j := 0) rfl rfl (by decide) hks (by decide +kernel) with hout | h
  · exact absurd (by simp [Server.InLoop, hpc]) hout
  · exact h

/-! ## Slots that are given back -/

/-- The first of those who wait has nobody before it. -/
theorem exists_first (hpend : (w.peers.any (·.conn == .pending)) = true) :
    ∃ (j : ℕ) (p : Peer), w.peers[j]? = some p ∧ p.conn = .pending ∧ ahead w.peers j = 0 := by
  obtain ⟨p, hp, hconn⟩ := List.any_eq_true.1 hpend
  cases hj : w.peers.findIdx? (·.conn == .pending) with
  | none =>
    rw [List.findIdx?_eq_none_iff.1 hj p hp] at hconn
    cases hconn
  | some j =>
    obtain ⟨hlt, hpj, hfirst⟩ := List.findIdx?_eq_some_iff_getElem.1 hj
    refine ⟨j, _, List.getElem?_eq_getElem hlt, by simpa using hpj, ?_⟩
    rw [ahead, List.count_eq_zero]
    intro hmem
    obtain ⟨k, hk, htrue⟩ := List.mem_take_iff_getElem.1 hmem
    simp only [pendings, List.getElem_map] at htrue
    exact hfirst k (by omega) htrue

/-- **Slots are given back** in every run of the server and its clients that meets the
condition: no slot holds a descriptor on which the end of the stream was reported in the
current pass; between two service steps the occupied slots are no more than the accepted
clients not known to have left; at an iteration boundary with fewer of these than slots
the server goes on to `accept` into a free slot, where a pending client does not get
`EWOULDBLOCK` and is accepted with any descriptor that the kernel returns; and one is
accepted within `130 * n + 5` steps of the server, if from then on every `send` takes a
byte or fails for good, unless the server leaves its loop. -/
theorem slots_given_back (n L : ℕ) (w : World) (h : (machine n L).Reach Guarded w) :
    (∀ fd, .recv fd (.ok []) ∈ thisPass w.srv.log → some fd ∉ w.srv.sock) ∧
    (w.srv.InLoop → (∀ i, w.srv.pc ≠ .close i) → w.srv.sock.reduceOption.length ≤ w.connected) ∧
    (w.srv.pc = .head → w.connected < n → ∃ k v, w.step (.server .tau) = some v ∧ v.peers = w.peers ∧
      v.srv.pc = .accept k ∧ v.srv.sock[k]? = some none ∧
      ((w.peers.any (·.conn == .pending)) = true →
        v.step (.server (.accept (.error .eagain))) = none ∧
        ∀ fd, ∃ u, v.step (.server (.accept (.ok fd))) = some u ∧ u.srv.sock[k]? = some (some fd) ∧
          ∃ p ∈ u.peers, p.fd = some fd)) ∧
    (w.srv.pc = .head → w.connected < n → (w.peers.any (·.conn == .pending)) = true →
      ∀ ks v, (machine n L).Run Posix w ks v → 130 * n + 5 ≤ ks.countP serverStep →
        ¬ v.srv.InLoop ∨ ∃ (j : ℕ) (p q : Peer), w.peers[j]? = some p ∧ p.conn = .pending ∧
          v.peers[j]? = some q ∧ q.conn ≠ .pending) := by
  have ht := srv_table (Guarded.reach h)
  have hfree : w.srv.pc = .head → w.connected < n →
      ∃ k, w.srv.sock.findIdx? (·.isNone) = some k ∧ w.srv.sock[k]? = some none := by
    intro hpc hlt
    have hocc := occupied_eq h (by simp [Server.InLoop, hpc]) (by simp [hpc])
    exact exists_free (by rw [ht.len]; omega)
  refine ⟨?_, ?_, ?_, ?_⟩
  · intro fd hmem
    exact absurd (List.takeWhile_sublist _ |>.subset hmem) ((inv_of_reach h).noEof fd)
  · intro hin hpc
    exact (occupied_eq h hin hpc).le
  · intro hpc hlt
    obtain ⟨k, hk, hslot⟩ := hfree hpc hlt
    have hlen : k < w.srv.sock.length := (List.getElem?_eq_some_iff.1 hslot).1
    refine ⟨k, ⟨{ w.srv with pc := .accept k }, w.peers⟩, ?_, rfl, rfl, hslot, ?_⟩
    · simp [World.step, Server.step, Server.tau, hpc, hk]
    · intro hpend
      exact accept_pending (w := ⟨{ w.srv with pc := .accept k }, w.peers⟩) rfl hlen hpend
  · intro hpc hlt hpend ks v hrun hlong
    obtain ⟨k, -, hslot⟩ := hfree hpc hlt
    obtain ⟨j, p, hj, hp, hahead⟩ := exists_first hpend
    -- no service is under way
    have hi : Server.Inv n w.srv := ⟨ht, fun hsend => by rw [hpc] at hsend; cases hsend⟩
    have hleft : ahead w.peers j < w.srv.free := by
      rw [hahead]
      exact List.count_pos_iff.2 (List.mem_of_getElem? hslot)
    refine (admitted_within hi hj hp hleft hrun (by rw [hahead]; omega)).imp_right ?_
    rintro ⟨q, hq, hconn⟩
    exact ⟨j, p, q, hj, hp, hq, hconn⟩

/-- A client gets its bytes back, the second one after `EAGAIN`, and resets its connection; a
second client connects. -/
def resetThenConnect : List WorldLabel :=
  [.connect, .server .tau, .server (.accept (.ok 7)), .server (.fcntl true), .send 0 [97, 98],
    .server (.recv (.ok [97, 98])), .server (.send (.ok 1)), .server (.send (.error .eagain)), .server (.send (.ok 2)),
    .server .tau, .server .tau, .reset 0, .server (.recv (.error .enotconn)), .server .tau, .server .tau, .connect]

/-- The second client is accepted, and then polled. -/
def acceptSecond : List WorldLabel :=
  [.server .tau, .server (.accept (.ok 9)), .server (.fcntl true)] ++
    (List.replicate 45 [.server (.recv (.error .eagain)), .server .tau, .server .tau]).flatten

/-- `slots_given_back` after `resetThenConnect`, with one slot. -/
theorem slots_given_back_reset : ∃ w v, (machine 1 3).Reach Guarded w ∧ (machine 1 3).Run Posix w acceptSecond v ∧
    ∃ (j : ℕ) (p q : Peer), w.peers[j]? = some p ∧ p.conn = .pending ∧ v.peers[j]? = some q ∧ q.conn ≠ .pending := by
  have hrun : ((machine 1 3).exec Guarded (machine 1 3).init resetThenConnect).map (fun w =>
      w.srv.pc == .head && w.connected == 0 && w.peers.any (·.conn == .pending) &&
        ((machine 1 3).exec Posix w acceptSecond).any (·.srv.pc == .serve 0)) = some true := by decide +kernel
  obtain ⟨w, hw, hp⟩ := Machine.Reach.of_exec hrun
  simp only [Bool.and_eq_true, beq_iff_eq, Option.any_eq_true] at hp
  obtain ⟨⟨⟨hpc, hnone⟩, hpend⟩, v, hv, hend⟩ := hp
  have hks := Machine.Run.of_exec hv
  obtain ⟨-, -, -, haccept⟩ := slots_given_back 1 3 w hw
  refine ⟨w, v, hw, hks, ?_⟩
  rcases haccept hpc (by omega) hpend acceptSecond v hks (by decide +kernel) with hout | hdone
  · exact absurd (by simp [Server.InLoop, hend]) hout
  · exact hdone

/-! ## Clients that have closed -/

/-- A client that has closed its end holds `fd`, and all that it sent has been read. -/
def Ended (peers : List Peer) (fd : ℕ) : Prop :=
  ∃ (j : ℕ) (p : Peer), peers[j]? = some p ∧ p.conn = .accepted fd ∧ p.atEnd = true

/-- Accepted clients do not reset their connections. -/
def Silent (w : World) : WorldLabel → Prop
  | .server l => Tcp.NewSock w.srv l
  | .reset j => (w.peers[j]?.bind Peer.fd) = none
  | .connect | .send _ _ | .close _ => True

theorem Silent.newSock (h : w.Silent l) : w.NewSock l := by
  cases l with
  | server b => exact h
  | connect | send | close | reset => trivial

/-- Clients that have closed hold every slot. -/
def Spent (w : World) : Prop := ∀ o ∈ w.srv.sock, ∃ fd, o = some fd ∧ Ended w.peers fd

/-- Between two steps the loop goes round such slots. -/
def Polls (s : Server) : Prop := s.pc = .head ∨ ∃ i, s.pc = .serve i

/-- `recv` says for ever that the stream has ended. -/
theorem recv_atEnd {r : Except Errno Bytes} (h : p.recv r = some q) (hend : p.atEnd = true) :
    r = .ok [] ∧ q.atEnd = true := by
  simp only [Peer.atEnd, Bool.and_eq_true, Bool.not_eq_true', List.isEmpty_iff] at hend
  obtain ⟨⟨hclosed, hbox⟩, hreset⟩ := hend
  unfold Peer.recv at h
  split at h
  · rename_i data
    have hnil : data = [] := by
      by_contra hne
      simp [hreset, hbox, hne] at h
    subst hnil
    simp only [hreset, Bool.false_eq_true, if_false, List.isEmpty_nil, if_true] at h
    split at h
    · cases h
      exact ⟨rfl, by simp [Peer.atEnd, hclosed, hbox]⟩
    · cases h
  · simp [hreset, hclosed] at h

theorem Ended.set {m : ℕ} (h : Ended peers fd) (hm : peers[m]? = some p) (hconn : q.conn = p.conn)
    (hend : p.fd.isSome = true → p.atEnd = true → q.atEnd = true) : Ended (peers.set m q) fd := by
  obtain ⟨j, p', hj, hp, he⟩ := h
  by_cases hmj : m = j
  · subst hmj
    obtain rfl : p = p' := Option.some.inj (hm.symm.trans hj)
    refine ⟨m, q, List.getElem?_set_self (List.getElem?_eq_some_iff.1 hm).1, hconn.trans hp, hend ?_ he⟩
    rw [Peer.fd, hp]
    rfl
  · exact ⟨j, p', (List.getElem?_set_ne hmj).trans hj, hp, he⟩

/-- What a client does on its own end. -/
theorem Ended.client (h : Ended w.peers fd) (hg : w.Silent l) (hs : w.step l = some v) (hl : serverStep l = false) :
    Ended v.peers fd := by
  cases l with
  | server b => cases hl
  | connect =>
    cases hs
    obtain ⟨j, p, hj, hp⟩ := h
    exact ⟨j, p, by rw [List.getElem?_append_left (List.getElem?_eq_some_iff.1 hj).1, hj], hp⟩
  | send k data =>
    obtain ⟨p, q, hp, hq, rfl⟩ := client_cases hs
    simp only [Option.ite_none_left_eq_some, Option.some.injEq] at hq
    obtain ⟨hopen, rfl⟩ := hq
    refine h.set hp rfl fun _ hend => ?_
    -- it has closed, and sends no more
    simp only [Peer.atEnd, Bool.and_eq_true] at hend
    simp [hend.1.1] at hopen
  | close k =>
    obtain ⟨p, q, hp, hq, rfl⟩ := client_cases hs
    simp only [Option.ite_none_left_eq_some, Option.some.injEq] at hq
    obtain ⟨-, rfl⟩ := hq
    refine h.set hp rfl fun _ hend => ?_
    simp only [Peer.atEnd, Bool.and_eq_true] at hend ⊢
    exact ⟨⟨trivial, hend.1.2⟩, hend.2⟩
  | reset k =>
    obtain ⟨p, q, hp, hq, rfl⟩ := client_cases hs
    cases hq
    refine h.set hp rfl fun hfd _ => ?_
    have hnone : p.fd = none := by
      have hg : (w.peers[k]?.bind Peer.fd) = none := hg
      rwa [hp] at hg
    rw [hnone] at hfd
    cases hfd

/-- A poll of its descriptor. -/
theorem Ended.recv {r : Except Errno Bytes} (h : Ended peers fd) (hn : (peers.map Peer.fd).reduceOption.Nodup)
    (hk : kernel peers (.recv fd r) = some qs) : r = .ok [] ∧ ∀ fd', Ended peers fd' → Ended qs fd' := by
  obtain ⟨j, p, hj, hp, hend⟩ := h
  obtain ⟨q, hq, rfl⟩ := withPeer_self hk hn hj (by rw [Peer.fd, hp])
  obtain ⟨hr, hend'⟩ := recv_atEnd hq hend
  exact ⟨hr, fun fd' h => h.set hj (Peer.recv_spec hq).1 fun _ _ => hend'⟩

/-- **A round over such slots changes nothing.** -/
theorem Spent.step (h : w.Spent) (hpolls : Polls w.srv) (hn : (w.peers.map Peer.fd).reduceOption.Nodup)
    (hg : w.Silent l) (hs : w.step l = some v) : v.Spent ∧ Polls v.srv ∧ v.srv.sock = w.srv.sock ∧
      ∀ fd, v.srv.log ≠ .accept (.ok fd) :: w.srv.log := by
  rcases srv_cases hs with ⟨hsrv, hl⟩ | ⟨b, rfl, ht⟩
  · refine ⟨fun o ho => ?_, hsrv ▸ hpolls, congrArg Server.sock hsrv, fun fd hlog => ?_⟩
    · obtain ⟨fd, rfl, he⟩ := h o (hsrv ▸ ho)
      exact ⟨fd, rfl, he.client hg hs hl⟩
    · rw [hsrv] at hlog
      exact absurd hlog.symm (List.cons_ne_self _ _)
  · -- what the step does to the clients
    have hkept : (∀ fd, Ended w.peers fd → Ended v.peers fd) → v.srv.sock = w.srv.sock → v.Spent := by
      intro hended hsock o ho
      obtain ⟨fd, rfl, he⟩ := h o (hsock ▸ ho)
      exact ⟨fd, rfl, hended fd he⟩
    have hquiet : v.srv.log = w.srv.log ∨ v.srv.log = .usleep :: w.srv.log → v.peers = w.peers := by
      rintro (hlog | hlog)
      · rcases (server_step hs).2 with ⟨-, hpeers⟩ | ⟨c, hnew, -⟩
        · exact hpeers
        · exact absurd (hnew.symm.trans hlog) (List.cons_ne_self _ _)
      · exact (Option.some.inj (kernel_of_step hs hlog)).symm
    have hrecv : ∀ {i fd : ℕ} {r : Except Errno Bytes}, w.srv.sock[i]? = some (some fd) → v.srv.log = .recv fd r :: w.srv.log →
        r = .ok [] ∧ ∀ fd', Ended w.peers fd' → Ended v.peers fd' := by
      intro i fd r hfd hlog
      obtain ⟨fd', hfd', he⟩ := h _ (List.mem_of_getElem? hfd)
      cases hfd'
      exact he.recv hn (kernel_of_step hs hlog)
    generalize v.srv = t at *
    cases Server.step_cases ht with
    | @free k hpc hk =>
      -- no slot is free
      obtain ⟨hlt, hnone, -⟩ := List.findIdx?_eq_some_iff_getElem.1 hk
      obtain ⟨fd, hfd, -⟩ := h _ (List.getElem_mem hlt)
      rw [hfd] at hnone
      cases hnone
    | full hpc =>
      exact ⟨hkept (fun fd he => hquiet (.inl rfl) ▸ he) rfl, .inr ⟨0, rfl⟩, rfl, by simp⟩
    | @pass i hpc => exact ⟨hkept (fun fd he => hquiet (.inr rfl) ▸ he) rfl, .inl rfl, rfl, by simp⟩
    | @skip i hpc hi =>
      obtain ⟨fd, hfd, -⟩ := h _ (List.mem_of_getElem? hi)
      cases hfd
    | @receivedEnd i fd rx hpc hfd => exact ⟨hkept (hrecv hfd rfl).2 rfl, .inr ⟨i + 1, rfl⟩, rfl, by simp⟩
    | received hpc hfd _ hne => exact absurd (Except.ok.inj (hrecv hfd rfl).1) hne
    | noData hpc hfd | recvFailed hpc hfd => exact absurd (hrecv hfd rfl).1 nofun
    | accepted hpc | noClient hpc | acceptFailed hpc | fcntl hpc | fcntlFailed hpc | sent hpc | sentNone hpc
    | sendFailed hpc | close hpc | error hpc | sweepSkip hpc | sweepClose hpc | sweepEnd hpc =>
      simp [Polls, hpc] at hpolls

/-- **Clients that have closed lock the others out.** Once the loop goes round slots that are all
held by clients that have closed, it does so for ever, as long as none of these resets its
connection: no slot is given back, and nobody who waits then or connects later is accepted. -/
theorem exhausted (h : (machine n L).Run NewSock (machine n L).init ls w) (hpolls : Polls w.srv) (hspent : w.Spent)
    (hrun : (machine n L).Run Silent w ks v) : Polls v.srv ∧ v.srv.sock = w.srv.sock ∧
      ∃ k, pendings v.peers = pendings w.peers ++ List.replicate k true := by
  have hdone : (machine n L).Reach NewSock v ∧ v.Spent ∧ Polls v.srv ∧ v.srv.sock = w.srv.sock ∧
      ∃ k, pendings v.peers = pendings w.peers ++ List.replicate k true := by
    refine hrun.invariant (P := fun v => (machine n L).Reach NewSock v ∧ v.Spent ∧ Polls v.srv ∧ v.srv.sock = w.srv.sock ∧
      ∃ k, pendings v.peers = pendings w.peers ++ List.replicate k true) ?_ ?_
    · exact ⟨⟨ls, h⟩, hspent, hpolls, rfl, 0, (List.append_nil _).symm⟩
    · rintro v l u ⟨hv, hspent, hpolls, hsock, k, hpend⟩ hg hs
      obtain ⟨hspent', hpolls', hsock', hlog⟩ := hspent.step hpolls (fds_nodup hv) hg hs
      refine ⟨hv.step hg.newSock hs, hspent', hpolls', hsock'.trans hsock, ?_⟩
      rw [pendings_step hs hlog, hpend, List.append_assoc]
      split
      · exact ⟨k + 1, by rw [List.replicate_succ']⟩
      · exact ⟨k, by rw [List.append_nil]⟩
  exact hdone.2.2

instance (w : World) : ∀ l, Decidable (w.Silent l)
  | .server l => inferInstanceAs (Decidable (Tcp.NewSock w.srv l))
  | .reset j => inferInstanceAs (Decidable ((w.peers[j]?.bind Peer.fd) = none))
  | .connect | .send _ _ | .close _ => isTrue trivial

/-- The only slot is given to a client that closes. -/
def taken : List WorldLabel :=
  [.connect, .server .tau, .server (.accept (.ok 7)), .server (.fcntl true), .close 0]

/-- A second client comes after the first one has closed. -/
def late : List WorldLabel :=
  [.server (.recv (.ok [])), .server .tau, .connect, .server .tau, .server (.recv (.ok [])), .server .tau]

/-- `exhausted` over `late`, with one slot. -/
theorem exhausted_late : ∃ w v, (machine 1 3).Run NewSock (machine 1 3).init taken w ∧ w.Spent ∧
    (machine 1 3).Run Silent w late v ∧ v.srv.sock = w.srv.sock ∧
    ∃ k, pendings v.peers = pendings w.peers ++ List.replicate k true := by
  have hend : (((machine 1 3).exec NewSock (machine 1 3).init taken).bind fun w =>
      (machine 1 3).exec Silent w late).isSome = true := by decide +kernel
  obtain ⟨v, hv⟩ := Option.isSome_iff_exists.1 hend
  obtain ⟨w, hw, hv⟩ := Option.bind_eq_some_iff.1 hv
  have hrun := Machine.Run.of_exec hw
  have hks := Machine.Run.of_exec hv
  cases hw
  have hspent : Spent ⟨⟨[some 7], 3, Arr.zeros 128, .serve 0, [.fcntl 7 true, .accept (.ok 7)]⟩,
      [⟨.accepted 7, [], true, false, false⟩]⟩ := by
    intro o ho
    exact ⟨7, List.eq_of_mem_singleton ho, 0, _, rfl, rfl, rfl⟩
  exact ⟨_, v, hrun, hspent, hks, (exhausted hrun (.inr ⟨0, rfl⟩) hspent hks).2⟩

end World

end EspNetwork.Tcp
