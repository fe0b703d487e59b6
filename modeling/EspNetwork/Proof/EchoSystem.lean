import EspNetwork.Proof.EchoStreams
import EspNetwork.Proof.RoundRobin
import EspNetwork.Proof.SocketClients
import EspNetwork.Spec.EchoSystem

/-!
# A client against the server, run together

* `Move`: what a step of the server's side does to one connection.
* `Inv.step`: where the bytes of the connection are, after every step of either side.
* `echo_system`: **the server is one that echoes**, as the client takes it to be, and no byte
  is lost or sent twice on the way there and back.
-/

namespace EspNetwork.EchoSystem

open CLib Lts
open SocketClient (payload)
open Tcp (World WorldLabel Peer Turn inStream outStream clientSent)

variable {c : SocketClient.Client} {rx : Arr 128} {n L j fd : ℕ} {w v : World} {p q : Peer} {l : WorldLabel}
  {ws : List WorldLabel}

/-! ## One step of the server's side -/

theorem sentOn_of_log (h : v.srv.log = w.srv.log) (fd : ℕ) : sentOn w v fd = [] := by
  unfold sentOn
  rw [if_pos (by rw [h])]

theorem sentOn_of_call {a : Tcp.Call} (h : v.srv.log = a :: w.srv.log) (fd : ℕ) : sentOn w v fd = sentBy fd a := by
  unfold sentOn
  rw [if_neg (by rw [h, List.length_cons]; omega), h]
  rfl

/-- What has been sent on a descriptor that is not accepted anew. -/
theorem outStream_call {a : Tcp.Call} {log : List Tcp.Call} (ha : a ≠ .accept (.ok fd)) :
    outStream fd (a :: log) = outStream fd log ++ sentBy fd a := by
  have hquiet : Tcp.inert a = true → sentBy fd a = [] → outStream fd (a :: log) = outStream fd log ++ sentBy fd a := by
    intro ha hnil
    rw [Tcp.outStream_inert ha, hnil, List.append_nil]
  cases a with
  | accept r =>
    cases r with
    | ok fd' =>
      have hne : fd' ≠ fd := by
        rintro rfl
        exact ha rfl
      rw [Tcp.outStream_accept_ne hne]
      exact (List.append_nil _).symm
    | error e => exact hquiet rfl rfl
  | send fd' o m r =>
    cases r with
    | ok bs =>
      by_cases hne : fd' = fd
      · subst hne
        rw [Tcp.outStream_send, sentBy, if_pos rfl]
      · rw [Tcp.outStream_send_ne hne, sentBy, if_neg hne, List.append_nil]
    | error e => exact hquiet rfl rfl
  | recv fd' r =>
    rw [Tcp.outStream_recv]
    exact (List.append_nil _).symm
  | fcntl | close | usleep => exact hquiet rfl rfl

/-- One step of the server's side, seen from one connection. -/
inductive Move (w v : World) (p q : Peer) : Prop
  | stays (hc : q.conn = p.conn) (hout : ∀ fd, p.conn = .accepted fd →
      outStream fd v.srv.log = outStream fd w.srv.log ++ sentOn w v fd)
  | accepted {fd : ℕ} (hp : p.conn = .pending) (hq : q.conn = .accepted fd) (hout : outStream fd v.srv.log = [])
  | released (hq : q.conn = .released) (hback : ∀ fd, p.conn = .accepted fd → sentOn w v fd = [])

theorem fd_eq_some (h : p.conn = .accepted fd) : p.fd = some fd := by
  rw [Peer.fd, h]

/-- A step that the server takes no part in. -/
theorem Move.of_srv (hsrv : v.srv = w.srv) (hc : q.conn = p.conn) : Move w v p q := by
  refine .stays hc fun fd _ => ?_
  rw [sentOn_of_log (by rw [hsrv]), hsrv, List.append_nil]

theorem Move.of_turn {a : Tcp.Call} (ht : Turn p q a) (hlog : v.srv.log = a :: w.srv.log)
    (hnew : ∀ fd, a = .accept (.ok fd) → p.fd ≠ some fd) : Move w v p q := by
  have hout : ∀ fd, p.conn = .accepted fd → outStream fd v.srv.log = outStream fd w.srv.log ++ sentOn w v fd := by
    intro fd hp
    rw [sentOn_of_call hlog, hlog]
    exact outStream_call fun ha => hnew fd ha (fd_eq_some hp)
  cases ht with
  | pulled hp hc => exact .stays hc hout
  | kept hc => exact .stays hc hout
  | accepted hp hq =>
    refine .accepted hp hq ?_
    rw [hlog, Tcp.outStream_accept]
  | released hq => exact .released hq fun fd _ => sentOn_of_call hlog fd

/-- **Every connection is still there** after a step, and moved as `Move` says. -/
theorem peer_step (h : (World.machine n L).Run World.Posix (World.machine n L).init ws w) (hg : w.Posix l)
    (hs : w.step l = some v) (hj : w.peers[j]? = some p) : ∃ q, v.peers[j]? = some q ∧ Move w v p q := by
  rcases World.step_cases hs with ⟨rfl, rfl⟩ | ⟨i, f, hf, hc⟩ | ⟨b, rfl⟩
  · refine ⟨p, ?_, .of_srv rfl rfl⟩
    rw [List.getElem?_append_left (List.getElem?_eq_some_iff.1 hj).1]
    exact hj
  · obtain ⟨p', q, hp', hq, rfl⟩ := World.client_cases hc
    by_cases hij : i = j
    · subst hij
      obtain rfl : p = p' := Option.some.inj (hj.symm.trans hp')
      exact ⟨q, List.getElem?_set_self (List.getElem?_eq_some_iff.1 hj).1, .of_srv rfl (hf p q hq).1⟩
    · exact ⟨p, (List.getElem?_set_ne hij).trans hj, .of_srv rfl rfl⟩
  · obtain ⟨ht, ⟨hlog, hpeers⟩ | ⟨a, hlog, hk⟩⟩ := World.server_step hs
    · refine ⟨p, by rw [hpeers]; exact hj, .stays rfl fun fd _ => ?_⟩
      rw [sentOn_of_log hlog, hlog, List.append_nil]
    · have hnew : (World.machine n L).Reach World.NewSock w := ⟨ws, World.newSock_of_run h⟩
      obtain ⟨q, hq⟩ : ∃ q, v.peers[j]? = some q := by
        rw [← Option.isSome_iff_exists, isSome_getElem?, World.kernel_length hk]
        exact (List.getElem?_eq_some_iff.1 hj).1
      obtain ⟨p', hp', hturn⟩ := Tcp.kernel_turn (World.kernel_of_step hs hlog) (World.fds_nodup hnew) hq
      obtain rfl : p = p' := Option.some.inj (hj.symm.trans hp')
      refine ⟨q, hq, .of_turn hturn hlog ?_⟩
      rintro fd rfl hfd
      -- the kernel hands out no open descriptor
      obtain rfl := Tcp.Server.accept_call ht hlog
      exact hg.2 (World.mem_open hnew hj hfd)

/-! ## One call of the client -/

/-- The client has a connection. -/
def connected : SocketClient.Pc → Bool
  | .send _ | .recv _ => true
  | .socket | .opened _ _ | .returned => false

/-- Nothing has been sent before `connect`. -/
def Fresh (s : SocketClient.State) : Prop := ∀ sock checks, s.pc = .opened sock checks → s.sent = [] ∧ s.received = []

/-- One call of the client, seen from its connection. -/
inductive Did (s t : SocketClient.State) : SocketClient.Call → Prop
  | outside {a : SocketClient.Call} (ha : ∀ y : System, y.call a = some y) (hs : connected s.pc = false)
      (ht : connected t.pc = false) (hfresh : Fresh s → Fresh t) : Did s t a
  | connect {sock : ℕ} (hs : s.pc = .opened sock []) (ht : t.pc = .send sock) (hsent : t.sent = s.sent)
      (hreceived : t.received = s.received) : Did s t (.connect true)
  | send {sock k : ℕ} (hs : s.pc = .send sock) (ht : t.pc = .recv sock) (hk : k ≤ payload.length)
      (hsent : t.sent = s.sent ++ payload.take k) (hreceived : t.received = s.received) : Did s t (.send (some k))
  | recv {sock : ℕ} {bs : Bytes} (hs : s.pc = .recv sock) (ht : t.pc = .send sock) (hsent : t.sent = s.sent)
      (hreceived : t.received = s.received ++ bs) : Did s t (.recv (some bs))
  | ended {a : SocketClient.Call} (ha : a = .send none ∨ a = .recv none) (ht : t.pc = .socket ∨ t.pc = .returned) :
    Did s t a

theorem pc_disconnect (s : SocketClient.State) (c : SocketClient.Client) (sock : ℕ) :
    (s.disconnect c sock).pc = .socket ∨ (s.disconnect c sock).pc = .returned := by
  cases hc : c.again <;> simp [SocketClient.State.disconnect, hc]

/-- **There are no other calls.** -/
theorem did_of_step {s t : SocketClient.State} {a : SocketClient.Call} (hs : s.step c a = some t) : Did s t a := by
  cases a with
  | socket r =>
    simp only [SocketClient.State.step] at hs
    split at hs
    · rename_i hpc
      split at hs
      · cases hs
      · cases hs
        exact .outside (fun _ => rfl) (by rw [hpc]; rfl) rfl fun _ _ _ _ => ⟨rfl, rfl⟩
    · rename_i hpc
      cases hs
      exact .outside (fun _ => rfl) (by rw [hpc]; rfl) rfl fun _ _ _ hopened => absurd hopened (by simp)
    · cases hs
  | check ok =>
    simp only [SocketClient.State.step] at hs
    split at hs
    · rename_i hpc
      cases hs
      exact .outside (fun _ => rfl) (by rw [hpc]; rfl) (by cases ok <;> rfl) fun h _ _ _ => h _ _ hpc
    · cases hs
  | connect ok =>
    simp only [SocketClient.State.step] at hs
    split at hs
    · rename_i hpc
      cases hs
      cases ok with
      | true => exact .connect hpc rfl rfl rfl
      | false => exact .outside (fun _ => rfl) (by rw [hpc]; rfl) rfl fun _ _ _ hopened => absurd hopened (by simp)
    · cases hs
  | send r =>
    simp only [SocketClient.State.step] at hs
    split at hs
    · rename_i hpc
      cases r with
      | none =>
        cases hs
        exact .ended (.inl rfl) (pc_disconnect _ _ _)
      | some k =>
        simp only at hs
        split at hs
        · rename_i hk
          cases hs
          exact .send hpc rfl hk rfl rfl
        · cases hs
    · cases hs
  | recv r =>
    simp only [SocketClient.State.step] at hs
    split at hs
    · rename_i sock hpc
      cases r with
      | none =>
        cases hs
        exact .ended (.inr rfl) (pc_disconnect _ _ _)
      | some bs =>
        simp only at hs
        split at hs
        · rename_i hshort
          obtain ⟨rx, hprint⟩ := SocketClient.State.print_eq { s with log := .use sock :: s.log, pc := .send sock } hshort
          rw [hprint] at hs
          cases hs
          exact .recv hpc rfl rfl rfl
        · cases hs
    · cases hs

theorem Fresh.step {s t : SocketClient.State} {a : SocketClient.Call} (h : Fresh s) (hd : Did s t a) : Fresh t := by
  cases hd with
  | outside _ _ _ hfresh => exact hfresh h
  | connect _ ht | send _ ht | recv _ ht =>
    intro sock checks hpc
    rw [ht] at hpc
    cases hpc
  | ended _ ht =>
    intro sock checks hpc
    rcases ht with ht | ht <;> cases hpc.symm.trans ht

/-! ## Where the bytes are -/

/-- What the client has done so far. -/
def calls (ls : List Label) : List SocketClient.Call := ls.filterMap fun
  | .client a => some a
  | _ => none

/-- A connection and its bytes, on the way there and back. -/
structure Link (ws : List WorldLabel) (j : ℕ) (s : System) : Prop where
  sent : clientSent j ws ++ s.up = s.client.sent
  back : s.client.received ++ s.down <+: clientSent j ws
  stage : ∃ p, s.world.peers[j]? = some p ∧ (p.conn = .pending → s.client.received ++ s.down = []) ∧
    ∀ fd, p.conn = .accepted fd → s.client.received ++ s.down = outStream fd s.world.srv.log

structure Inv (c : SocketClient.Client) (rx : Arr 128) (n L : ℕ) (ls : List Label) (s : System) : Prop where
  client : (SocketClient.State.machine c rx).Run SocketClient.State.Echoes (SocketClient.State.machine c rx).init
    (calls ls) s.client
  fresh : Fresh s.client
  world : ∃ ws, (World.machine n L).Run World.Posix (World.machine n L).init ws s.world ∧
    ∀ j, s.conn = some j → Link ws j s
  conn : s.conn.isSome = connected s.client.pc
  waits : ∀ sock, s.client.pc = .recv sock → s.client.received.length < s.client.sent.length

variable {ls : List Label} {s t : System} {m : Label}

theorem Inv.init : Inv c rx n L [] (System.machine c rx n L).init where
  client := .nil
  fresh _ _ := nofun
  world := ⟨[], .nil, fun _ => nofun⟩
  conn := rfl
  waits _ := nofun

theorem Inv.received (hi : Inv c rx n L ls s) (hj : s.conn = some j) : s.client.received ++ s.down <+: s.client.sent := by
  obtain ⟨ws, -, hlink⟩ := hi.world
  obtain ⟨hsent, hback, -⟩ := hlink j hj
  rw [← hsent]
  exact hback.trans (List.prefix_append _ _)

/-- The client's part of a step that is not its own. -/
theorem Inv.other (hi : Inv c rx n L ls s) (hm : calls [m] = []) (hclient : t.client = s.client) (hconn : t.conn = s.conn)
    (hworld : ∃ ws, (World.machine n L).Run World.Posix (World.machine n L).init ws t.world ∧
      ∀ j, t.conn = some j → Link ws j t) : Inv c rx n L (ls ++ [m]) t where
  client := by
    rw [calls, List.filterMap_append, ← calls, ← calls, hm, List.append_nil, hclient]
    exact hi.client
  fresh := by rw [hclient]; exact hi.fresh
  world := hworld
  conn := by rw [hconn, hclient]; exact hi.conn
  waits := by rw [hclient]; exact hi.waits

/-- The bytes that come back have come from the client. -/
theorem outStream_prefix (h : (World.machine n L).Run World.Posix (World.machine n L).init ws w)
    (hj : w.peers[j]? = some p) (hp : p.conn = .accepted fd) : outStream fd w.srv.log <+: clientSent j ws := by
  have hstreams := Tcp.Server.streams_of_reach (World.srv_reach (fun _ _ hg => hg) ⟨ws, h⟩)
  rw [((World.flow_of_run (World.newSock_of_run h)).flow j p hj).accepted fd (fd_eq_some hp)]
  exact (hstreams.back fd).trans (List.prefix_append _ _)

theorem accepted_of_fd (h : p.fd = some fd) : p.conn = .accepted fd := by
  unfold Peer.fd at h
  split at h
  · rename_i fd' hconn
    cases h
    exact hconn
  · cases h

/-- **A step of the world**, in which `data` reaches the server from the client. -/
theorem Link.move {data : Bytes} (h : Link ws j s)
    (hrun : (World.machine n L).Run World.Posix (World.machine n L).init (ws ++ [l]) t.world)
    (hq : t.world.peers[j]? = some q) (hp : s.world.peers[j]? = some p) (hm : Move s.world t.world p q)
    (hsent : clientSent j [l] = data) (hup : s.up = data ++ t.up) (hclient : t.client = s.client)
    (hdown : t.down = s.down ++ p.fd.elim [] (sentOn s.world t.world)) : Link (ws ++ [l]) j t := by
  obtain ⟨hall, hback, p', hp', hpend, hacc⟩ := h
  obtain rfl : p = p' := Option.some.inj (hp.symm.trans hp')
  have hgrow : clientSent j (ws ++ [l]) = clientSent j ws ++ data := by rw [Tcp.clientSent_append, hsent]
  have hnone : p.fd = none → t.client.received ++ t.down = s.client.received ++ s.down := by
    intro hfd
    rw [hdown, hfd, hclient]
    exact congrArg _ (List.append_nil _)
  have hsome : ∀ fd, p.conn = .accepted fd →
      t.client.received ++ t.down = s.client.received ++ s.down ++ sentOn s.world t.world fd := by
    intro fd hfd
    rw [hdown, fd_eq_some hfd, hclient, List.append_assoc]
    rfl
  refine ⟨?_, ?_, q, hq, ?_⟩
  · rw [hgrow, hclient, List.append_assoc, ← hup, hall]
  · cases hfd : p.fd with
    | none =>
      rw [hnone hfd, hgrow]
      exact hback.trans (List.prefix_append _ _)
    | some fd =>
      have hconn := accepted_of_fd hfd
      rw [hsome fd hconn]
      cases hm with
      | stays hc hout =>
        rw [hacc fd hconn, ← hout fd hconn]
        exact outStream_prefix hrun hq (hc.trans hconn)
      | accepted hpend' => rw [hconn] at hpend'; cases hpend'
      | released _ hnil =>
        rw [hnil fd hconn, List.append_nil, hgrow]
        exact hback.trans (List.prefix_append _ _)
  · cases hm with
    | stays hc hout =>
      refine ⟨?_, ?_⟩
      · intro hconn
        have hconn' : p.conn = .pending := hc.symm.trans hconn
        rw [hnone (by rw [Peer.fd, hconn']), hpend hconn']
      · intro fd hconn
        have hconn' : p.conn = .accepted fd := hc.symm.trans hconn
        rw [hsome fd hconn', hacc fd hconn', hout fd hconn']
    | accepted hpend' hq' hout =>
      refine ⟨by simp [hq'], ?_⟩
      intro fd' hconn
      obtain rfl := Tcp.Conn.accepted.inj (hq'.symm.trans hconn)
      rw [hnone (by rw [Peer.fd, hpend']), hpend hpend', hout]
    | released hq' => exact ⟨by simp [hq'], by simp [hq']⟩

theorem calls_client (ls : List Label) (a : SocketClient.Call) : calls (ls ++ [.client a]) = calls ls ++ [a] :=
  List.filterMap_append

/-- A call without a connection, before or after. -/
theorem Inv.unconnected {a : SocketClient.Call} (hi : Inv c rx n L ls s)
    (hclient : (SocketClient.State.machine c rx).Run SocketClient.State.Echoes (SocketClient.State.machine c rx).init
      (calls (ls ++ [.client a])) t.client) (hfresh : Fresh t.client) (hpc : connected t.client.pc = false)
    (hworld : t.world = s.world) (hconn : t.conn = none) : Inv c rx n L (ls ++ [.client a]) t where
  client := hclient
  fresh := hfresh
  world := by
    obtain ⟨ws, hrun, -⟩ := hi.world
    refine ⟨ws, hworld ▸ hrun, fun j hj => ?_⟩
    rw [hconn] at hj
    cases hj
  conn := by rw [hconn, hpc]; rfl
  waits sock hw := by
    rw [hw] at hpc
    cases hpc

section Call

variable {k : SocketClient.State} {sock : ℕ}

/-- The client's part of a run, one call longer. -/
theorem Inv.ran {a : SocketClient.Call} (hi : Inv c rx n L ls s) (he : SocketClient.State.Echoes s.client a)
    (hs : s.client.step c a = some k) : (SocketClient.State.machine c rx).Run SocketClient.State.Echoes
      (SocketClient.State.machine c rx).init (calls (ls ++ [.client a])) k := by
  rw [calls_client]
  exact hi.client.snoc he hs

theorem Inv.connected (hi : Inv c rx n L ls s) (hpc : EchoSystem.connected s.client.pc = true) : ∃ j, s.conn = some j := by
  rw [← Option.isSome_iff_exists, hi.conn, hpc]

/-- **`connect`**: the connection is new, and nothing has been sent on it. -/
theorem Inv.connect {u : System} (hi : Inv c rx n L ls s) (hs : s.client.step c (.connect true) = some k)
    (hu : s.call (.connect true) = some u) (hfresh : Fresh k) (hpc : s.client.pc = .opened sock [])
    (hpc' : k.pc = .send sock) (hsent : k.sent = s.client.sent) (hreceived : k.received = s.client.received) :
    Inv c rx n L (ls ++ [.client (.connect true)]) { u with client := k } := by
  simp only [System.call, World.step, Option.bind_eq_bind, Option.bind_some] at hu
  cases hu
  obtain ⟨hs0, hr0⟩ := hi.fresh sock [] hpc
  obtain ⟨ws, hws, -⟩ := hi.world
  have hnew : clientSent s.world.peers.length (ws ++ [.connect]) = [] := by
    have habsent := (World.flow_of_run (World.newSock_of_run hws)).absent s.world.peers.length (List.getElem?_eq_none le_rfl)
    rw [Tcp.clientSent_append, habsent, Tcp.clientSent_other (by simp), List.append_nil]
  have hposix : s.world.Posix .connect := trivial
  refine ⟨hi.ran trivial hs, hfresh, ⟨ws ++ [.connect], hws.snoc hposix rfl, ?_⟩, by rw [hpc']; rfl, ?_⟩
  · rintro j ⟨⟩
    refine ⟨?_, ?_, _, List.getElem?_concat_length, ?_, by simp⟩
    · rw [hnew, hsent, hs0]
      rfl
    · rw [hreceived, hr0]
      exact List.nil_prefix
    · intro _
      rw [hreceived, hr0]
      rfl
  · intro sock' hw'
    rw [hpc'] at hw'
    cases hw'

/-- **`send`**: what has been taken is on its way. -/
theorem Inv.send {m : ℕ} (hi : Inv c rx n L ls s) (hm : 1 ≤ m) (hs : s.client.step c (.send (some m)) = some k)
    (hfresh : Fresh k) (hpc : s.client.pc = .send sock) (hpc' : k.pc = .recv sock) (hle : m ≤ payload.length)
    (hsent : k.sent = s.client.sent ++ payload.take m) (hreceived : k.received = s.client.received) :
    Inv c rx n L (ls ++ [.client (.send (some m))]) { s with up := s.up ++ payload.take m, client := k } := by
  refine ⟨hi.ran trivial hs, hfresh, ?_, ?_, ?_⟩
  · obtain ⟨ws, hws, hlink⟩ := hi.world
    refine ⟨ws, hws, fun j hj => ?_⟩
    obtain ⟨hall, hback, p, hp, hpend, hacc⟩ := hlink j hj
    refine ⟨?_, ?_, p, hp, ?_, ?_⟩
    · rw [hsent, ← hall, List.append_assoc]
    · rw [hreceived]
      exact hback
    · rw [hreceived]
      exact hpend
    · rw [hreceived]
      exact hacc
  · have hconn := hi.conn
    rw [hpc] at hconn
    rw [hpc']
    exact hconn
  · intro _ _
    obtain ⟨j, hj⟩ := hi.connected (by rw [hpc]; rfl)
    have hback := (hi.received hj).length_le
    rw [List.length_append] at hback
    rw [hreceived, hsent, List.length_append, List.length_take]
    omega

/-- **`recv`**: what has come is taken from the front of what is on its way back. -/
theorem Inv.recv {bs : Bytes} (hi : Inv c rx n L ls s) (hpre : bs <+: s.down)
    (hs : s.client.step c (.recv (some bs)) = some k) (hfresh : Fresh k) (hpc : s.client.pc = .recv sock)
    (hpc' : k.pc = .send sock) (hsent : k.sent = s.client.sent) (hreceived : k.received = s.client.received ++ bs) :
    Inv c rx n L (ls ++ [.client (.recv (some bs))]) { s with down := s.down.drop bs.length, client := k } := by
  obtain ⟨j, hj⟩ := hi.connected (by rw [hpc]; rfl)
  obtain ⟨rest, hrest⟩ := hpre
  have hsame : k.received ++ s.down.drop bs.length = s.client.received ++ s.down := by
    rw [hreceived, ← hrest, List.drop_left, List.append_assoc]
  have hecho : SocketClient.State.Echoes s.client (.recv (some bs)) := by
    refine List.IsPrefix.trans ?_ (hi.received hj)
    rw [← hrest, ← List.append_assoc]
    exact List.prefix_append _ _
  refine ⟨hi.ran hecho hs, hfresh, ?_, ?_, ?_⟩
  · obtain ⟨ws, hws, hlink⟩ := hi.world
    refine ⟨ws, hws, fun j hj => ?_⟩
    obtain ⟨hall, hback, p, hp, hpend, hacc⟩ := hlink j hj
    refine ⟨?_, ?_, p, hp, ?_, ?_⟩
    · rw [hsent]
      exact hall
    · rw [hsame]
      exact hback
    · rw [hsame]
      exact hpend
    · rw [hsame]
      exact hacc
  · have hconn := hi.conn
    rw [hpc] at hconn
    rw [hpc']
    exact hconn
  · intro sock' hw'
    rw [hpc'] at hw'
    cases hw'

/-- Without a connection nothing is received. -/
theorem echoes_outside {a : SocketClient.Call} (ha : ∀ y : System, y.call a = some y) :
    SocketClient.State.Echoes s.client a := by
  cases a with
  | recv r =>
    cases r with
    | some bs =>
      have hnil := ha { s with down := [], conn := none }
      simp [System.call, System.hungUp, System.peer, List.prefix_nil] at hnil
    | none => trivial
  | socket | check | connect | send => trivial

/-- **A call of the client.** -/
theorem Inv.call {a : SocketClient.Call} {u : System} (hi : Inv c rx n L ls s) (hg : s.Posix (.client a))
    (hs : s.client.step c a = some k) (hu : s.call a = some u) :
    Inv c rx n L (ls ++ [.client a]) { u with client := k } := by
  have hd := did_of_step hs
  have hfresh := hi.fresh.step hd
  cases hd with
  | outside ha hpc hpc' =>
    obtain rfl : s = u := Option.some.inj ((ha s).symm.trans hu)
    have hnone : s.conn = none := by
      rw [← Option.not_isSome_iff_eq_none, hi.conn, hpc]
      exact Bool.false_ne_true
    exact hi.unconnected (hi.ran (echoes_outside ha) hs) hfresh hpc' rfl hnone
  | connect hpc hpc' hsent hreceived => exact hi.connect hs hu hfresh hpc hpc' hsent hreceived
  | send hpc hpc' hk hsent hreceived =>
    cases hu
    exact hi.send hg hs hfresh hpc hpc' hk hsent hreceived
  | recv hpc hpc' hsent hreceived =>
    simp only [System.call, Option.ite_none_right_eq_some] at hu
    obtain ⟨⟨hpre, -⟩, hu⟩ := hu
    cases hu
    exact hi.recv hpre hs hfresh hpc hpc' hsent hreceived
  | ended ha hpc' =>
    have hout : EchoSystem.connected k.pc = false := by rcases hpc' with h | h <;> rw [h] <;> rfl
    rcases ha with rfl | rfl <;> cases hu <;> exact hi.unconnected (hi.ran trivial hs) hfresh hout rfl rfl

end Call

theorem answer_eq (hj : s.conn = some j) (hp : s.world.peers[j]? = some p) (v : World) :
    s.answer v = p.fd.elim [] (sentOn s.world v) := by
  unfold System.answer
  have hpeer : s.peer = some p := by rw [System.peer, hj, Option.bind_some, hp]
  rw [hpeer, Option.bind_some]
  cases p.fd <;> rfl

/-- **Every step, of either side.** -/
theorem Inv.step (hi : Inv c rx n L ls s) (hg : s.Posix m) (hs : s.step c m = some t) : Inv c rx n L (ls ++ [m]) t := by
  obtain ⟨ws, hrun, hlink⟩ := hi.world
  cases m with
  | client a =>
    obtain ⟨k, hk, hs⟩ := Option.bind_eq_some_iff.1 hs
    obtain ⟨u, hu, hs⟩ := Option.bind_eq_some_iff.1 hs
    cases hs
    exact hi.call hg hk hu
  | deliver k =>
    obtain ⟨j, hj, hs⟩ := Option.bind_eq_some_iff.1 hs
    simp only [Option.ite_none_right_eq_some] at hs
    obtain ⟨-, hs⟩ := hs
    obtain ⟨w, hw, hs⟩ := Option.bind_eq_some_iff.1 hs
    cases hs
    have hposix : s.world.Posix (.send j (s.up.take k)) := trivial
    have hlink := hlink j hj
    obtain ⟨p, hp, -⟩ := hlink.stage
    obtain ⟨q, hq, hm⟩ := peer_step hrun hposix hw hp
    have hrun' := hrun.snoc hposix hw
    refine hi.other rfl rfl rfl ⟨_, hrun', ?_⟩
    intro j' hj'
    obtain rfl : j = j' := Option.some.inj (hj.symm.trans hj')
    refine hlink.move hrun' hq hp hm (Tcp.clientSent_send j _) (List.take_append_drop k s.up).symm rfl ?_
    -- the server takes no part in it
    have hsrv : w.srv = s.world.srv := by
      rcases World.srv_cases hw with ⟨hsrv, -⟩ | ⟨b, hb, -⟩
      · exact hsrv
      · cases hb
    cases p.fd with
    | none => exact (List.append_nil _).symm
    | some fd => rw [Option.elim_some, sentOn_of_log (by rw [hsrv]), List.append_nil]
  | world l =>
    simp only [System.step] at hs
    split at hs
    · cases hs
    · rename_i hown
      obtain ⟨w, hw, hs⟩ := Option.bind_eq_some_iff.1 hs
      cases hs
      have hrun' := hrun.snoc hg hw
      refine hi.other rfl rfl rfl ⟨_, hrun', ?_⟩
      intro j hj
      have hlink := hlink j hj
      obtain ⟨p, hp, -⟩ := hlink.stage
      obtain ⟨q, hq, hm⟩ := peer_step hrun hg hw hp
      refine hlink.move hrun' hq hp hm (Tcp.clientSent_other ?_) (List.nil_append _).symm rfl ?_
      · rintro data rfl
        exact hown (by simp [System.own, show s.conn = some j from hj])
      · exact congrArg _ (answer_eq (s := s) hj hp w)

theorem inv_of_run (h : (System.machine c rx n L).Run System.Posix (System.machine c rx n L).init ls s) :
    Inv c rx n L ls s := by
  induction h with
  | nil => exact Inv.init
  | snoc _ hg hs ih => exact ih.step hg hs

/-! ## Every run -/

/-- What the server has received on a descriptor and not sent back. -/
def held (srv : Tcp.Server) (fd : ℕ) : Bytes := if srv.busy = some fd then srv.owed else []

/-- **What the server has received** is sent back or still held, unless a call has failed
and the descriptor is closed next. -/
theorem inStream_eq (h : (World.machine n L).Run World.Posix (World.machine n L).init ws w) (hj : w.peers[j]? = some p)
    (hp : p.conn = .accepted fd) (hclosing : w.srv.closing ≠ some fd) :
    inStream fd w.srv.log = outStream fd w.srv.log ++ held w.srv fd := by
  have hstreams := Tcp.Server.streams_of_reach (World.srv_reach (fun _ _ hg => hg) ⟨ws, h⟩)
  unfold held
  split
  · rename_i hbusy
    unfold Tcp.Server.busy at hbusy
    split at hbusy
    · rename_i i len k hpc
      exact (hstreams.owed hpc fd (Option.join_eq_some_iff.1 hbusy)).symm
    · rename_i i hpc
      exact absurd (by rw [Tcp.Server.closing, hpc]; exact hbusy) hclosing
    · cases hbusy
  · rename_i hbusy
    have hopen := World.mem_open ⟨ws, World.newSock_of_run h⟩ hj (fd_eq_some hp)
    rw [List.append_nil, hstreams.kept fd hopen hbusy]

/-- The bytes of the client's connection, at the server's end `p`. -/
structure Placed (s : System) (p : Peer) : Prop where
  /-- what has come back, or is on the way, is a beginning of what was sent -/
  back : s.client.received ++ s.down <+: s.client.sent
  pending (hp : p.conn = .pending) : s.client.received ++ s.down = [] ∧ s.client.sent = p.inbox ++ s.up
  /-- every byte is in one place, in the order of the round trip -/
  accepted {fd : ℕ} (hp : p.conn = .accepted fd) (hclosing : s.world.srv.closing ≠ some fd) :
    s.client.sent = s.client.received ++ s.down ++ held s.world.srv fd ++ p.inbox ++ s.up

theorem Link.placed (h : Link ws j s)
    (hrun : (World.machine n L).Run World.Posix (World.machine n L).init ws s.world) (hp : s.world.peers[j]? = some p) :
    Placed s p := by
  obtain ⟨hsent, hback, p', hp', hpend, hacc⟩ := h
  obtain rfl : p = p' := Option.some.inj (hp.symm.trans hp')
  have hflow := (World.flow_of_run (World.newSock_of_run hrun)).flow j p hp
  refine ⟨?_, ?_, ?_⟩
  · rw [← hsent]
    exact hback.trans (List.prefix_append _ _)
  · intro hconn
    exact ⟨hpend hconn, by rw [← hsent, hflow.pending hconn]⟩
  · intro fd hconn hclosing
    rw [← hsent, hflow.accepted fd (fd_eq_some hconn), inStream_eq hrun hp hconn hclosing, hacc fd hconn]

/-- **The client against the server.** In every run of the two, with any other clients, the
client sees a server that echoes; while it is connected every byte that it has sent is in
one place on the round trip; and where it waits in `recv` not all of them have come back. -/
theorem echo_system (h : (System.machine c rx n L).Run System.Posix (System.machine c rx n L).init ls s) :
    (SocketClient.State.machine c rx).Run SocketClient.State.Echoes (SocketClient.State.machine c rx).init
      (calls ls) s.client ∧
    (connected s.client.pc = true → ∃ p, s.peer = some p ∧ Placed s p) ∧
    ∀ sock, s.client.pc = .recv sock → s.client.received.length < s.client.sent.length := by
  have hi := inv_of_run h
  refine ⟨hi.client, ?_, hi.waits⟩
  intro hpc
  obtain ⟨j, hj⟩ := Option.isSome_iff_exists.1 (hi.conn.trans hpc)
  obtain ⟨ws, hrun, hlink⟩ := hi.world
  obtain ⟨p, hp, -⟩ := (hlink j hj).stage
  exact ⟨p, by rw [System.peer, hj, Option.bind_some, hp], (hlink j hj).placed hrun hp⟩

instance (s : System) : ∀ m, Decidable (s.Posix m)
  | .client (.send (some k)) => inferInstanceAs (Decidable (1 ≤ k))
  | .client (.send none) | .client (.recv _) | .client (.socket _) | .client (.check _) | .client (.connect _)
  | .deliver _ => isTrue trivial
  | .world l => inferInstanceAs (Decidable (s.world.Posix l))

/-- A payload on its way: some of it not delivered, some unread, some to be sent back. -/
def halfway : List Label :=
  [.client (.socket (some 4)), .client (.connect true), .world (.server .tau), .world (.server (.accept (.ok 7))),
    .world (.server (.fcntl true)), .client (.send (some 19)), .deliver 10,
    .world (.server (.recv (.ok (bytes "Message ")))), .world (.server (.send (.ok 3)))]

/-- `tcp_client.c` against a server with two slots. -/
def twoSlots : Machine System Label := System.machine SocketClient.tcpClientTask (Arr.zeros 128) 2 3

/-- `echo_system` at the end of `halfway`. -/
theorem echo_system_halfway : ∃ (s : System) (p : Peer), twoSlots.Run System.Posix twoSlots.init halfway s ∧
    s.peer = some p ∧ s.client.pc = .recv 4 ∧ s.down = bytes "Mes" ∧ held s.world.srv 7 = bytes "sage " ∧
    p.inbox = bytes "fr" ∧ s.up = bytes "om ESP32 " ∧
    s.client.sent = s.client.received ++ s.down ++ held s.world.srv 7 ++ p.inbox ++ s.up := by
  have hrun : (twoSlots.exec System.Posix twoSlots.init halfway).map (fun s =>
        s.client.pc == .recv 4 && s.down == bytes "Mes" && held s.world.srv 7 == bytes "sage " &&
          s.peer.any (fun p => p.conn == .accepted 7 && p.inbox == bytes "fr") && s.up == bytes "om ESP32 " &&
          s.world.srv.closing == none) = some true := by
    decide +kernel
  obtain ⟨s, hs, hp⟩ := Option.map_eq_some_iff.1 hrun
  simp only [Bool.and_eq_true, beq_iff_eq, Option.any_eq_true] at hp
  obtain ⟨⟨⟨⟨⟨hpc, hdown⟩, hheld⟩, p, hpeer, hconn, hinbox⟩, hup⟩, hclosing⟩ := hp
  have hhalf := Machine.Run.of_exec hs
  obtain ⟨-, hplaced, -⟩ := echo_system hhalf
  obtain ⟨p', hp', hplaced⟩ := hplaced (by rw [hpc]; rfl)
  obtain rfl : p = p' := Option.some.inj (hpeer.symm.trans hp')
  exact ⟨s, p, hhalf, hpeer, hpc, hdown, hheld, hinbox, hup, hplaced.accepted hconn (by rw [hclosing]; nofun)⟩

end EspNetwork.EchoSystem
