import EspNetwork.Spec.BacnetLink

/-!
# Socket and address follow the link

The handlers of link events, each run to its end, over every sequence of events and for
both variants of `network_init`.

* `socket_follows_link`: `CONNECTED_BIT` is set iff the published socket is open, at most
  one socket is open, every other one `bip_init` opened has been closed once, and
  `bip_cleanup` closes nothing else.
* `published_first_lease`: the published address is that of the first address event since
  the link was lost last; `lease_renewed`: a later one is not published.
* `Tied.refines`: a handler run to its end is a run of the interleaved calls.
-/

namespace EspNetwork.Bacnet

open Lts Handle

variable {net : Net} {boot : BipAddr} {s t : Link} {e : LinkEvent} {es : List LinkEvent}

/-- Both variants do the same about the socket. -/
theorem Link.step_eq (net : Net) (s : Link) (e : LinkEvent) :
    s.step net e = some (match e.event with
      | .disconnected => s.disconnected
      | .gotIp => s.gotIp e.ipInfo e.sock
      | _ => s) := by
  obtain ⟨event, ip, sock⟩ := e
  cases net <;> cases event <;> rfl

/-! ## The socket -/

/-- If the handler calls `socket`, it succeeds with a descriptor that is not open. -/
def Link.FreshSocket (s : Link) (e : LinkEvent) : Prop :=
  e.event = .gotIp → s.connected = false → 0 ≤ e.sock ∧ e.sock ∉ live s.sockets

instance (s : Link) (e : LinkEvent) : Decidable (s.FreshSocket e) := inferInstanceAs (Decidable (_ → _ → _))

/-- The bit, the published socket and the open ones. -/
structure Tied (s : Link) : Prop where
  proper : Proper s.sockets
  up : s.connected = true → 0 ≤ s.bipSocket ∧ live s.sockets = [s.bipSocket]
  down : s.connected = false → s.bipSocket = -1 ∧ live s.sockets = []

theorem Tied.init : Tied (Link.machine net boot).init := ⟨trivial, nofun, fun _ => ⟨rfl, rfl⟩⟩

theorem Link.startBACnet_sockets (ip : IpInfo) {sock : ℤ} (h : sock ≠ -1) :
    (s.startBACnet ip sock).sockets = .acquire sock :: s.sockets :=
  if_neg h

/-- A lease opens one socket, unless one is open. -/
theorem Tied.gotIp (hi : Tied s) (ip : IpInfo) {sock : ℤ}
    (hf : s.connected = false → 0 ≤ sock ∧ sock ∉ live s.sockets) : Tied (s.gotIp ip sock) := by
  unfold Link.gotIp
  split
  · rename_i hc
    have hc : s.connected = false := Bool.eq_false_iff.2 hc
    obtain ⟨h0, hfresh⟩ := hf hc
    have hne : sock ≠ -1 := by omega
    have hlog := Link.startBACnet_sockets (s := { s with connected := true }) ip hne
    refine ⟨?_, fun _ => ⟨h0, ?_⟩, nofun⟩
    · rw [hlog]
      exact ⟨hi.proper, hfresh⟩
    · rw [hlog, live, (hi.down hc).2]
      rfl
  · exact hi

/-- A lost link closes it. -/
theorem Tied.disconnected (hi : Tied s) : Tied s.disconnected := by
  cases hc : s.connected with
  | true =>
    obtain ⟨h0, hlive⟩ := hi.up hc
    have hne : s.bipSocket ≠ -1 := by omega
    have hlog : s.disconnected.sockets = .release s.bipSocket :: s.sockets := if_neg hne
    refine ⟨?_, nofun, fun _ => ⟨rfl, ?_⟩⟩
    · rw [hlog]
      exact ⟨hi.proper, by simp [hlive]⟩
    · rw [hlog, live, hlive]
      simp
  | false =>
    -- `close(-1)`
    obtain ⟨hb, hlive⟩ := hi.down hc
    have hlog : s.disconnected.sockets = s.sockets := if_pos hb
    refine ⟨?_, nofun, fun _ => ⟨rfl, ?_⟩⟩
    · rw [hlog]
      exact hi.proper
    · rw [hlog, hlive]

/-- **Every event** keeps the socket tied to the bit. -/
theorem Tied.step (hi : Tied s) (hf : s.FreshSocket e) (h : s.step net e = some t) : Tied t := by
  rw [Link.step_eq, Option.some.injEq] at h
  subst h
  split
  · exact hi.disconnected
  · rename_i he
    exact hi.gotIp _ (hf he)
  · exact hi

/-- And so does every run. -/
theorem tied_of_reach (h : (Link.machine net boot).Reach Link.FreshSocket s) : Tied s :=
  h.invariant Tied.init fun _ _ _ hi hf hs => hi.step hf hs

/-- **The BIP socket follows the link.** The bit is set iff the published socket is open,
and at most one is; what `bip_init` opened has been closed once, except the open one; and
only open sockets of `bip_init` are closed. -/
theorem socket_follows_link (h : (Link.machine net boot).Reach Link.FreshSocket s) :
    (s.connected = true ↔ s.bipSocket ∈ live s.sockets) ∧ (live s.sockets).length ≤ 1 ∧
    (∀ fd, s.sockets.count (.acquire fd) = s.sockets.count (.release fd) + (live s.sockets).count fd) ∧
    Proper s.sockets := by
  have hi := tied_of_reach h
  refine ⟨?_, ?_, fun fd => count_acquire fd hi.proper, hi.proper⟩
  · cases hc : s.connected with
    | true => simp [(hi.up hc).2]
    | false => simp [(hi.down hc).2]
  · cases hc : s.connected with
    | true => simp [(hi.up hc).2]
    | false => simp [(hi.down hc).2]

/-- A connection renewed once, lost with a second try at the access point, and back on
the same descriptor. -/
theorem socket_after_reconnect : ∃ s, (Link.machine .wifi ⟨0, 0, 0⟩).Reach Link.FreshSocket s ∧
    s.sockets = [.acquire 54, .release 54, .acquire 54] ∧ (s.connected = true ↔ s.bipSocket ∈ live s.sockets) := by
  have hrun : ((Link.machine .wifi ⟨0, 0, 0⟩).exec Link.FreshSocket (Link.machine .wifi ⟨0, 0, 0⟩).init
      ([.start, .gotIp, .gotIp, .disconnected, .disconnected, .gotIp].map fun e => ⟨e, ⟨1, 2⟩, 54⟩)).map
      (fun s => decide (s.sockets = [.acquire 54, .release 54, .acquire 54])) = some true := by decide +kernel
  obtain ⟨s, hs, hp⟩ := Machine.Reach.of_exec hrun
  exact ⟨s, hs, of_decide_eq_true hp, (socket_follows_link hs).1⟩

/-! ## The address -/

/-- The first address event since the link was lost last. -/
def firstLease (es : List LinkEvent) : Option LinkEvent :=
  (es.rtakeWhile fun e => e.event ≠ .disconnected).find? fun e => e.event = .gotIp

theorem firstLease_disconnected (h : e.event = .disconnected) : firstLease (es ++ [e]) = none := by
  rw [firstLease, List.rtakeWhile_concat_neg _ _ _ (by simp [h]), List.find?_nil]

theorem firstLease_gotIp (h : e.event = .gotIp) : firstLease (es ++ [e]) = some ((firstLease es).getD e) := by
  rw [firstLease, List.rtakeWhile_concat_pos _ _ _ (by simp [h]), List.find?_append, List.find?_singleton,
    if_pos (by simp [h])]
  unfold firstLease
  cases List.find? _ _ <;> rfl

theorem firstLease_other (hd : e.event ≠ .disconnected) (hg : e.event ≠ .gotIp) :
    firstLease (es ++ [e]) = firstLease es := by
  rw [firstLease, List.rtakeWhile_concat_pos _ _ _ (by simp [hd]), List.find?_append, List.find?_singleton, if_neg (by simp [hg]),
    Option.or_none]
  rfl

/-- What is published after the events `es`. -/
structure Leased (es : List LinkEvent) (s : Link) : Prop where
  connected : s.connected = (firstLease es).isSome
  bipAddr : ∀ f, firstLease es = some f → s.bipAddr = bipAddrOf f.ipInfo

/-- **Every event** keeps the first lease published. -/
theorem Leased.step (hi : Leased es s) (h : s.step net e = some t) : Leased (es ++ [e]) t := by
  rw [Link.step_eq, Option.some.injEq] at h
  subst h
  split
  · rename_i he
    have hnone : firstLease (es ++ [e]) = none := firstLease_disconnected he
    exact ⟨by rw [hnone]; rfl, fun f hf => absurd (hnone.symm.trans hf) nofun⟩
  · rename_i he
    have hfirst : firstLease (es ++ [e]) = some ((firstLease es).getD e) := firstLease_gotIp he
    unfold Link.gotIp
    split
    · rename_i hc
      -- the first address of the connection
      have hnone : firstLease es = none := by
        rw [hi.connected] at hc
        simpa using hc
      rw [hnone] at hfirst
      refine ⟨by rw [hfirst]; rfl, fun f hf => ?_⟩
      obtain rfl : e = f := Option.some.inj (hfirst.symm.trans hf)
      rfl
    · rename_i hc
      have hc : s.connected = true := of_not_not hc
      obtain ⟨g, hg⟩ := Option.isSome_iff_exists.1 (hi.connected.symm.trans hc)
      rw [hg] at hfirst
      refine ⟨by rw [hfirst]; exact hc, fun f hf => ?_⟩
      obtain rfl : g = f := Option.some.inj (hfirst.symm.trans hf)
      exact hi.bipAddr g hg
  · rename_i hd hg
    have hsame : firstLease (es ++ [e]) = firstLease es := firstLease_other hd hg
    exact ⟨by rw [hsame]; exact hi.connected, by rw [hsame]; exact hi.bipAddr⟩

/-- And so does every run. -/
theorem leased_of_run (h : (Link.machine net boot).Run anyStep (Link.machine net boot).init es s) : Leased es s := by
  induction h with
  | nil => exact ⟨rfl, nofun⟩
  | snoc _ _ hs ih => exact ih.step hs

/-- **The published address is that of the first lease of a connection.** After an address
event it is that of the first such event since the link was lost last, this one included. -/
theorem published_first_lease (he : e.event = .gotIp)
    (h : (Link.machine net boot).Run anyStep (Link.machine net boot).init (es ++ [e]) s) :
    ∃ f, firstLease (es ++ [e]) = some f ∧ s.bipAddr.addr = f.ipInfo.addr ∧
      s.bipAddr.broadcast = (f.ipInfo.addr &&& f.ipInfo.netmask) ||| ~~~f.ipInfo.netmask := by
  have hi := leased_of_run h
  have hfirst : firstLease (es ++ [e]) = some ((firstLease es).getD e) := firstLease_gotIp he
  have haddr := hi.bipAddr _ hfirst
  exact ⟨_, hfirst, by rw [haddr]; rfl, by rw [haddr]; rfl⟩

/-- 192.168.1.2 and 192.168.1.3, as words in network byte order. -/
def leases : List LinkEvent := [⟨.gotIp, ⟨0x0201A8C0, 0x00FFFFFF⟩, 54⟩, ⟨.gotIp, ⟨0x0301A8C0, 0x00FFFFFF⟩, 54⟩]

/-- A new address after a lost link is published. -/
theorem lease_after_reconnect : ∃ s,
    (Link.machine .eth ⟨0, 0, 0⟩).Run anyStep (Link.machine .eth ⟨0, 0, 0⟩).init
      (leases ++ [⟨.disconnected, ⟨0, 0⟩, 0⟩] ++ [⟨.gotIp, ⟨0x0301A8C0, 0x00FFFFFF⟩, 54⟩]) s ∧
    s.bipAddr.addr = 0x0301A8C0 ∧ s.bipAddr.broadcast = 0xFF01A8C0 := by
  have hrun : (Link.machine .eth ⟨0, 0, 0⟩).Run anyStep (Link.machine .eth ⟨0, 0, 0⟩).init
      (leases ++ [⟨.disconnected, ⟨0, 0⟩, 0⟩] ++ [⟨.gotIp, ⟨0x0301A8C0, 0x00FFFFFF⟩, 54⟩]) _ := Machine.Run.of_exec rfl
  obtain ⟨f, hf, haddr, hbroadcast⟩ := published_first_lease rfl hrun
  have hf' : f = ⟨.gotIp, ⟨0x0301A8C0, 0x00FFFFFF⟩, 54⟩ := Option.some.inj (hf.symm.trans (by decide))
  subst hf'
  exact ⟨_, hrun, haddr, hbroadcast⟩

/-- A new address without a lost link is not, in either variant. -/
theorem lease_renewed :
    (∃ s, (Link.machine .wifi ⟨0, 0, 0⟩).Run anyStep (Link.machine .wifi ⟨0, 0, 0⟩).init leases s ∧
      s.bipAddr.addr ≠ 0x0301A8C0) ∧
    (∃ s, (Link.machine .eth ⟨0, 0, 0⟩).Run anyStep (Link.machine .eth ⟨0, 0, 0⟩).init leases s ∧
      s.bipAddr.addr ≠ 0x0301A8C0) :=
  ⟨⟨_, Machine.Run.of_exec rfl, by decide⟩, ⟨_, Machine.Run.of_exec rfl, by decide⟩⟩

/-! ## The interleaved calls -/

/-- The event loop is between two handlers, and both models have the same bit and sockets. -/
structure Agrees (u : State) (s : Link) : Prop where
  todo : u.todo = []
  connected : u.connected = s.connected
  bipSocket : u.bipSocket = s.bipSocket
  openSockets : u.openSockets = live s.sockets

/-- The event loop takes an event and makes `n` calls. -/
theorem run_event {u v : State} {ret : ℤ} {n : ℕ} (hpc : u.pc ≠ .deviceInit ∧ u.pc ≠ .networkInit) (htodo : u.todo = [])
    (h : (State.machine net).Run anyStep { u with todo := eventHandler net e.event } (List.replicate n (.handler ret)) v) :
    (State.machine net).Run anyStep u (.event e.event :: List.replicate n (.handler ret)) v :=
  .cons trivial (if_pos ⟨hpc.1, hpc.2, htodo⟩) h

/-- The handler of any other event makes at most one call, to the driver. -/
theorem quiet_eventHandler (net : Net) {e : Event} (hd : e ≠ .disconnected) (hg : e ≠ .gotIp) :
    eventHandler net e = [] ∨ ∃ c, eventHandler net e = [c] ∧ ∀ (u : State) ret, u.call ret c = some u := by
  cases net with
  | wifi =>
    cases e with
    | start => exact .inr ⟨_, rfl, fun _ _ => rfl⟩
    | connected | stop | other => exact .inl rfl
    | disconnected => exact absurd rfl hd
    | gotIp => exact absurd rfl hg
  | eth =>
    cases e with
    | connected => exact .inr ⟨_, rfl, fun _ _ => rfl⟩
    | start | stop | other => exact .inl rfl
    | disconnected => exact absurd rfl hd
    | gotIp => exact absurd rfl hg

/-- **A handler run to its end.** It is a run of the interleaved calls in which
`BACnetTask` makes none. -/
theorem Tied.refines {u : State} (hi : Tied s) (hu : Agrees u s) (hpc : u.pc ≠ .deviceInit ∧ u.pc ≠ .networkInit)
    (hf : s.FreshSocket e) (h : s.step net e = some t) :
    ∃ n v, (State.machine net).Run anyStep u (.event e.event :: List.replicate n (.handler e.sock)) v ∧ Agrees v t := by
  rw [Link.step_eq, Option.some.injEq] at h
  subst h
  obtain ⟨todo, connected, cleared, registered, sock, bipSocket, openSockets, pc⟩ := u
  obtain ⟨rfl, rfl, rfl, rfl⟩ := hu
  split
  · rename_i he
    -- both variants clear the bit, close and forget the socket
    have hopen : live s.disconnected.sockets = (live s.sockets).filter fun fd => fd ≠ s.bipSocket := by
      cases hc : s.connected with
      | true =>
        obtain ⟨h0, hlive⟩ := hi.up hc
        have hnil := (hi.disconnected.down rfl).2
        rw [hnil, hlive]
        simp
      | false =>
        have hnil := (hi.disconnected.down rfl).2
        rw [hnil, (hi.down hc).2]
        rfl
    cases net with
    | wifi => exact ⟨4, _, run_event hpc rfl (by rw [he]; exact .of_exec rfl), rfl, rfl, rfl, hopen.symm⟩
    | eth => exact ⟨3, _, run_event hpc rfl (by rw [he]; exact .of_exec rfl), rfl, rfl, rfl, hopen.symm⟩
  · rename_i he
    unfold Link.gotIp
    split
    · rename_i hc
      have hc : s.connected = false := Bool.eq_false_iff.2 hc
      obtain ⟨h0, hfresh⟩ := hf he hc
      have hne : e.sock ≠ -1 := by omega
      -- the bit and the handlers; `socket`; from `bind` to `Send_I_Am`
      let u : State := ⟨.socket :: [.bind, .setsockopt, .setsockopt, .bipSetSocket, .sendIAm], true, cleared,
        services.reverse ++ registered, sock, s.bipSocket, live s.sockets, pc⟩
      let v : State := { u with todo := u.todo.tail, sock := e.sock, openSockets := e.sock :: live s.sockets }
      have hbegin : (State.machine net).Run anyStep ⟨eventHandler net .gotIp, false, cleared, registered, sock, s.bipSocket,
          live s.sockets, pc⟩ (List.replicate 10 (.handler e.sock)) u := by
        cases net <;> exact .of_exec rfl
      have hopen : (State.machine net).step u (.handler e.sock) = some v :=
        (if_neg hne).trans (if_pos ⟨h0, hfresh⟩)
      have hend : (State.machine net).Run anyStep v (List.replicate 5 (.handler e.sock))
          { v with todo := [], bipSocket := e.sock } := .of_exec rfl
      have hrun := hbegin.append (.cons trivial hopen hend)
      refine ⟨16, _, run_event hpc rfl (by rw [he, hc]; exact hrun), rfl, rfl, rfl, ?_⟩
      exact (congrArg live (Link.startBACnet_sockets (s := s) e.ipInfo hne)).symm
    · rename_i hc
      have hc : s.connected = true := of_not_not hc
      refine ⟨1, _, run_event hpc rfl (by rw [he, hc]; exact .of_exec rfl), rfl, hc.symm, rfl, rfl⟩
  · rename_i hd hg
    rcases quiet_eventHandler net hd hg with hq | ⟨c, hq, hcall⟩
    · exact ⟨0, _, run_event hpc rfl (by rw [hq]; exact .nil), rfl, rfl, rfl, rfl⟩
    · refine ⟨1, _, run_event hpc rfl (by rw [hq]; exact .single trivial (hcall _ _)), rfl, rfl, rfl, rfl⟩

end EspNetwork.Bacnet
