import EspNetwork.Spec.BacnetServer

/-!
# The socket under BACnetTask

`CONNECTED_BIT` is set before the socket is opened, and tested once for the three calls
that use the socket.

* `Stage`: where the event loop is between two calls; every call keeps it (`Stage.handler`).
* `Stage.live_iff`: the socket is usable from its publication to its `close`, if
  `socket` succeeded.
* `live_calls_iff`: **a run handles BACnet traffic on a live socket only** iff none of its
  calls falls outside that time.
-/

namespace EspNetwork.Bacnet

open Lts

variable {net : Net} {s t : State} {ret : ℤ} {pduLen : UInt16} {c : Call} {p : List Call}

/-- The socket published by `bip_set_socket` is open, and the handlers are registered. -/
def State.Live (s : State) : Prop :=
  (0 ≤ s.bipSocket ∧ s.bipSocket ∈ s.openSockets) ∧ ∀ x ∈ services, x ∈ s.registered

instance (s : State) : Decidable s.Live := inferInstanceAs (Decidable (_ ∧ _))

/-- `socket` succeeded, and either the bit is set and `StartBACnet` is past its
`bip_set_socket`, or a set bit has just been cleared and `bip_cleanup` has not begun. -/
def State.Settled (s : State) : Prop :=
  0 ≤ s.sock ∧ ((s.connected = true ∧ .bipSetSocket ∉ s.todo) ∨ (s.cleared = true ∧ s.todo = bipCleanup))

instance (s : State) : Decidable s.Settled := inferInstanceAs (Decidable (_ ∧ _))

/-- `datalink_receive`, `npdu_handler` and `handler_cov_task`. -/
def Pc.handles : Pc → Bool
  | .datalinkReceive | .npduHandler | .handlerCovTask => true
  | _ => false

/-- If the step is one of these calls, it meets `P`. -/
def State.OnCalls (P : State → Prop) (s : State) : Action → Prop
  | .task _ => s.pc.handles = true → P s
  | _ => True

/-! ## The stages of the event loop -/

/-- What is left of a handler that has not changed anything yet. -/
inductive Untouched : List Call → Prop
  | done : Untouched []
  | wifiConnect : Untouched [.espWifiConnect]
  | ethIoctl : Untouched [.espEthIoctl]
  | gotIp : Untouched [.getBits]
  | disconnected : Untouched (.clearBits :: bipCleanup)
  | wifiDisconnected : Untouched (.espWifiConnect :: .clearBits :: bipCleanup)

theorem untouched_eventHandler (net : Net) (e : Event) : Untouched (eventHandler net e) := by
  cases net <;> cases e <;> constructor

/-- `StartBACnet` up to the publication of the socket. -/
def preparation : List Call :=
  services.map Call.apduSetHandler ++ [.addressInit, .getIpInfo, .socket, .bind, .setsockopt, .setsockopt]

theorem startBACnet_eq : startBACnet = preparation ++ [.bipSetSocket, .sendIAm] := rfl

/-- `socket` has failed or given an open descriptor. -/
def State.SockOk (s : State) : Prop := 0 ≤ s.sock → s.sock ∈ s.openSockets

/-- After `bip_set_socket(sock)`. -/
structure State.Published (s : State) : Prop where
  sock : s.bipSocket = s.sock
  isOpen : s.SockOk
  registered : ∀ x ∈ services, x ∈ s.registered

/-- Only the socket and the table of handlers matter. -/
theorem State.Published.congr {todo : List Call} {connected cleared : Bool} {pc : Pc} (h : s.Published) :
    State.Published { s with todo, connected, cleared, pc } :=
  ⟨h.sock, h.isOpen, h.registered⟩

/-- Where the event loop is. -/
inductive Stage (s : State) : Prop
  | down (hc : s.connected = false) (hb : s.bipSocket = -1)
      (ht : Untouched s.todo ∨ s.todo = .setBits :: startBACnet ∨ (s.todo = bipCleanup ∧ s.cleared = false))
  | starting (hc : s.connected = true) (hb : s.bipSocket = -1) (p : List Call)
      (ht : s.todo = p ++ [.bipSetSocket, .sendIAm]) (hp : p <:+ preparation)
      (hreg : ∀ x ∈ services, .apduSetHandler x ∈ p ∨ x ∈ s.registered) (hsock : .socket ∈ p ∨ s.SockOk)
  | up (hc : s.connected = true) (hpub : s.Published) (ht : Untouched s.todo ∨ s.todo = [.sendIAm])
  | closing (hc : s.connected = false) (hpub : s.Published) (hcl : s.cleared = true) (ht : s.todo = bipCleanup)
  | closed (hc : s.connected = false) (ht : s.todo = [.bipUnsetSocket]) (hb : s.bipSocket ∉ s.openSockets)

theorem Stage.init : Stage (State.machine net).init := .down rfl rfl (.inl .done)

/-! ## Live in which stages -/

theorem Untouched.not_setSocket {todo : List Call} (h : Untouched todo) : .bipSetSocket ∉ todo := by
  cases h <;> decide

theorem Untouched.ne_cleanup {todo : List Call} (h : Untouched todo) : todo ≠ bipCleanup := by
  cases h <;> decide

theorem State.Published.live_iff (h : s.Published) : s.Live ↔ 0 ≤ s.sock := by
  unfold State.Live
  rw [h.sock]
  exact ⟨fun hl => hl.1.1, fun h0 => ⟨⟨h0, h.isOpen h0⟩, h.registered⟩⟩

/-- **The stages in which the socket is live.** -/
theorem Stage.live_iff (h : Stage s) : s.Live ↔ s.Settled := by
  cases h with
  | down hc hb ht =>
    refine iff_of_false (fun hl => ?_) ?_
    · have h0 := hl.1.1
      omega
    · rintro ⟨-, ⟨hc', -⟩ | ⟨hcl, ht'⟩⟩
      · exact absurd (hc.symm.trans hc') nofun
      · rcases ht with ht | ht | ⟨-, hcl'⟩
        · exact ht.ne_cleanup ht'
        · exact absurd (ht.symm.trans ht') (by decide)
        · exact absurd (hcl'.symm.trans hcl) nofun
  | starting hc hb p ht hp hreg hsock =>
    refine iff_of_false (fun hl => ?_) ?_
    · have h0 := hl.1.1
      omega
    · rintro ⟨-, ⟨-, hset⟩ | ⟨-, ht'⟩⟩
      · exact hset (by simp [ht])
      · have hmem : Call.sendIAm ∈ bipCleanup := by simp [← ht', ht]
        exact absurd hmem (by decide)
  | up hc hpub ht =>
    rw [hpub.live_iff]
    have hset : .bipSetSocket ∉ s.todo := by
      rcases ht with ht | ht
      · exact ht.not_setSocket
      · simp [ht]
    exact ⟨fun h0 => ⟨h0, .inl ⟨hc, hset⟩⟩, fun hs => hs.1⟩
  | closing hc hpub hcl ht =>
    rw [hpub.live_iff]
    exact ⟨fun h0 => ⟨h0, .inr ⟨hcl, ht⟩⟩, fun hs => hs.1⟩
  | closed hc ht hb =>
    refine iff_of_false (fun hl => hb hl.1.2) ?_
    rintro ⟨-, ⟨hc', -⟩ | ⟨-, ht'⟩⟩
    · exact absurd (hc.symm.trans hc') nofun
    · exact absurd (ht.symm.trans ht') (by decide)

/-! ## One call of a handler -/

/-- A call of `StartBACnet` before the publication. -/
theorem Stage.prepare (hc : s.connected = true) (hb : s.bipSocket = -1) (hp : c :: p <:+ preparation)
    (hreg : ∀ x ∈ services, .apduSetHandler x ∈ c :: p ∨ x ∈ s.registered) (hsock : .socket ∈ c :: p ∨ s.SockOk)
    (ht : s.todo = p ++ [.bipSetSocket, .sendIAm]) (h : s.call ret c = some t) : Stage t := by
  have hp' : p <:+ preparation := (List.suffix_cons c p).trans hp
  have hmem : c ∈ preparation := hp.subset (List.mem_cons_self ..)
  -- a call that neither registers a handler nor opens the socket
  have hquiet : (∀ x, c ≠ .apduSetHandler x) → c ≠ .socket → Stage s := fun h1 h2 => by
    refine .starting hc hb p ht hp' (fun x hx => (hreg x hx).imp_left fun hm => ?_) (hsock.imp_left fun hm => ?_)
    · exact (List.mem_cons.1 hm).resolve_left fun e => h1 x e.symm
    · exact (List.mem_cons.1 hm).resolve_left fun e => h2 e.symm
  cases c with
  | apduSetHandler x =>
    simp only [State.call, Option.some.injEq] at h
    subst h
    refine .starting hc hb p ht hp' (fun y hy => ?_) (hsock.imp_left fun hm => ?_)
    · rcases hreg y hy with hm | hm
      · rcases List.mem_cons.1 hm with e | hm
        · exact .inr (by simp [Call.apduSetHandler.inj e])
        · exact .inl hm
      · exact .inr (List.mem_cons_of_mem _ hm)
    · exact (List.mem_cons.1 hm).resolve_left nofun
  | socket =>
    have hreg' : ∀ x ∈ services, .apduSetHandler x ∈ p ∨ x ∈ s.registered := by
      intro x hx
      simpa using hreg x hx
    simp only [State.call] at h
    split at h
    · simp only [Option.some.injEq] at h
      subst h
      refine .starting hc hb p ht hp' hreg' (.inr fun h0 => ?_)
      exact absurd h0 (by decide : ¬ (0 : ℤ) ≤ -1)
    · split at h
      · simp only [Option.some.injEq] at h
        subst h
        exact .starting hc hb p ht hp' hreg' (.inr fun _ => List.mem_cons_self ..)
      · cases h
  | addressInit | getIpInfo | bind | setsockopt =>
    simp only [State.call, Option.some.injEq] at h
    subst h
    exact hquiet nofun nofun
  | espWifiConnect | espEthIoctl | getBits | setBits | clearBits | bipSetSocket | sendIAm | close | bipUnsetSocket =>
    exact absurd hmem (by decide)

/-- The first call of a handler that has not changed anything: it still has not, or it
goes on to `StartBACnet`, or it clears the bit. -/
theorem Untouched.call {todo : List Call} (hu : Untouched (c :: todo)) (h : { s with todo }.call ret c = some t) :
    (∃ todo', Untouched todo' ∧ t = { s with todo := todo' }) ∨
    (s.connected = false ∧ t = { s with todo := .setBits :: startBACnet }) ∨
    t = { s with todo := bipCleanup, connected := false, cleared := s.connected } := by
  cases hu with
  | wifiConnect | ethIoctl =>
    simp only [State.call, Option.some.injEq] at h
    exact .inl ⟨[], .done, h.symm⟩
  | gotIp =>
    simp only [State.call, Option.some.injEq] at h
    by_cases hc : s.connected = true
    · rw [if_pos hc] at h
      exact .inl ⟨[], .done, h.symm⟩
    · rw [if_neg hc] at h
      exact .inr (.inl ⟨Bool.eq_false_iff.2 hc, h.symm⟩)
  | disconnected =>
    simp only [State.call, Option.some.injEq] at h
    exact .inr (.inr h.symm)
  | wifiDisconnected =>
    simp only [State.call, Option.some.injEq] at h
    exact .inl ⟨_, .disconnected, h.symm⟩

/-- **A call of an event handler moves on to the next stage.** -/
theorem Stage.handler {todo : List Call} (hi : Stage s) (htodo : s.todo = c :: todo)
    (h : { s with todo }.call ret c = some t) : Stage t := by
  cases hi with
  | down hc hb ht =>
    rw [htodo] at ht
    rcases ht with hu | ht | ⟨ht, -⟩
    · rcases hu.call h with ⟨todo', hu', rfl⟩ | ⟨-, rfl⟩ | rfl
      · exact .down hc hb (.inl hu')
      · exact .down hc hb (.inr (.inl rfl))
      · exact .down rfl hb (.inr (.inr ⟨rfl, hc⟩))
    · obtain ⟨rfl, rfl⟩ := List.cons.inj ht
      simp only [State.call, Option.some.injEq] at h
      subst h
      refine .starting rfl hb preparation startBACnet_eq (List.suffix_refl _) (fun x hx => .inl ?_) (.inl (by decide))
      exact List.mem_append_left _ (List.mem_map_of_mem hx)
    · obtain ⟨rfl, rfl⟩ := List.cons.inj ht
      simp only [State.call, Option.some.injEq] at h
      subst h
      exact .closed hc rfl (by simp)
  | starting hc hb p ht hp hreg hsock =>
    rw [htodo] at ht
    cases p with
    | nil =>
      obtain ⟨rfl, rfl⟩ := List.cons.inj ht
      simp only [State.call, Option.some.injEq] at h
      subst h
      refine .up hc ⟨rfl, ?_, fun x hx => ?_⟩ (.inr rfl)
      · exact hsock.resolve_left List.not_mem_nil
      · exact (hreg x hx).resolve_left List.not_mem_nil
    | cons c' p =>
      obtain ⟨rfl, rfl⟩ := List.cons.inj ht
      exact Stage.prepare (s := { s with todo := p ++ [.bipSetSocket, .sendIAm] }) hc hb hp hreg hsock rfl h
  | up hc hpub ht =>
    rw [htodo] at ht
    rcases ht with hu | ht
    · rcases hu.call h with ⟨todo', hu', rfl⟩ | ⟨hc', -⟩ | rfl
      · exact .up hc hpub.congr (.inl hu')
      · exact absurd (hc.symm.trans hc') nofun
      · exact .closing rfl hpub.congr hc rfl
    · obtain ⟨rfl, rfl⟩ := List.cons.inj ht
      simp only [State.call, Option.some.injEq] at h
      subst h
      exact .up hc hpub.congr (.inl .done)
  | closing hc hpub hcl ht =>
    obtain ⟨rfl, rfl⟩ := List.cons.inj (htodo.symm.trans ht)
    simp only [State.call, Option.some.injEq] at h
    subst h
    exact .closed hc rfl (by simp)
  | closed hc ht hb =>
    obtain ⟨rfl, rfl⟩ := List.cons.inj (htodo.symm.trans ht)
    simp only [State.call, Option.some.injEq] at h
    subst h
    exact .down hc rfl (.inl .done)

/-! ## A step of either task -/

/-- An event is taken between two handlers. -/
theorem Stage.event (hi : Stage s) (htodo : s.todo = []) (e : Event) :
    Stage { s with todo := eventHandler net e } := by
  have hu := untouched_eventHandler net e
  cases hi with
  | down hc hb ht => exact .down hc hb (.inl hu)
  | starting hc hb p ht hp hreg hsock => simp [htodo] at ht
  | up hc hpub ht => exact .up hc hpub.congr (.inl hu)
  | closing hc hpub hcl ht => exact absurd (htodo.symm.trans ht) (by decide)
  | closed hc ht hb => exact absurd (htodo.symm.trans ht) (by decide)

/-- `BACnetTask` changes nothing the stages speak about. -/
theorem Stage.pc (hi : Stage s) (pc : Pc) : Stage { s with pc } := by
  cases hi with
  | down hc hb ht => exact .down hc hb ht
  | starting hc hb p ht hp hreg hsock => exact .starting hc hb p ht hp hreg hsock
  | up hc hpub ht => exact .up hc hpub.congr ht
  | closing hc hpub hcl ht => exact .closing hc hpub.congr hcl ht
  | closed hc ht hb => exact .closed hc ht hb

theorem task_pc (h : s.task pduLen = some t) : ∃ pc, t = { s with pc } := by
  unfold State.task at h
  split at h
  case h_3 | h_5 =>
    simp only [Option.ite_none_right_eq_some, Option.some.injEq] at h
    exact ⟨_, h.2.symm⟩
  all_goals
    simp only [Option.some.injEq] at h
    exact ⟨_, h.symm⟩

theorem Stage.step {a : Action} (hi : Stage s) (h : s.step net a = some t) : Stage t := by
  cases a with
  | event e =>
    simp only [State.step, Option.ite_none_right_eq_some, Option.some.injEq] at h
    obtain ⟨⟨-, -, htodo⟩, rfl⟩ := h
    exact hi.event htodo e
  | handler ret =>
    simp only [State.step] at h
    split at h
    · rename_i c todo htodo
      exact hi.handler htodo h
    · cases h
  | task pduLen =>
    obtain ⟨pc, rfl⟩ := task_pc h
    exact hi.pc pc

theorem stage_of_reach (h : (State.machine net).Reach anyStep s) : Stage s :=
  h.invariant Stage.init fun _ _ _ hi _ hs => hi.step hs

/-- **When BACnet traffic is handled on a live socket.** All of a run's calls of
`datalink_receive`, `npdu_handler` and `handler_cov_task` are made while the published
socket is open and the handlers are registered, iff all are made between `bip_set_socket`
and `bip_cleanup` of a connection whose `socket` succeeded. -/
theorem live_calls_iff (net : Net) (as : List Action) (s : State) :
    (State.machine net).Run (State.OnCalls State.Live) (State.machine net).init as s ↔
      (State.machine net).Run (State.OnCalls State.Settled) (State.machine net).init as s := by
  refine Machine.run_congr fun s a hs => ?_
  have hiff := (stage_of_reach hs).live_iff
  cases a with
  | event e | handler ret => exact Iff.rfl
  | task pduLen => exact imp_congr_right fun _ => hiff

/-- From the start to an address: `BACnetTask` waits in `network_init`, and the event
loop has made `n` calls of `StartBACnet` after setting the bit. -/
def gotIp (n : ℕ) : List Action :=
  [.task 0, .task 0, .event .gotIp] ++ List.replicate (n + 2) (.handler 54)

/-- The link is lost while `datalink_receive` waits for a packet; and `BACnetTask` gets
through both its waits before `StartBACnet` has done anything. -/
theorem calls_on_dead_socket :
    (∃ s, (State.machine .eth).Reach anyStep s ∧ s.pc = .handlerCovTask ∧ (s.step .eth (.task 0)).isSome ∧ ¬ s.Live) ∧
    (∃ s, (State.machine .wifi).Reach anyStep s ∧ s.pc = .datalinkReceive ∧ (s.step .wifi (.task 0)).isSome ∧
      ¬ s.Live) := by
  have hlost : ((State.machine .eth).exec anyStep (State.machine .eth).init
      (gotIp startBACnet.length ++ List.replicate 5 (.task 0) ++ [.event .disconnected] ++ List.replicate 3 (.handler 0))).map
      (fun s => decide (s.pc = .handlerCovTask ∧ (s.step .eth (.task 0)).isSome ∧ ¬ s.Live)) = some true := by decide +kernel
  have hearly : ((State.machine .wifi).exec anyStep (State.machine .wifi).init
      (gotIp 0 ++ List.replicate 4 (.task 0))).map
      (fun s => decide (s.pc = .datalinkReceive ∧ (s.step .wifi (.task 0)).isSome ∧ ¬ s.Live)) = some true := by
    decide +kernel
  obtain ⟨s, hs, hp⟩ := Machine.Reach.of_exec hlost
  obtain ⟨t, ht, hq⟩ := Machine.Reach.of_exec hearly
  exact ⟨⟨s, hs, of_decide_eq_true hp⟩, ⟨t, ht, of_decide_eq_true hq⟩⟩

end EspNetwork.Bacnet
