import EspNetwork.Spec.SshServer

/-!
# Session state across connections

* `State.Step`, `State.step_cases`: what a step of the server can do.
* `State.Inv`: outside a connection the static variables are clean, and inside one they
  say what its own attempts have done; each step from which no connection with attempts
  is dropped keeps it.
* `State.dirty_of_early_exit`: the condition is exact. A dropped connection with an
  attempt leaves its state to the next one.
-/

namespace EspNetwork.Ssh

open CLib Lts

namespace Pc

/-- A connection has been accepted and not left. -/
def connected : Pc → Bool
  | .bindNew | .bindListen | .sshNew | .bindAccept | .stopped => false
  | _ => true

theorem connected_of_polling {p : Pc} (h : p.polling = true) : p.connected = true := by
  cases p with
  | keyExchange | waitPoll | servePoll => rfl
  | _ => simp [polling] at h

theorem connected_of_early {p : Pc} (h : p.early = true) : p.connected = true := by
  cases p with
  | keyExchange | eventNew | addSession => rfl
  | _ => simp [early] at h

theorem connected_of_serving {p : Pc} (h : p.serving = true) : p.connected = true := by
  cases p with
  | serve | servePoll => rfl
  | _ => simp [serving] at h

end Pc

namespace State

/-! ## What a step can do -/

/-- The test of the wait loop is false. -/
def Ready (s : State) : Prop := s.authenticated = true ∧ s.channel.isSome = true

/-- Control flow. -/
inductive Flow (s : State) : Label → Pc → Prop
  | bound (hpc : s.pc = .bindNew) : Flow s (.ret true) .bindListen
  | listening (hpc : s.pc = .bindListen) : Flow s (.ret true) .sshNew
  | unbound (hpc : s.pc = .bindNew ∨ s.pc = .bindListen) : Flow s (.ret false) .stopped
  | retry (hpc : s.pc = .sshNew ∨ s.pc = .bindAccept) : Flow s (.ret false) .sshNew
  | callbacks (hpc : s.pc = .accepted) : Flow s .tau .keyExchange
  | exchanged (hpc : s.pc = .keyExchange) : Flow s (.ret true) .eventNew
  | event (hpc : s.pc = .eventNew) : Flow s (.ret true) .addSession
  | added (hpc : s.pc = .addSession) : Flow s (.ret true) (.wait 0)
  | dropped (hpc : s.pc.early = true) : Flow s (.ret false) .sshNew
  | poll {n} (hpc : s.pc = .wait n) (hready : ¬ s.Ready) (htries : s.tries < 3) (hn : n < 100) :
    Flow s .tau (.waitPoll n)
  | polled {n} (hpc : s.pc = .waitPoll n) : Flow s (.ret true) (.wait (n + 1))
  | waited {n} (hpc : s.pc = .wait n) (hend : s.Ready ∨ 3 ≤ s.tries ∨ 100 ≤ n) : Flow s .tau s.afterWait
  | pollFailed {n} (hpc : s.pc = .waitPoll n) : Flow s (.ret false) s.afterWait
  | isOpen (hpc : s.pc = .serve) : Flow s (.ret true) .servePoll
  | served (hpc : s.pc = .servePoll) : Flow s (.ret true) .serve
  | closed (hpc : s.pc.serving = true) : Flow s (.ret false) .cleanup

inductive Step (s : State) : Label → State → Prop
  | goto {l p} (hf : Flow s l p) : Step s l { s with pc := p }
  | created (hpc : s.pc = .sshNew) : Step s (.ret true) { s with pc := .bindAccept, session := s.session + 1 }
  | accepted (hpc : s.pc = .bindAccept) : Step s (.ret true) { s with pc := .accepted, conns := [] :: s.conns }
  | cleanup (hpc : s.pc = .cleanup) :
    Step s .tau { s with pc := .sshNew, channel := none, authenticated := false, tries := 0 }
  | authNone {user} (hpc : s.pc.polling = true) : Step s (.authNone user) s
  | authPassword {user password} (hpc : s.pc.polling = true) :
    Step s (.authPassword user password) (s.attempt user password)
  | channelOpen {created} (hpc : s.pc.polling = true) (hc : s.channel = none) :
    Step s (.channelOpen created) { s with channel := if created then some (.new s.session) else none }
  | refused {created} (hpc : s.pc.polling = true) (hc : s.channel.isSome = true) :
    Step s (.channelOpen created) s
  | data {write chunk c} (hpc : s.pc.polling = true) (hc : s.channel = some c) (hs : c.session = s.session) :
    Step s (.data write chunk) { s with channel := some (c.deliver write chunk) }

variable {s t : State} {l : Label} {p : Pc}

theorem step_tau (hs : s.tau = some t) : Step s .tau t := by
  unfold tau at hs
  split at hs
  · rename_i hpc
    simp only [Option.some.injEq] at hs; subst hs
    exact .goto (.callbacks hpc)
  · rename_i n hpc
    split at hs
    · rename_i hnot
      have hready : ¬ s.Ready := by
        intro ⟨ha, hc⟩
        rcases hnot with hnot | hnot
        · rw [ha] at hnot; exact absurd hnot (by simp)
        · rw [hnot] at hc; exact absurd hc (by simp)
      split at hs
      · rename_i hend
        simp only [Option.some.injEq] at hs; subst hs
        exact .goto (.waited hpc (.inr hend))
      · rename_i hgo
        simp only [Option.some.injEq] at hs; subst hs
        exact .goto (.poll hpc hready (by omega) (by omega))
    · rename_i hready
      simp only [Option.some.injEq] at hs; subst hs
      rw [not_or, Bool.not_eq_false, ← ne_eq, Option.ne_none_iff_isSome] at hready
      exact .goto (.waited hpc (.inl hready))
  · rename_i hpc
    simp only [Option.some.injEq] at hs; subst hs
    exact .cleanup hpc
  · exact absurd hs (by simp)

theorem step_ret {ok : Bool} (hs : s.ret ok = some t) : Step s (.ret ok) t := by
  unfold ret at hs
  split at hs <;> rename_i hpc <;> simp only [Option.some.injEq, reduceCtorEq] at hs <;> subst hs <;>
    cases ok
  · exact .goto (.unbound (.inl hpc))
  · exact .goto (.bound hpc)
  · exact .goto (.unbound (.inr hpc))
  · exact .goto (.listening hpc)
  · have hs : s = { s with pc := .sshNew } := by rw [← hpc]
    have hstep : Step s (.ret false) { s with pc := .sshNew } := .goto (.retry (.inl hpc))
    rwa [← hs] at hstep
  · exact .created hpc
  · exact .goto (.retry (.inr hpc))
  · exact .accepted hpc
  · exact .goto (.dropped (by rw [hpc]; rfl))
  · exact .goto (.exchanged hpc)
  · exact .goto (.dropped (by rw [hpc]; rfl))
  · exact .goto (.event hpc)
  · exact .goto (.dropped (by rw [hpc]; rfl))
  · exact .goto (.added hpc)
  · exact .goto (.pollFailed hpc)
  · exact .goto (.polled hpc)
  · exact .goto (.closed (by rw [hpc]; rfl))
  · exact .goto (.isOpen hpc)
  · exact .goto (.closed (by rw [hpc]; rfl))
  · exact .goto (.served hpc)

/-- **What a step can do.** -/
theorem step_cases (hs : s.step l = some t) : Step s l t := by
  cases l with
  | tau => exact step_tau hs
  | ret ok => exact step_ret hs
  | authNone user =>
    obtain ⟨hpc, hs⟩ : s.pc.polling = true ∧ s = t := by simpa [step, Ssh.authNone] using hs
    subst hs; exact .authNone hpc
  | authPassword user password =>
    obtain ⟨hpc, hs⟩ : s.pc.polling = true ∧ s.attempt user password = t := by simpa [step] using hs
    subst hs; exact .authPassword hpc
  | channelOpen created =>
    simp only [step, Option.ite_none_right_eq_some, Option.some.injEq] at hs
    obtain ⟨hpc, hs⟩ := hs
    unfold Ssh.channelOpen at hs
    split at hs
    · rename_i c hc
      subst hs; exact .refused hpc (by rw [hc]; rfl)
    · rename_i hc
      subst hs; exact .channelOpen hpc hc
  | data write chunk =>
    simp only [step, Option.ite_none_right_eq_some] at hs
    obtain ⟨hpc, hs⟩ := hs
    unfold State.data at hs
    split at hs
    · rename_i c hc
      simp only [Option.ite_none_right_eq_some, Option.some.injEq] at hs
      obtain ⟨hsess, hs⟩ := hs
      subst hs; exact .data hpc hc hsess
    · exact absurd hs (by simp)

/-! ## One attempt -/

/-- The record that a call of `auth_password` leaves. -/
def attempted (s : State) (user password : Bytes) : Attempt :=
  let (v, r) := Ssh.authPassword s.toStatics user password
  ⟨user, password, r, s.authenticated, v.authenticated⟩

/-- **What `auth_password` does** with right credentials, and with wrong ones. -/
theorem attempted_spec (s : State) (user password : Bytes) :
    (s.attempted user password).success = credentials user password ∧
    (s.attempted user password).failed = !credentials user password ∧
    (s.attempted user password).after = (s.authenticated || credentials user password) ∧
    (s.attempt user password).authenticated = (s.authenticated || credentials user password) ∧
    (s.attempt user password).tries = s.tries + if credentials user password then 0 else 1 := by
  unfold attempted attempt Attempt.success Attempt.failed Ssh.authPassword
  cases hc : credentials user password with
  | true => simp
  | false =>
    have hne : (AuthResult.denied == AuthResult.success) = false := by decide
    by_cases htries : 3 ≤ s.tries + 1 <;> simp [htries, hne]

theorem authPassword_channel (v : Statics) (user password : Bytes) :
    (Ssh.authPassword v user password).1.channel = v.channel := by
  unfold Ssh.authPassword
  split
  · rfl
  · dsimp only
    split <;> rfl

theorem attempt_channel (s : State) (user password : Bytes) :
    (s.attempt user password).channel = s.channel :=
  authPassword_channel s.toStatics user password

theorem attempt_conns (s : State) (user password : Bytes) :
    (s.attempt user password).conns = s.conns.modifyHead (· ++ [s.attempted user password]) := rfl

/-- An attempt is recorded with the current connection. -/
theorem attempts_attempt (hne : s.conns ≠ []) (user password : Bytes) :
    (s.attempt user password).attempts = s.attempts ++ [s.attempted user password] := by
  obtain ⟨as, conns, hs⟩ := List.exists_cons_of_ne_nil hne
  simp only [attempts, attempt_conns, hs, List.modifyHead_cons, List.headD_cons]

/-! ## The invariant -/

/-- The static variables say what the attempts of the current connection have done. -/
structure Accounted (s : State) : Prop where
  conns : s.conns ≠ []
  authenticated : s.authenticated = s.attempts.any Attempt.success
  tries : s.tries = s.attempts.countP Attempt.failed
  /-- a channel is this session's, and has been opened after a success -/
  channel : ∀ c, s.channel = some c → c.session = s.session ∧ s.authenticated = true

structure Inv (s : State) : Prop where
  clean : s.pc.connected = false → s.Clean
  accounted : s.pc.connected = true → s.Accounted
  accepted : s.pc = .accepted → s.attempts = []
  serving : s.pc.serving = true → s.channel.isSome = true

/-- A connection without attempts has changed nothing. -/
theorem Accounted.clean (h : s.Accounted) (hnil : s.attempts = []) : s.Clean := by
  have hauth : s.authenticated = false := by rw [h.authenticated, hnil]; rfl
  refine ⟨hauth, by rw [h.tries, hnil]; rfl, ?_⟩
  rw [Option.eq_none_iff_forall_ne_some]
  intro c hc
  have := (h.channel c hc).2
  rw [hauth] at this
  exact absurd this (by simp)

/-- A step that only moves on inside a connection, or outside of one. -/
theorem Inv.goto (h : Inv s) (hconn : p.connected = s.pc.connected) (hacc : p ≠ .accepted)
    (hserve : p.serving = true → s.channel.isSome = true) : Inv { s with pc := p } where
  clean hp := h.clean (hconn ▸ hp)
  accounted hp := by
    have ha := h.accounted (hconn ▸ hp)
    exact ⟨ha.conns, ha.authenticated, ha.tries, ha.channel⟩
  accepted hp := absurd hp hacc
  serving := hserve

/-- The serving loop is entered with a channel. -/
theorem afterWait_serving (h : s.afterWait.serving = true) : s.channel.isSome = true := by
  unfold afterWait at h
  split at h
  · assumption
  · exact absurd h (by simp [Pc.serving])

theorem afterWait_connected (s : State) : s.afterWait.connected = true ∧ s.afterWait ≠ .accepted := by
  unfold afterWait; split <;> simp [Pc.connected]

/-- Control flow alone keeps the invariant, unless it leaves a connection early. -/
theorem Inv.flow (h : Inv s) (hg : s.NoEarlyExit l) (hf : Flow s l p) : Inv { s with pc := p } := by
  cases hf with
  | bound hpc | listening hpc | callbacks hpc | exchanged hpc | event hpc | added hpc | poll hpc
  | polled hpc =>
    exact h.goto (by rw [hpc]; rfl) (by simp) (by simp [Pc.serving])
  | unbound hpc | retry hpc =>
    have hout : s.pc.connected = false := by rcases hpc with hpc | hpc <;> (rw [hpc]; rfl)
    exact h.goto (by rw [hout]; rfl) (by simp) (by simp [Pc.serving])
  | dropped hpc =>
    -- the early exit: nothing is reset, and nothing has been set
    have hclean := (h.accounted (Pc.connected_of_early hpc)).clean (hg hpc)
    exact ⟨fun _ => hclean, by simp [Pc.connected], by simp, by simp [Pc.serving]⟩
  | waited hpc | pollFailed hpc =>
    obtain ⟨hconn, hacc⟩ := afterWait_connected s
    exact h.goto (by rw [hpc, hconn]; rfl) hacc afterWait_serving
  | isOpen hpc | served hpc =>
    have hserve : s.channel.isSome = true := h.serving (by rw [hpc]; rfl)
    exact h.goto (by rw [hpc]; rfl) (by simp) fun _ => hserve
  | closed hpc =>
    have hconn := Pc.connected_of_serving hpc
    exact h.goto (by rw [hconn]; rfl) (by simp) (by simp [Pc.serving])

/-- A callback keeps the program counter, and a channel once there is one. -/
theorem Inv.callback (h : Inv s) (hpc : s.pc.polling = true) (htpc : t.pc = s.pc) (hacc : t.Accounted)
    (hchan : s.channel.isSome = true → t.channel.isSome = true) : Inv t := by
  have hconn := Pc.connected_of_polling hpc
  refine ⟨?_, fun _ => hacc, ?_, ?_⟩
  · intro hp
    rw [htpc, hconn] at hp
    exact absurd hp (by simp)
  · intro hp
    rw [← htpc, hp] at hpc
    exact absurd hpc (by simp [Pc.polling])
  · intro hp
    exact hchan (h.serving (htpc ▸ hp))

/-- An attempt keeps the accounts. -/
theorem Accounted.attempt (h : s.Accounted) (user password : Bytes) : (s.attempt user password).Accounted := by
  obtain ⟨hsuccess, hfailed, -, hauth, htries⟩ := s.attempted_spec user password
  have happ := attempts_attempt h.conns user password
  refine ⟨?_, ?_, ?_, ?_⟩
  · rw [attempt_conns, ne_eq, List.modifyHead_eq_nil_iff]
    exact h.conns
  · rw [hauth, happ, List.any_append, ← h.authenticated]
    simp only [List.any_cons, List.any_nil, Bool.or_false, hsuccess]
  · rw [htries, happ, List.countP_append, ← h.tries, List.countP_singleton, hfailed]
    cases credentials user password <;> rfl
  · intro c hc
    rw [attempt_channel] at hc
    obtain ⟨hsess, ha⟩ := h.channel c hc
    exact ⟨hsess, by rw [hauth, ha]; rfl⟩

/-- The steps that meet libssh's contract and the condition. -/
def Guarded (s : State) (l : Label) : Prop := s.Libssh l ∧ s.NoEarlyExit l

/-- **Every step** keeps the invariant. -/
theorem Inv.step (h : Inv s) (hg : s.Guarded l) (hs : s.step l = some t) : Inv t := by
  cases step_cases hs with
  | goto hf => exact h.flow hg.2 hf
  | created hpc =>
    have hclean : s.Clean := h.clean (by rw [hpc]; rfl)
    exact ⟨fun _ => hclean, by simp [Pc.connected], by simp, by simp [Pc.serving]⟩
  | accepted hpc =>
    obtain ⟨hauth, htries, hchan⟩ := h.clean (by rw [hpc]; rfl)
    refine ⟨by simp [Pc.connected], fun _ => ⟨by simp, hauth, htries, ?_⟩, fun _ => rfl, by simp [Pc.serving]⟩
    intro c hc
    rw [show s.channel = some c from hc] at hchan
    exact absurd hchan (by simp)
  | cleanup => exact ⟨fun _ => ⟨rfl, rfl, rfl⟩, by simp [Pc.connected], by simp, by simp [Pc.serving]⟩
  | authNone => exact h
  | authPassword hpc =>
    have hacc := (h.accounted (Pc.connected_of_polling hpc)).attempt
    exact h.callback hpc rfl (hacc _ _) (by rw [attempt_channel]; exact id)
  | @channelOpen created hpc hc =>
    have ha := h.accounted (Pc.connected_of_polling hpc)
    refine h.callback hpc rfl ⟨ha.conns, ha.authenticated, ha.tries, ?_⟩ (by simp [hc])
    -- libssh's contract: a success came first
    have hauth : s.authenticated = true := by
      rw [ha.authenticated, List.any_eq_true]
      exact hg.1
    intro c hnew
    split at hnew
    · simp only [Option.some.injEq] at hnew; subst hnew
      exact ⟨rfl, hauth⟩
    · exact absurd hnew (by simp)
  | refused => exact h
  | @data write chunk c hpc hc hsess =>
    have ha := h.accounted (Pc.connected_of_polling hpc)
    refine h.callback hpc rfl ⟨ha.conns, ha.authenticated, ha.tries, ?_⟩ (fun _ => rfl)
    intro c' hc'
    simp only [Option.some.injEq] at hc'; subst hc'
    exact ⟨hsess, (ha.channel c hc).2⟩

theorem inv_init : Inv init :=
  ⟨fun _ => ⟨rfl, rfl, rfl⟩, by simp [init, Pc.connected], by simp [init], by simp [init, Pc.serving]⟩

theorem inv_of_reach (h : machine.Reach Guarded s) : Inv s :=
  h.invariant inv_init fun _ _ _ hi hg hs => hi.step hg hs

/-- **No state is left to the next connection** in any run that meets the condition: a
connection that has just been accepted finds the static variables clean, and the serving
loop runs only for a connection with a successful `auth_password` of its own, on a channel
of its own session. -/
theorem session_state_fresh (s : State) (h : machine.Reach Guarded s) :
    (s.pc = .accepted → s.authenticated = false ∧ s.tries = 0 ∧ s.channel = none) ∧
    (s.pc.serving = true → (∃ a ∈ s.attempts, a.reply.result = .success) ∧
      ∃ c, s.channel = some c ∧ c.session = s.session) := by
  have hi := inv_of_reach h
  constructor
  · intro hpc
    exact (hi.accounted (by rw [hpc]; rfl)).clean (hi.accepted hpc)
  · intro hserve
    have ha := hi.accounted (Pc.connected_of_serving hserve)
    obtain ⟨c, hc⟩ := Option.isSome_iff_exists.1 (hi.serving hserve)
    obtain ⟨hsess, hauth⟩ := ha.channel c hc
    rw [ha.authenticated, List.any_eq_true] at hauth
    obtain ⟨a, ha, hsuccess⟩ := hauth
    exact ⟨⟨a, ha, by simpa [Attempt.success] using hsuccess⟩, c, hc, hsess⟩

instance (s : State) : ∀ l, Decidable (s.Libssh l)
  | .channelOpen _ => inferInstanceAs (Decidable (∃ a ∈ s.attempts, a.success = true))
  | .tau | .ret _ | .authNone _ | .authPassword _ _ | .data _ _ => isTrue trivial

instance (s : State) : ∀ l, Decidable (s.NoEarlyExit l)
  | .ret false => inferInstanceAs (Decidable (_ → s.attempts = []))
  | .ret true | .tau | .authNone _ | .authPassword _ _ | .channelOpen _ | .data _ _ => isTrue trivial

instance (s : State) (l : Label) : Decidable (s.Guarded l) := inferInstanceAs (Decidable (_ ∧ _))

/-- From the start to `ssh_handle_key_exchange`. -/
def connect : List Label := [.ret true, .ret true, .ret true, .ret true, .tau]

/-- A client logs in and opens a channel. -/
def login : List Label :=
  connect ++ [.ret true, .ret true, .ret true, .tau,
    .authPassword defaultUsername defaultPassword, .channelOpen true, .ret true, .tau]

/-- `session_state_fresh` after `login`. -/
theorem session_state_fresh_login : ∃ s, machine.Reach Guarded s ∧ s.pc = .serve ∧ s.session = 1 ∧
    ∃ a ∈ s.attempts, a.reply.result = .success := by
  have hrun : (machine.exec Guarded machine.init login).map (fun s =>
      s.pc == .serve && s.session == 1) = some true := by
    decide +kernel
  obtain ⟨s, hs, hp⟩ := Machine.Reach.of_exec hrun
  rw [Bool.and_eq_true, beq_iff_eq, beq_iff_eq] at hp
  obtain ⟨hpc, hsess⟩ := hp
  have hserve : s.pc.serving = true := by rw [hpc]; rfl
  exact ⟨s, hs, hpc, hsess, ((session_state_fresh s hs).2 hserve).1⟩

/-! ## An early exit -/

/-- **The condition is exact**: when a connection with an attempt is left by an early
`continue`, the next one that is accepted is not given a clean state. -/
theorem dirty_of_early_exit (h : machine.Reach Guarded s) (hpc : s.pc.early = true) (hne : s.attempts ≠ []) :
    ∃ t, machine.Run Libssh s [.ret false, .ret true, .ret true] t ∧ t.pc = .accepted ∧ ¬ t.Clean := by
  have ha := (inv_of_reach h).accounted (Pc.connected_of_early hpc)
  have hexit : s.step (.ret false) = some { s with pc := .sshNew } := by
    cases hp : s.pc with
    | keyExchange | eventNew | addSession => simp [State.step, ret, hp]
    | _ => simp [hp, Pc.early] at hpc
  refine ⟨{ s with pc := .accepted, session := s.session + 1, conns := [] :: s.conns }, ?_, rfl, ?_⟩
  · exact .cons trivial hexit (.cons trivial rfl (.single trivial rfl))
  · rintro ⟨hauth, htries, -⟩
    -- an attempt has set the flag or counted
    obtain ⟨a, hmem⟩ := List.exists_mem_of_ne_nil _ hne
    have hnot : ¬ a.success = true := by
      have hany : s.attempts.any Attempt.success = false := ha.authenticated ▸ hauth
      exact List.any_eq_false.1 hany a hmem
    have hcount : s.attempts.countP Attempt.failed = 0 := ha.tries ▸ htries
    have hfailed := List.countP_eq_zero.1 hcount a hmem
    cases hr : a.reply.result <;> simp [Attempt.success, Attempt.failed, hr] at hnot hfailed

/-- A client logs in during a key exchange that fails, and another one connects. -/
def loginThenConnect : List Label :=
  connect ++ [.authPassword defaultUsername defaultPassword, .channelOpen true, .ret false, .ret true, .ret true]

/-- The second connection finds the flag set, and is served on the first one's channel
without an attempt. -/
theorem session_state_leaks :
    (∃ s, machine.Reach Libssh s ∧ s.pc = .accepted ∧ s.authenticated = true) ∧
    ∃ s, machine.Reach Libssh s ∧ s.pc.serving = true ∧ s.attempts = [] ∧ s.session = 2 ∧
      s.channel = some (.new 1) := by
  constructor
  · have hrun : (machine.exec Libssh machine.init loginThenConnect).map (fun s =>
        s.pc == .accepted && s.authenticated) = some true := by
      decide +kernel
    obtain ⟨s, hs, hp⟩ := Machine.Reach.of_exec hrun
    rw [Bool.and_eq_true, beq_iff_eq] at hp
    exact ⟨s, hs, hp⟩
  · have hrun : (machine.exec Libssh machine.init
        (loginThenConnect ++ [.tau, .ret true, .ret true, .ret true, .tau])).map (fun s =>
        s.pc.serving && s.attempts == [] && s.session == 2 && s.channel == some (.new 1)) = some true := by
      decide +kernel
    obtain ⟨s, hs, hp⟩ := Machine.Reach.of_exec hrun
    simp only [Bool.and_eq_true, beq_iff_eq] at hp
    obtain ⟨⟨⟨hserve, hnil⟩, hsess⟩, hchan⟩ := hp
    exact ⟨s, hs, hserve, hnil, hsess, hchan⟩

end State

end EspNetwork.Ssh
