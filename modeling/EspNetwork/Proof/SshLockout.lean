import EspNetwork.Proof.SshSession

/-!
# Three strikes

`auth_password` counts the failed attempts of a connection, and compares the credentials
before it looks at the count.

* `State.three_strikes`: what the count does enforce. After three failures the wait loop
  polls no more.
* `State.lockout_iff`: a connection is locked out after three failures exactly if the right
  credentials do not come after three wrong pairs.
-/

namespace EspNetwork.Ssh

open CLib Lts

/-! ## Logs of attempts -/

/-- After three failures no attempt succeeds, or sets the flag. -/
def Lockout (as : List Attempt) : Prop :=
  ∀ pre a post, as = pre ++ a :: post → 3 ≤ pre.countP Attempt.failed →
    a.reply.result = .denied ∧ (a.after = true → a.before = true)

/-- Each success comes after fewer than three failures. -/
def InTime (as : List Attempt) : Prop :=
  ∀ pre a post, as = pre ++ a :: post → a.reply.result = .success → pre.countP Attempt.failed < 3

/-- The right credentials do not come after three wrong pairs. -/
def NeverLate (as : List Attempt) : Prop :=
  ∀ pre a post, as = pre ++ a :: post → 3 ≤ pre.countP (fun b => !b.right) → a.right = false

/-- The credentials alone decide an attempt. -/
structure Attempt.Genuine (a : Attempt) : Prop where
  success : a.success = a.right
  failed : a.failed = !a.right
  after : a.after = (a.before || a.right)

variable {as : List Attempt} {a : Attempt}

/-- The server denies exactly the wrong credentials. -/
theorem Attempt.Genuine.denied_iff (h : a.Genuine) : a.reply.result = .denied ↔ a.right = false := by
  have hf := h.failed
  rw [Attempt.failed] at hf
  rw [← beq_iff_eq, hf, Bool.not_eq_true']

/-- Failures and wrong pairs are counted alike. -/
theorem countP_failed (h : ∀ a ∈ as, a.Genuine) : as.countP Attempt.failed = as.countP (fun b => !b.right) := by
  apply List.countP_congr
  intro a ha
  rw [(h a ha).failed]

/-- **The lockout** holds iff the right credentials never come after three wrong pairs. -/
theorem lockout_iff_neverLate (h : ∀ a ∈ as, a.Genuine) : Lockout as ↔ NeverLate as := by
  constructor
  · intro hlock pre a post has hwrong
    have hpre : ∀ b ∈ pre, b.Genuine := fun b hb => h b (by rw [has]; exact List.mem_append_left _ hb)
    rw [← countP_failed hpre] at hwrong
    have ha : a.Genuine := h a (by rw [has]; simp)
    exact ha.denied_iff.1 (hlock pre a post has hwrong).1
  · intro hnever pre a post has hfailed
    have hpre : ∀ b ∈ pre, b.Genuine := fun b hb => h b (by rw [has]; exact List.mem_append_left _ hb)
    rw [countP_failed hpre] at hfailed
    have ha : a.Genuine := h a (by rw [has]; simp)
    have hwrong := hnever pre a post has hfailed
    refine ⟨ha.denied_iff.2 hwrong, ?_⟩
    rw [ha.after, hwrong, Bool.or_false]
    exact id

theorem Lockout.inTime (h : Lockout as) : InTime as := by
  intro pre a post has hsuccess
  by_contra hlt
  have hdenied := (h pre a post has (by omega)).1
  rw [hsuccess] at hdenied
  exact absurd hdenied (by simp)

namespace State

variable {s t : State} {l : Label} {p : Pc}

/-- In a run that meets the condition, three failures end the waiting. -/
theorem three_strikes {n : ℕ} (h : machine.Reach Guarded s) (hpc : s.pc = .wait n)
    (hfailed : 3 ≤ s.attempts.countP Attempt.failed) :
    s.step .tau = some { s with pc := s.afterWait } := by
  have htries := ((inv_of_reach h).accounted (by rw [hpc]; rfl)).tries
  have hend : s.tries ≥ 3 ∨ n ≥ 100 := .inl (by omega)
  simp only [State.step, tau, hpc, hend, if_true, ite_self]

/-! ## Every run -/

/-- What the log says, whatever connections are dropped. -/
structure Logged (s : State) : Prop where
  conns : s.pc.connected = true → s.conns ≠ []
  genuine : ∀ as ∈ s.conns, ∀ a ∈ as, a.Genuine
  authenticated : s.authenticated = true → ∃ as ∈ s.conns, ∃ a ∈ as, a.reply.result = .success

/-- No control step enters a connection. -/
theorem Flow.connected (hf : Flow s l p) (hp : p.connected = true) : s.pc.connected = true := by
  cases hf with
  | bound | listening | unbound | retry | dropped => simp [Pc.connected] at hp
  | closed hpc => exact Pc.connected_of_serving hpc
  | callbacks hpc | exchanged hpc | event hpc | added hpc | poll hpc | polled hpc | waited hpc
  | pollFailed hpc | isOpen hpc | served hpc => rw [hpc]; rfl

theorem attempted_genuine (s : State) (user password : Bytes) : (s.attempted user password).Genuine := by
  obtain ⟨hsuccess, hfailed, hafter, -, -⟩ := s.attempted_spec user password
  exact ⟨hsuccess, hfailed, hafter⟩

theorem Logged.attempt (h : s.Logged) (hpc : s.pc.polling = true) (user password : Bytes) :
    (s.attempt user password).Logged := by
  have hne := h.conns (Pc.connected_of_polling hpc)
  obtain ⟨as, conns, hconns⟩ := List.exists_cons_of_ne_nil hne
  set a := s.attempted user password with ha
  have hnew : (s.attempt user password).conns = (as ++ [a]) :: conns := by
    rw [attempt_conns, hconns, List.modifyHead_cons]
  refine ⟨fun _ => by rw [hnew]; simp, ?_, ?_⟩
  · intro bs hbs b hb
    rw [hnew] at hbs
    rcases List.mem_cons.1 hbs with hbs | hbs
    · subst hbs
      rcases List.mem_append.1 hb with hb | hb
      · exact h.genuine as (by rw [hconns]; simp) b hb
      · rw [List.mem_singleton] at hb
        subst hb; exact attempted_genuine s user password
    · exact h.genuine bs (by rw [hconns]; exact List.mem_cons_of_mem _ hbs) b hb
  · intro hauth
    rw [hnew]
    obtain ⟨hsuccess, -, -, hauth', -⟩ := s.attempted_spec user password
    rw [hauth', Bool.or_eq_true] at hauth
    rcases hauth with hauth | hright
    · -- set before: the attempt that did it is still in the log
      obtain ⟨bs, hbs, b, hb, hres⟩ := h.authenticated hauth
      rw [hconns] at hbs
      rcases List.mem_cons.1 hbs with hbs | hbs
      · subst hbs
        exact ⟨_, List.mem_cons_self, b, List.mem_append_left _ hb, hres⟩
      · exact ⟨bs, List.mem_cons_of_mem _ hbs, b, hb, hres⟩
    · rw [hright, ← ha] at hsuccess
      exact ⟨_, List.mem_cons_self, a, by simp, by simpa [Attempt.success] using hsuccess⟩

/-- **Every step** logs what it attempts. -/
theorem Logged.step (h : s.Logged) (hs : s.step l = some t) : t.Logged := by
  cases step_cases hs with
  | goto hf => exact ⟨fun hp => h.conns (hf.connected hp), h.genuine, h.authenticated⟩
  | created => exact ⟨by simp [Pc.connected], h.genuine, h.authenticated⟩
  | accepted =>
    refine ⟨fun _ => by simp, ?_, ?_⟩
    · intro as has a ha
      rcases List.mem_cons.1 has with has | has
      · subst has; exact absurd ha (by simp)
      · exact h.genuine as has a ha
    · intro hauth
      obtain ⟨as, has, a, ha, hres⟩ := h.authenticated hauth
      exact ⟨as, List.mem_cons_of_mem _ has, a, ha, hres⟩
  | cleanup => exact ⟨by simp [Pc.connected], h.genuine, by simp⟩
  | authNone => exact h
  | authPassword hpc => exact h.attempt hpc _ _
  | channelOpen => exact ⟨h.conns, h.genuine, h.authenticated⟩
  | refused => exact h
  | data => exact ⟨h.conns, h.genuine, h.authenticated⟩

theorem logged_of_reach (h : machine.Reach anyStep s) : s.Logged :=
  h.invariant ⟨by simp [machine, init, Pc.connected], by simp [machine, init], by simp [machine, init]⟩
    fun _ _ _ hl _ hs => hl.step hs

/-- **When three failures lock a connection out**, in every reachable state: exactly if on
no connection the right credentials came after three wrong pairs. -/
theorem lockout_iff (s : State) (h : machine.Reach anyStep s) :
    ((∀ as ∈ s.conns, Lockout as) ∧
      (s.authenticated = true → (∃ as ∈ s.conns, ∃ a ∈ as, a.reply.result = .success) ∧
        ∀ as ∈ s.conns, InTime as)) ↔
    ∀ as ∈ s.conns, NeverLate as := by
  have hl := logged_of_reach h
  constructor
  · intro hlock as has
    exact (lockout_iff_neverLate (hl.genuine as has)).1 (hlock.1 as has)
  · intro hnever
    have hlock : ∀ as ∈ s.conns, Lockout as := fun as has =>
      (lockout_iff_neverLate (hl.genuine as has)).2 (hnever as has)
    exact ⟨hlock, fun hauth => ⟨hl.authenticated hauth, fun as has => (hlock as has).inTime⟩⟩

/-- To the first poll of the wait loop. -/
def toWaitPoll : List Label := connect ++ [.ret true, .ret true, .ret true, .tau]

/-- A wrong password. -/
def strike : Label := .authPassword defaultUsername (bytes "1234")

/-- Four wrong passwords, the fourth in the poll of the third; then another connection, a
wrong password and the right one. -/
def nextConnection : List Label :=
  toWaitPoll ++ [strike, strike, strike, strike, .ret true, .tau, .tau] ++
    [.ret true, .ret true, .tau, .ret true, .ret true, .ret true, .tau] ++
    [strike, .authPassword defaultUsername defaultPassword]

/-- `lockout_iff` at the end of `nextConnection`. -/
theorem lockout_iff_next_connection : ∃ s, machine.Reach anyStep s ∧ s.authenticated = true ∧
    (∃ as ∈ s.conns, as.countP Attempt.failed = 4) ∧ ∀ as ∈ s.conns, Lockout as := by
  have hrun : (machine.exec anyStep machine.init nextConnection).map (fun s => s.authenticated &&
      s.conns.any (·.countP Attempt.failed == 4) &&
      s.conns.all fun as => as.length == 2 || as.all fun a => !a.right) = some true := by
    decide +kernel
  obtain ⟨s, hs, hp⟩ := Machine.Reach.of_exec hrun
  rw [Bool.and_eq_true, Bool.and_eq_true, List.any_eq_true, List.all_eq_true] at hp
  obtain ⟨⟨hauth, as, has, hfour⟩, hall⟩ := hp
  refine ⟨s, hs, hauth, ⟨as, has, by simpa using hfour⟩, ((lockout_iff s hs).2 ?_).1⟩
  intro as has pre a post hsplit hwrong
  rcases Bool.or_eq_true_iff.1 (hall as has) with htwo | hnone
  · -- two attempts are too few for three wrong ones
    have hlen : as.length = 2 := by simpa using htwo
    have hle := List.countP_le_length (p := fun b => !Attempt.right b) (l := pre)
    rw [hsplit, List.length_append, List.length_cons] at hlen
    omega
  · have ha := List.all_eq_true.1 hnone a (by rw [hsplit]; simp)
    simpa using ha

/-- Three wrong passwords and the right one, in one poll. -/
def lateLogin : List Label :=
  toWaitPoll ++ [strike, strike, strike, .authPassword defaultUsername defaultPassword]

/-- The fourth attempt succeeds and sets the flag. -/
theorem late_login_succeeds : ∃ s, machine.Reach Libssh s ∧ s.authenticated = true ∧
    ∃ as ∈ s.conns, ∃ pre a, as = pre ++ [a] ∧ pre.countP Attempt.failed = 3 ∧
      a.reply.result = .success ∧ a.before = false ∧ a.after = true ∧ ¬ Lockout as := by
  have hrun : (machine.exec Libssh machine.init lateLogin).map (fun s =>
      s.authenticated && s.conns.length == 1 && s.conns.all (fun as =>
        (as.take 3).countP Attempt.failed == 3 && (as.drop 3).length == 1 &&
          (as.drop 3).all (fun a => a.success && !a.before && a.after))) = some true := by
    decide +kernel
  obtain ⟨s, hs, hp⟩ := Machine.Reach.of_exec hrun
  simp only [Bool.and_eq_true, beq_iff_eq, List.all_eq_true, Bool.not_eq_true'] at hp
  obtain ⟨⟨hauth, hone⟩, hall⟩ := hp
  obtain ⟨as, has⟩ := List.length_eq_one_iff.1 hone
  have hmem : as ∈ s.conns := by rw [has]; exact List.mem_singleton_self as
  obtain ⟨⟨hcount, hlast⟩, hset⟩ := hall as hmem
  obtain ⟨a, ha⟩ := List.length_eq_one_iff.1 hlast
  obtain ⟨⟨hsuccess, hbefore⟩, hafter⟩ := hset a (by rw [ha]; exact List.mem_singleton_self a)
  have hres : a.reply.result = .success := by simpa [Attempt.success] using hsuccess
  have hsplit : as = as.take 3 ++ [a] := by rw [← ha, List.take_append_drop]
  refine ⟨s, hs, hauth, as, hmem, as.take 3, a, hsplit, hcount, hres, hbefore, hafter, ?_⟩
  intro hlock
  have hdenied := (hlock _ _ [] hsplit (by omega)).1
  rw [hres] at hdenied
  exact absurd hdenied (by simp)

end State

end EspNetwork.Ssh
