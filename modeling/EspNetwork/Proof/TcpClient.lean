import EspNetwork.Spec.TcpClient

/-!
# What a lost link does to later attempts

Nothing reads `disconnect_fd`, so its counter is the number of lost links, and every
attempt that waits in `select` after the first one is abandoned.

* `step_counts`: what one step does to the counter and to the two counts.
* `run_counts`: after a run they are read off its events.
* `abandoned_iff`: **the attempts abandoned are no more than the links lost iff few
  enough attempts waited in `select` after the first loss**, and an attempt that waits
  gets through iff no link has been lost.
-/

namespace EspNetwork.TcpClient

open Lts

variable {s t : State} {a : Action} {ls : List Action}

/-- A lost link. -/
def Action.isLoss : Action → Bool
  | .event .disconnected => true
  | _ => false

/-- A `select` that returns with a ready descriptor. -/
def Action.isReady : Action → Bool
  | .select (.ready _) => true
  | _ => false

/-- The links lost in a run. -/
def losses (ls : List Action) : ℕ := ls.countP Action.isLoss

/-- The attempts whose `select` became ready after the first lost link. -/
def lateReady (ls : List Action) : ℕ := (ls.dropWhile fun a => !a.isLoss).countP Action.isReady

theorem losses_snoc (ls : List Action) (a : Action) :
    losses (ls ++ [a]) = losses ls + if a.isLoss then 1 else 0 := by
  simp [losses, List.countP_append, List.countP_singleton]

/-- A step counts as late iff a link has been lost before it. -/
theorem lateReady_snoc (ls : List Action) (a : Action) :
    lateReady (ls ++ [a]) = lateReady ls + if 0 < losses ls ∧ a.isReady then 1 else 0 := by
  by_cases h : ∃ b ∈ ls, b.isLoss = true
  · have hpos : 0 < losses ls := List.countP_pos_iff.2 h
    have hdrop : (ls ++ [a]).dropWhile (fun a => !a.isLoss) = ls.dropWhile (fun a => !a.isLoss) ++ [a] := by
      rw [List.dropWhile_append, if_neg]
      obtain ⟨b, hb, hl⟩ := h
      rw [List.isEmpty_iff, List.dropWhile_eq_nil_iff]
      intro hall
      have := hall b hb
      rw [hl] at this
      cases this
    simp [lateReady, hdrop, List.countP_append, List.countP_singleton, hpos]
  · have hzero : losses ls = 0 := by
      unfold losses
      rw [List.countP_eq_zero]
      exact fun b hb hl => h ⟨b, hb, hl⟩
    have hnil : ls.dropWhile (fun a => !a.isLoss) = [] := by
      rw [List.dropWhile_eq_nil_iff]
      intro b hb
      cases hl : b.isLoss with
      | false => rfl
      | true => exact absurd ⟨b, hb, hl⟩ h
    have hlate : (ls ++ [a]).dropWhile (fun a => !a.isLoss) = [a].dropWhile (fun a => !a.isLoss) := by
      rw [List.dropWhile_append, hnil]
      rfl
    -- a lost link is not itself a `select`
    have hone : ([a].dropWhile fun a => !a.isLoss).countP Action.isReady = 0 := by
      cases hl : a.isLoss with
      | false => simp [hl]
      | true =>
        have hr : a.isReady = false := by
          unfold Action.isLoss at hl
          split at hl
          · rfl
          · cases hl
        simp [hl, hr]
    simp [lateReady, hlate, hone, hnil, hzero]

/-! ## One step -/

/-- `select` with ready descriptors abandons the attempt iff the eventfd has been written. -/
theorem afterSelect_ready {sock : ℕ} {w : Bool} (h : s.afterSelect sock (.ready w) = some t) :
    t.disconnectFd = s.disconnectFd ∧ t.disconnects = s.disconnects ∧
      t.abandoned = s.abandoned + (if 0 < s.disconnectFd then 1 else 0) ∧
      t.pc = if 0 < s.disconnectFd then .socket else .getsockopt sock := by
  simp only [State.afterSelect] at h
  split at h
  · rename_i hfd
    simp only [Option.some.injEq] at h
    subst h
    have hpos := Nat.pos_of_ne_zero hfd
    simp [hpos]
  · rename_i hfd
    simp only [Option.ite_none_right_eq_some, Option.some.injEq] at h
    obtain ⟨-, rfl⟩ := h
    have hzero : s.disconnectFd = 0 := by omega
    simp [hzero]

/-- A call other than a ready `select` only moves the task on. -/
theorem counts_pc {pc : Pc} (h : some { s with pc } = some t) (hl : a.isLoss = false) (hr : a.isReady = false) :
    t.disconnectFd = s.disconnectFd + (if a.isLoss then 1 else 0) ∧
    t.disconnects = s.disconnects + (if a.isLoss then 1 else 0) ∧
    t.abandoned = s.abandoned + (if 0 < s.disconnectFd ∧ a.isReady then 1 else 0) := by
  rw [Option.some.injEq] at h
  subst h
  simp [hl, hr]

/-- **What a step does to the counts.** -/
theorem step_counts (h : s.step a = some t) :
    t.disconnectFd = s.disconnectFd + (if a.isLoss then 1 else 0) ∧
    t.disconnects = s.disconnects + (if a.isLoss then 1 else 0) ∧
    t.abandoned = s.abandoned + (if 0 < s.disconnectFd ∧ a.isReady then 1 else 0) := by
  cases a with
  | event e =>
    simp only [State.step, Option.some.injEq] at h
    subst h
    cases e <;> simp [State.ethEventHandler, Action.isLoss, Action.isReady]
  | select r =>
    simp only [State.step] at h
    split at h
    · cases r with
      | error => exact counts_pc h rfl rfl
      | timeout =>
        simp only [State.afterSelect, Option.ite_none_right_eq_some] at h
        exact counts_pc h.2 rfl rfl
      | ready w =>
        obtain ⟨hfd, hd, ha, -⟩ := afterSelect_ready h
        simp [Action.isLoss, Action.isReady, hfd, hd, ha]
    · cases h
  | socket r =>
    simp only [State.step] at h
    split at h
    · exact counts_pc h rfl rfl
    · exact counts_pc h rfl rfl
    · cases h
  | connect r =>
    simp only [State.step] at h
    split at h
    · cases r <;> exact counts_pc h rfl rfl
    · cases h
  | fcntl r | getsockopt r | send r =>
    simp only [State.step] at h
    split at h
    · exact counts_pc h rfl rfl
    · cases h

/-! ## A whole run -/

/-- **The counter of the eventfd is the number of lost links**, and every attempt that
waited after the first of them has been abandoned. -/
theorem run_counts (h : State.machine.Run anyStep State.machine.init ls s) :
    s.disconnectFd = losses ls ∧ s.disconnects = losses ls ∧ s.abandoned = lateReady ls := by
  induction h with
  | nil => exact ⟨rfl, rfl, rfl⟩
  | snoc _ _ hs ih =>
    obtain ⟨hfd, hd, ha⟩ := ih
    obtain ⟨hfd', hd', ha'⟩ := step_counts hs
    rw [losses_snoc, lateReady_snoc, hfd', hd', ha', hfd, hd, ha]
    exact ⟨rfl, rfl, rfl⟩

/-- **One lost link cancels more than one attempt** exactly when more attempts wait in
`select` after the first loss than links are lost: the attempts abandoned are at most the
lost links iff the ready `select`s since the first of them are. And an attempt whose
`select` becomes ready goes on to the connected path iff no link has been lost so far. -/
theorem abandoned_iff (ls : List Action) (s : State) (h : State.machine.Run anyStep State.machine.init ls s) :
    (s.abandoned ≤ s.disconnects ↔ lateReady ls ≤ losses ls) ∧
    (∀ sock w t, s.pc = .select sock → s.step (.select (.ready w)) = some t →
      (t.pc = .getsockopt sock ↔ losses ls = 0)) := by
  obtain ⟨hfd, hd, ha⟩ := run_counts h
  refine ⟨by rw [ha, hd], ?_⟩
  intro sock w t hpc hs
  simp only [State.step, hpc] at hs
  obtain ⟨-, -, -, hpc'⟩ := afterSelect_ready hs
  rw [hpc', hfd]
  by_cases hpos : 0 < losses ls
  · rw [if_pos hpos]
    exact iff_of_false (by simp) (by omega)
  · rw [if_neg hpos]
    exact iff_of_true rfl (by omega)

/-- One attempt that waits: `socket`, `fcntl`, `connect`, and `select` reports the socket writable. -/
def attempt (sock : ℕ) : List Action :=
  [.socket (some sock), .fcntl true, .connect .inProgress, .select (.ready true)]

/-- `abandoned_iff` after one lost link and one attempt. -/
theorem abandoned_iff_one : ∃ s, State.machine.Run anyStep State.machine.init (.event .disconnected :: attempt 3) s ∧
    s.abandoned ≤ s.disconnects := by
  have hrun : (State.machine.exec anyStep State.machine.init (.event .disconnected :: attempt 3)).isSome := by decide
  obtain ⟨s, hs⟩ := Option.isSome_iff_exists.1 hrun
  have hr := Machine.Run.of_exec hs
  exact ⟨s, hr, (abandoned_iff _ s hr).1.2 (by decide)⟩

/-- The link is lost once and comes back; both later attempts find the socket writable
and are abandoned. -/
theorem abandoned_twice : ∃ s, State.machine.Run anyStep State.machine.init
    ([.event .disconnected, .event .connected] ++ attempt 3 ++ attempt 4) s ∧
    s.disconnects = 1 ∧ s.abandoned = 2 ∧ s.pc = .socket := by
  have hrun : (State.machine.exec anyStep State.machine.init
      ([.event .disconnected, .event .connected] ++ attempt 3 ++ attempt 4)) = some ⟨.socket, 1, 1, 2⟩ := by decide
  exact ⟨_, Machine.Run.of_exec hrun, rfl, rfl, rfl⟩

end EspNetwork.TcpClient
