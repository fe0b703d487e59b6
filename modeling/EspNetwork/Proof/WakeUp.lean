import EspNetwork.Proof.AsyncStep

/-!
# Wake-ups of the event loop's worker

The wait predicate looks at the immediate queue and at `running`, not at the heap.

* `EventLoop.not_pred_of_quiet`: in every run, a worker that sleeps through all
  notifications has no immediate task and has not been stopped.
* `EventLoop.noLostWakeUp_of_inTime`: a run in which no delayed task is pushed
  behind a sleeping worker's back loses no wake-up.
* `EventLoop.lost_of_not_inTime`: any other push loses one.
-/

namespace EspNetwork.Async.EventLoop

open Lts

variable {τ : Type*} {s t : EventLoop τ} {a : LoopAction τ} {d : Option ℤ} {now : ℤ}

theorem pred_eq_false : s.pred = false ↔ s.immediateTasks = [] ∧ s.running = true := by
  simp [pred]

/-- A thread that blocks has evaluated its predicate to `false`. -/
theorem wait_blocked {e : Option ℤ} (h : (s.wait e).worker = .blocked d) : s.pred = false ∧ d = e := by
  unfold wait at h
  cases hp : s.pred with
  | true => simp [hp] at h
  | false =>
    simp only [hp, Bool.false_eq_true, if_false, Worker.blocked.injEq] at h
    exact ⟨rfl, h.symm⟩

theorem noLostWakeUp_untimed (hb : s.worker = .blocked none) :
    s.NoLostWakeUp ↔ s.scheduledTasks = [] := by
  unfold NoLostWakeUp; rw [hb]

theorem noLostWakeUp_timed {e : ℤ} (hb : s.worker = .blocked (some e)) :
    s.NoLostWakeUp ↔ ∀ t ∈ s.scheduledTasks, e ≤ t.when := by
  unfold NoLostWakeUp; rw [hb]

/-! ## Notifications -/

/-- A blocked worker whose predicate has become true is going to be told. -/
def Told (s : EventLoop τ) : Prop :=
  ∀ d, s.worker = .blocked d → s.pred = true → 0 < s.unnotified ∨ s.notified = true

/-- A blocked worker whose predicate is false has the right deadline. -/
def Armed (s : EventLoop τ) : Prop :=
  ∀ d, s.worker = .blocked d → s.pred = false → s.NoLostWakeUp

theorem told_start : Told (start now : EventLoop τ) := by
  intro d h; cases h

theorem armed_start : Armed (start now : EventLoop τ) := by
  intro d h; cases h

/-- Every step that makes the predicate true is followed by a notification. -/
theorem Told.step (h : Told s) (hs : s.step a = some t) : Told t := by
  intro d hb hp
  cases step_cases hs with
  | post | postDelayed | stop => exact .inl (Nat.succ_pos _)
  | notify hn =>
    right
    have hw : s.worker = .blocked d := hb
    simp only [EventLoop.notify, hw]
  | wait | waitUntil =>
    -- a thread that blocks has found the predicate false
    have hps : s.pred = true := hp
    rw [(wait_blocked hb).1] at hps
    exact absurd hps (by simp)
  | asleep hw hps =>
    have hp' : s.pred = true := hp
    rw [hps] at hp'
    exact absurd hp' (by simp)
  | tick => exact h d hb hp
  | check | exit | immediate | due | woken | timeout | finish => exact absurd hb (by simp)

/-- A worker that is not asleep, or wakes up by the time `w` anyway. -/
def upBy (s : EventLoop τ) (w : ℤ) : Prop :=
  match s.worker with
  | .blocked none => False
  | .blocked (some d) => d ≤ w
  | _ => True

/-- The pushes of delayed tasks that a sleeping worker does not miss. -/
def InTime (s : EventLoop τ) : LoopAction τ → Prop
  | .postDelayed _ called delay => s.pred = true ∨ s.upBy (called + delay)
  | _ => True

/-- A sleeping worker that is up by the time of a pushed task keeps the right deadline. -/
theorem armed_postDelayed {task : τ} {called delay : ℤ} (h : Armed s) (hw : s.worker = .blocked d)
    (hp : s.pred = false) (hup : s.upBy (called + delay)) :
    (s.postDelayed task called delay).NoLostWakeUp := by
  have hold := h d hw hp
  have hb : (s.postDelayed task called delay).worker = .blocked d := hw
  unfold upBy at hup
  rw [hw] at hup
  cases d with
  | none => exact hup.elim
  | some d =>
    rw [noLostWakeUp_timed hw] at hold
    rw [noLostWakeUp_timed hb]
    intro u hu
    rcases List.mem_append.1 hu with hu | hu
    · exact hold u hu
    · rw [List.mem_singleton.1 hu]; exact hup

theorem Armed.step (h : Armed s) (hg : s.InTime a) (hs : s.step a = some t) : Armed t := by
  intro d hb hp
  cases step_cases hs with
  | post => simp [pred, EventLoop.post] at hp
  | stop => simp [pred, EventLoop.stop] at hp
  | @postDelayed task called delay =>
    have hps : s.pred = false := hp
    have hup : s.upBy (called + delay) := hg.resolve_left (by rw [hps]; decide)
    exact armed_postDelayed h hb hps hup
  | wait hw himm hsched =>
    obtain ⟨-, rfl⟩ := wait_blocked hb
    exact (noLostWakeUp_untimed hb).2 hsched
  | waitUntil hw himm hu hmin =>
    obtain ⟨-, rfl⟩ := wait_blocked hb
    exact (noLostWakeUp_timed hb).2 hmin
  | notify | tick | asleep => exact h d hb hp
  | check | exit | immediate | due | woken | timeout | finish => exact absurd hb (by simp)

/-! ## Runs -/

variable {G : EventLoop τ → LoopAction τ → Prop}

theorem told_of_reach (h : (machine τ now).Reach G s) : Told s :=
  h.invariant told_start fun _ _ _ hp _ hs => hp.step hs

/-- **Immediate tasks and `stop` are never missed.** In every run, once all notifications
have been processed a sleeping worker has nothing to do now. -/
theorem not_pred_of_quiet (h : (machine τ now).Reach anyStep s) (hq : s.Quiet)
    (hb : s.worker = .blocked d) : s.immediateTasks = [] ∧ s.running = true := by
  rw [← pred_eq_false, ← Bool.not_eq_true]
  intro hp
  obtain ⟨h0, h1⟩ := hq
  rcases told_of_reach h d hb hp with hn | hn
  · omega
  · rw [h1] at hn; cases hn

/-- **No wake-up is lost** in a run whose delayed tasks are all pushed in time. -/
theorem noLostWakeUp_of_inTime (now : ℤ) (s : EventLoop τ) (h : (machine τ now).Reach InTime s)
    (hq : s.Quiet) : s.NoLostWakeUp := by
  have harmed : Armed s := h.invariant armed_start fun _ _ _ hp hg hs => hp.step hg hs
  cases hb : s.worker with
  | blocked d =>
    obtain ⟨himm, hrun⟩ := not_pred_of_quiet (h.mono fun _ _ _ => trivial) hq hb
    exact harmed d hb (pred_eq_false.2 ⟨himm, hrun⟩)
  | _ => unfold NoLostWakeUp; rw [hb]; trivial

/-- `noLostWakeUp_of_inTime` when the task is pushed before the worker looks at the heap. -/
theorem noLostWakeUp_of_inTime_early :
    (⟨[], [⟨200, ()⟩], true, .blocked (some 200), 0, 0, false⟩ : EventLoop Unit).NoLostWakeUp :=
  noLostWakeUp_of_inTime 0 _
    ((((Machine.Reach.init.step (l := .check) trivial rfl).step
      (l := .postDelayed () 0 200) (.inr trivial) rfl).step (l := .notify) trivial rfl).step
      (l := .dequeue 0) trivial rfl)
    ⟨rfl, rfl⟩

/-- A second thread pushes while the worker is in the untimed wait. The notification
wakes the worker, its predicate is false, and it blocks again. -/
theorem lost_wakeUp : ∃ s : EventLoop Unit, (machine Unit 0).Reach anyStep s ∧ s.Quiet ∧ ¬ s.NoLostWakeUp := by
  have h : (machine Unit 0).Reach anyStep ⟨[], [⟨200, ()⟩], true, .blocked none, 0, 0, false⟩ :=
    ⟨[.check, .dequeue 0, .postDelayed () 0 200, .notify, .wake], Machine.Run.of_exec rfl⟩
  refine ⟨_, h, ⟨rfl, rfl⟩, ?_⟩
  intro hn
  cases (hn : _ = [])

/-! ## The condition is exact -/

/-- All notifications issued and processed, nothing else changed. -/
def settled (s : EventLoop τ) : EventLoop τ := { s with unnotified := 0, notified := false }

theorem noLostWakeUp_settled : s.settled.NoLostWakeUp ↔ s.NoLostWakeUp := Iff.rfl

/-- A worker with nothing to do sleeps through all notifications. -/
theorem run_settled (now : ℤ) (hb : s.worker = .blocked d) (hp : s.pred = false) :
    ∃ ls, (machine τ now).Run anyStep s ls s.settled := by
  generalize hn : s.unnotified = n
  induction n generalizing s with
  | zero =>
    refine ⟨[.wake], .single trivial ?_⟩
    obtain ⟨imm, sched, run, w, clock, un, noti⟩ := s
    simp only at hb hn
    subst hb hn
    simp only [machine, step, hp]
    rfl
  | succ n ih =>
    have hs : s.step .notify = some s.notify := by
      simp only [step]; rw [if_pos (by omega)]
    obtain ⟨ls, h⟩ := ih (s := s.notify) hb hp (by simp [notify, hn])
    exact ⟨.notify :: ls, .cons trivial hs h⟩

/-- **Any other push loses the wake-up.** After the notifications the worker is asleep
for longer than the pushed task allows. -/
theorem lost_of_not_inTime (hs : s.step a = some t) (hg : ¬ s.InTime a) : ∃ ls u,
    (machine τ now).Run anyStep t ls u ∧ u.Quiet ∧ ¬ u.NoLostWakeUp := by
  cases a with
  | postDelayed task called delay =>
    obtain ⟨hp, hup⟩ := not_or.1 hg
    have hp' : s.pred = false := by simpa using hp
    cases step_cases hs
    unfold upBy at hup
    split at hup
    · rename_i hw
      have hw' : (s.postDelayed task called delay).worker = .blocked none := hw
      obtain ⟨ls, h⟩ := run_settled now hw' hp'
      refine ⟨ls, _, h, ⟨rfl, rfl⟩, ?_⟩
      rw [noLostWakeUp_settled, noLostWakeUp_untimed hw']
      simp [postDelayed]
    · rename_i d hw
      have hw' : (s.postDelayed task called delay).worker = .blocked (some d) := hw
      obtain ⟨ls, h⟩ := run_settled now hw' hp'
      refine ⟨ls, _, h, ⟨rfl, rfl⟩, ?_⟩
      rw [noLostWakeUp_settled, noLostWakeUp_timed hw']
      -- the pushed task is due before the deadline
      intro hall
      exact hup (hall ⟨called + delay, task⟩ (by simp [postDelayed]))
    · exact absurd trivial hup
  | _ => exact absurd trivial hg

end EspNetwork.Async.EventLoop
