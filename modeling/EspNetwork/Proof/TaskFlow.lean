import EspNetwork.Proof.WakeUp

/-!
# Where the tasks of an event loop are

A task is queued (in the immediate queue or in the heap) or taken by the worker.

* `EventLoop.step_conserves`: a step keeps the tasks, up to the one it pushes and the
  one that returns.
* `EventLoop.queued_stay`: while the worker runs a task, only pushes change the queues.
-/

namespace EspNetwork.Async.EventLoop

open Lts

variable {τ : Type*} {s t : EventLoop τ} {a : LoopAction τ} {j : τ} {now : ℤ}

/-- The tasks in the two containers. -/
def queued (s : EventLoop τ) : List τ := s.immediateTasks ++ s.scheduledTasks.map (·.task)

/-- The task that the worker has taken. -/
def current (s : EventLoop τ) : List τ :=
  match s.worker with
  | .exec task => [task]
  | _ => []

/-- The task that a step pushes. -/
def pushed : LoopAction τ → List τ
  | .post task => [task]
  | .postDelayed task _ _ => [task]
  | _ => []

/-- The task that returns in a step. -/
def returned (s : EventLoop τ) : LoopAction τ → List τ
  | .finish => s.current
  | _ => []

/-- No task is run outside `exec`. -/
theorem current_eq_nil (h : ∀ j, s.worker ≠ .exec j) : s.current = [] := by
  unfold current
  split
  · rename_i j hj; exact absurd hj (h j)
  · rfl

theorem current_exec (h : s.worker = .exec j) : s.current = [j] := by
  unfold current; rw [h]

/-- A posted task joins the queued ones. -/
theorem queued_post (task : τ) : (s.post task).queued.Perm (task :: s.queued) := by
  simp only [queued, post, List.append_assoc, List.singleton_append]
  exact List.perm_middle

/-- So does a delayed one. -/
theorem queued_postDelayed (task : τ) (called delay : ℤ) :
    (s.postDelayed task called delay).queued.Perm (task :: s.queued) := by
  simp only [queued, postDelayed, List.map_append, List.map_cons, List.map_nil, ← List.append_assoc]
  exact List.perm_append_singleton _ _

theorem current_wait (e : Option ℤ) : (s.wait e).current = [] := by
  apply current_eq_nil
  intro j
  unfold wait
  split <;> simp

/-- **Conservation.** No step loses, invents or copies a task. -/
theorem step_conserves (hs : s.step a = some t) :
    (returned s a ++ (t.current ++ t.queued)).Perm (pushed a ++ (s.current ++ s.queued)) := by
  cases step_cases hs with
  | @post task => exact ((queued_post task).append_left s.current).trans List.perm_middle
  | @postDelayed task called delay =>
    exact ((queued_postDelayed task called delay).append_left s.current).trans List.perm_middle
  | stop | notify | tick => exact List.Perm.refl _
  | check hw | exit hw | woken hw | timeout hw =>
    have hnil : s.current = [] := current_eq_nil (by simp [hw])
    rw [hnil]
    exact List.Perm.refl _
  | asleep => exact List.Perm.refl _
  | wait hw | waitUntil hw =>
    have hnil : s.current = [] := current_eq_nil (by simp [hw])
    rw [current_wait, hnil]
    exact List.Perm.refl _
  | @immediate top task rest hw himm =>
    have hnil : s.current = [] := current_eq_nil (by simp [hw])
    rw [hnil, current_exec (j := task) rfl]
    simp only [returned, pushed, queued, himm]
    exact List.Perm.refl _
  | @due top u hw himm hu =>
    have hnil : s.current = [] := current_eq_nil (by simp [hw])
    rw [hnil, current_exec (j := u.task) rfl]
    simp only [returned, pushed, queued, himm, List.nil_append, List.singleton_append]
    -- the task taken out of the heap is the one that runs
    obtain ⟨hlt, rfl⟩ := List.getElem?_eq_some_iff.1 hu
    exact (List.getElem_cons_eraseIdx_perm hlt).map (·.task)
  | finish => exact List.Perm.refl _

/-- The loop's own steps push nothing and end nothing. -/
theorem pushed_of_internal (ha : a.internal = true) : pushed a = [] ∧ returned s a = [] := by
  cases a with
  | post | postDelayed | stop | finish => exact absurd ha (by simp [LoopAction.internal])
  | notify | check | dequeue | wake | timeout | tick => exact ⟨rfl, rfl⟩

/-- **While a task runs**, a step of the loop itself leaves the queues alone. -/
theorem queued_stay (ha : a.internal = true) (hw : s.worker = .exec j) (hs : s.step a = some t) :
    t.worker = .exec j ∧ t.queued = s.queued := by
  cases step_cases hs with
  | notify | tick => exact ⟨hw, rfl⟩
  | post | postDelayed | stop | finish => exact absurd ha (by simp [LoopAction.internal])
  | check hw' | exit hw' | immediate hw' | due hw' | wait hw' | waitUntil hw' | woken hw' | asleep hw'
  | timeout hw' =>
    rw [hw] at hw'
    exact absurd hw' (by simp)

end EspNetwork.Async.EventLoop
