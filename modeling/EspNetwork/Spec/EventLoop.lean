import EspNetwork.Lib.Machine

/-!
# The coroutine server's event loop

`EventLoop` of async_server_coroutines.cpp: a FIFO queue of immediate tasks, a heap
of tasks with a time, and one worker thread. Each mutex-protected section is one
step; the reads of the clock and the `notify_one` calls, which are outside the
mutex, are steps or choices of their own.

* `std::condition_variable`: a thread that has pushed still has to notify
  (`unnotified`), a notification reaches a blocked worker (`notified`), and the
  worker then re-evaluates its wait predicate.
* `std::priority_queue` under `std::greater`: any task with the least `when` may be
  on top.
-/

namespace EspNetwork.Async

/-- An entry of the heap. -/
structure ScheduledTask (τ : Type*) where
  when : ℤ
  task : τ
deriving DecidableEq, Repr

/-- Where the worker thread is. -/
inductive Worker (τ : Type*)
  /-- at `while (running)` -/
  | head
  /-- about to take `tasks_mutex` -/
  | lock
  /-- blocked in `wait` (`none`) or in `wait_until` with this deadline -/
  | blocked (deadline : Option ℤ)
  /-- outside the mutex, in `task()` -/
  | exec (task : τ)
  /-- the thread function has returned -/
  | exited
deriving DecidableEq, Repr

structure EventLoop (τ : Type*) where
  immediateTasks : List τ
  scheduledTasks : List (ScheduledTask τ)
  running : Bool
  worker : Worker τ
  /-- `steady_clock::now()` -/
  now : ℤ
  /-- pushes whose `notify_one` has not been called yet -/
  unnotified : ℕ
  /-- a notification has reached the blocked worker -/
  notified : Bool
deriving DecidableEq, Repr

inductive LoopAction (τ : Type*)
  /-- the mutex section of `post` -/
  | post (task : τ)
  /-- the mutex section of `post_delayed`, which read the clock at `called` -/
  | postDelayed (task : τ) (called delay : ℤ)
  /-- the mutex section of `stop` -/
  | stop
  /-- a `notify_one` or `notify_all` call after one of these sections -/
  | notify
  /-- the worker evaluates `while (running)` -/
  | check
  /-- the worker's mutex section, with the task of index `top` on top of the heap -/
  | dequeue (top : ℕ)
  /-- the blocked worker re-evaluates its predicate -/
  | wake
  /-- `wait_until` reaches its deadline -/
  | timeout
  /-- `task()` returns -/
  | finish
  /-- the clock advances -/
  | tick (d : ℕ)
deriving DecidableEq, Repr

/-- The steps of the worker loop itself, the notifications and the clock. -/
def LoopAction.internal {τ : Type*} : LoopAction τ → Bool
  | .notify | .check | .dequeue _ | .wake | .timeout | .tick _ => true
  | .post _ | .postDelayed _ _ _ | .stop | .finish => false

namespace EventLoop

variable {τ : Type*}

/-- The loop after `start()`, the worker thread at its first test. -/
def start (now : ℤ) : EventLoop τ := ⟨[], [], true, .head, now, 0, false⟩

/-- The predicate of both waits, `!immediate_tasks.empty() || !running`. -/
def pred (s : EventLoop τ) : Bool := !s.immediateTasks.isEmpty || !s.running

def post (s : EventLoop τ) (task : τ) : EventLoop τ :=
  { s with immediateTasks := s.immediateTasks ++ [task], unnotified := s.unnotified + 1 }

/-- `when = now() + delay` is computed before the mutex is taken. -/
def postDelayed (s : EventLoop τ) (task : τ) (called delay : ℤ) : EventLoop τ :=
  { s with scheduledTasks := s.scheduledTasks ++ [⟨called + delay, task⟩]
           unnotified := s.unnotified + 1 }

def stop (s : EventLoop τ) : EventLoop τ :=
  { s with running := false, unnotified := s.unnotified + 1 }

/-- A notification is lost when no thread is blocked. -/
def notify (s : EventLoop τ) : EventLoop τ :=
  { s with unnotified := s.unnotified - 1
           notified := match s.worker with | .blocked _ => true | _ => s.notified }

/-- `wait(lock, pred)`: the predicate is evaluated before the thread blocks. -/
def wait (s : EventLoop τ) (deadline : Option ℤ) : EventLoop τ :=
  { s with worker := if s.pred then .head else .blocked deadline }

/-- The worker's mutex section. -/
def dequeue (s : EventLoop τ) (top : ℕ) : Option (EventLoop τ) :=
  match s.immediateTasks with
  | task :: rest => some { s with immediateTasks := rest, worker := .exec task }
  | [] =>
    if s.scheduledTasks.isEmpty then some (s.wait none)
    else do
      let t ← s.scheduledTasks[top]?
      if s.scheduledTasks.all fun u => t.when ≤ u.when then
        if t.when ≤ s.now then
          some { s with scheduledTasks := s.scheduledTasks.eraseIdx top, worker := .exec t.task }
        else some (s.wait (some t.when))
      else none

def step (s : EventLoop τ) : LoopAction τ → Option (EventLoop τ)
  | .post task => some (s.post task)
  | .postDelayed task called delay => if called ≤ s.now then some (s.postDelayed task called delay) else none
  | .stop => some s.stop
  | .notify => if 0 < s.unnotified then some s.notify else none
  | .check =>
    match s.worker with
    | .head => some { s with worker := if s.running then .lock else .exited }
    | _ => none
  | .dequeue top =>
    match s.worker with
    | .lock => s.dequeue top
    | _ => none
  | .wake =>
    match s.worker with
    -- also a spurious wake-up: `notified` need not be set
    | .blocked d => some { s with worker := if s.pred then .head else .blocked d, notified := false }
    | _ => none
  | .timeout =>
    match s.worker with
    | .blocked (some d) => if d ≤ s.now then some { s with worker := .head, notified := false } else none
    | _ => none
  | .finish =>
    match s.worker with
    | .exec _ => some { s with worker := .head }
    | _ => none
  | .tick d => some { s with now := s.now + d }

/-- Any threads post, the worker runs, the clock advances. -/
def machine (τ : Type*) (now : ℤ) : Lts.Machine (EventLoop τ) (LoopAction τ) := ⟨start now, step⟩

/-- All notifications have been issued and processed. -/
def Quiet (s : EventLoop τ) : Prop := s.unnotified = 0 ∧ s.notified = false

/-- The worker does not sleep past a scheduled task. -/
def NoLostWakeUp (s : EventLoop τ) : Prop :=
  match s.worker with
  | .blocked none => s.scheduledTasks = []
  | .blocked (some d) => ∀ t ∈ s.scheduledTasks, d ≤ t.when
  | _ => True

end EventLoop

end EspNetwork.Async
