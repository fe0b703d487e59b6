import EspNetwork.Proof.TaskFlow

/-!
# The order of tasks

A run of the event loop with a record of what was posted, taken and returned.

* `History.record_run`: every run of the loop has such a record.
* `Accounted`: every posted task is in exactly one place and is executed at most once;
  immediate tasks start in the order of their posts; a delayed task starts when its
  time has come, no immediate task waits and no other task of the heap is earlier.
* `Accounted.step`: every step keeps the account.
* `tasks_in_order`: **it holds in every run.**
-/

namespace EspNetwork.Async

open Lts

/-- A `post_delayed` call, which read the clock at `called`. -/
structure DelayedPost (τ : Type*) where
  task : τ
  called : ℤ
  delay : ℤ

/-- The entry that the call pushes. -/
def DelayedPost.entry {τ : Type*} (p : DelayedPost τ) : ScheduledTask τ := ⟨p.called + p.delay, p.task⟩

/-- A task taken out of the heap, and the loop at that moment. -/
structure DelayedStart (τ : Type*) where
  entry : ScheduledTask τ
  before : EventLoop τ

/-- The loop with the record of a run. -/
structure History (τ : Type*) where
  loop : EventLoop τ
  /-- the tasks given to `post`, in the order of its mutex sections -/
  posts : List τ
  delayedPosts : List (DelayedPost τ)
  /-- the tasks taken out of the immediate queue, in order -/
  starts : List τ
  delayedStarts : List (DelayedStart τ)
  /-- all tasks that the worker has taken, in order -/
  taken : List τ
  /-- the tasks that have returned, in order -/
  returned : List τ

namespace History

variable {τ : Type*} {h k : History τ} {a : LoopAction τ} {now : ℤ}

/-- What a worker that has just left its mutex section took out of the heap. -/
def fromHeap (s : EventLoop τ) (top : ℕ) (t : EventLoop τ) : List (DelayedStart τ) :=
  match t.worker with
  | .exec _ => (s.scheduledTasks[top]?).toList.map fun u => ⟨u, s⟩
  | _ => []

/-- The record of one step to the state `t`. -/
def record (h : History τ) (t : EventLoop τ) : LoopAction τ → History τ
  | .post task => { h with loop := t, posts := h.posts ++ [task] }
  | .postDelayed task called delay =>
    { h with loop := t, delayedPosts := h.delayedPosts ++ [⟨task, called, delay⟩] }
  | .dequeue top =>
    match h.loop.immediateTasks with
    | task :: _ => { h with loop := t, starts := h.starts ++ [task], taken := h.taken ++ t.current }
    | [] => { h with loop := t, delayedStarts := h.delayedStarts ++ fromHeap h.loop top t
                     taken := h.taken ++ t.current }
  | .finish => { h with loop := t, returned := h.returned ++ h.loop.current }
  | _ => { h with loop := t }

/-- The event loop with its record. -/
def machine (τ : Type*) (now : ℤ) : Machine (History τ) (LoopAction τ) where
  init := ⟨EventLoop.start now, [], [], [], [], [], []⟩
  step h a := (h.loop.step a).map fun t => h.record t a

theorem record_loop (t : EventLoop τ) (a : LoopAction τ) : (h.record t a).loop = t := by
  cases a with
  | dequeue top => simp only [record]; split <;> rfl
  | _ => rfl

/-- **Every run of the loop has a record.** -/
theorem record_run {ls : List (LoopAction τ)} {s : EventLoop τ}
    (hrun : (EventLoop.machine τ now).Run anyStep (EventLoop.start now) ls s) :
    ∃ h, (machine τ now).Run anyStep (machine τ now).init ls h ∧ h.loop = s := by
  induction hrun with
  | nil => exact ⟨_, .nil, rfl⟩
  | @snoc ls t l u _ _ hs ih =>
    obtain ⟨h, hrun, rfl⟩ := ih
    have hstep : (machine τ now).step h l = some (h.record u l) := by
      show (h.loop.step l).map _ = _
      rw [show h.loop.step l = some u from hs, Option.map_some]
    exact ⟨_, hrun.snoc trivial hstep, record_loop u l⟩

/-- The tasks that are queued or have been taken. -/
def places (h : History τ) : List τ := h.loop.queued ++ h.taken

/-- The tasks that have been posted. -/
def posted (h : History τ) : List τ := h.posts ++ h.delayedPosts.map (·.task)

/-- **The account of a run.** -/
structure Accounted (h : History τ) : Prop where
  /-- every posted task is in exactly one of the queue, the heap and the worker's hands -/
  conserved : h.places.Perm h.posted
  /-- the worker runs what it takes, one task at a time and each once -/
  executed : h.taken = h.returned ++ h.loop.current
  /-- immediate tasks start in the order of their posts -/
  fifo : h.posts = h.starts ++ h.loop.immediateTasks
  /-- the heap holds the delayed posts that have not started -/
  heap : (h.delayedStarts.map (·.entry) ++ h.loop.scheduledTasks).Perm (h.delayedPosts.map DelayedPost.entry)
  /-- a delayed task starts in time and in turn -/
  onTime : ∀ d ∈ h.delayedStarts, d.entry.when ≤ d.before.now ∧ d.before.immediateTasks = [] ∧
    d.entry ∈ d.before.scheduledTasks ∧ ∀ v ∈ d.before.scheduledTasks, d.entry.when ≤ v.when

theorem accounted_init (τ : Type*) (now : ℤ) : Accounted (machine τ now).init where
  conserved := List.Perm.refl _
  executed := rfl
  fifo := rfl
  heap := List.Perm.refl _
  onTime := by intro d hd; cases hd

/-- A step that leaves the queues and the running task alone. -/
theorem Accounted.of_same {t : EventLoop τ} (hi : Accounted h) (himm : t.immediateTasks = h.loop.immediateTasks)
    (hsched : t.scheduledTasks = h.loop.scheduledTasks) (hcur : t.current = h.loop.current) :
    Accounted { h with loop := t } where
  conserved := by
    have hq : t.queued = h.loop.queued := by rw [EventLoop.queued, EventLoop.queued, himm, hsched]
    show (t.queued ++ h.taken).Perm h.posted
    rw [hq]
    exact hi.conserved
  executed := by rw [hcur]; exact hi.executed
  fifo := by rw [himm]; exact hi.fifo
  heap := by rw [hsched]; exact hi.heap
  onTime := hi.onTime

theorem Accounted.post_step (hi : Accounted h) (task : τ) : Accounted (h.record (h.loop.post task) (.post task)) where
  conserved := by
    have hq := (EventLoop.queued_post (s := h.loop) task).append_right h.taken
    have hp : (task :: (h.posts ++ h.delayedPosts.map (·.task))).Perm
        (h.posts ++ [task] ++ h.delayedPosts.map (·.task)) := by
      rw [List.append_assoc]
      exact List.perm_middle.symm
    exact (hq.trans (hi.conserved.cons task)).trans hp
  executed := hi.executed
  fifo := by
    show h.posts ++ [task] = h.starts ++ (h.loop.immediateTasks ++ [task])
    rw [hi.fifo, List.append_assoc]
  heap := hi.heap
  onTime := hi.onTime

theorem Accounted.postDelayed_step (hi : Accounted h) (p : DelayedPost τ) :
    Accounted (h.record (h.loop.postDelayed p.task p.called p.delay) (.postDelayed p.task p.called p.delay)) where
  conserved := by
    have hq := (EventLoop.queued_postDelayed (s := h.loop) p.task p.called p.delay).append_right h.taken
    have hp : (p.task :: h.posted).Perm (h.posts ++ (h.delayedPosts ++ [p]).map (·.task)) := by
      rw [List.map_append, ← List.append_assoc]
      exact (List.perm_append_singleton p.task h.posted).symm
    exact (hq.trans (hi.conserved.cons p.task)).trans hp
  executed := hi.executed
  fifo := hi.fifo
  heap := by
    show (h.delayedStarts.map (·.entry) ++ (h.loop.scheduledTasks ++ [p.entry])).Perm
      ((h.delayedPosts ++ [p]).map DelayedPost.entry)
    rw [← List.append_assoc, List.map_append]
    exact hi.heap.append_right _
  onTime := hi.onTime

/-- Leaving the mutex section, the worker holds what has left the queues. -/
theorem Accounted.dequeue_conserved {top : ℕ} {t : EventLoop τ} (hi : Accounted h) (hw : h.loop.worker = .lock)
    (hs : h.loop.step (.dequeue top) = some t) :
    (t.queued ++ (h.taken ++ t.current)).Perm h.posted ∧ h.taken ++ t.current = h.returned ++ t.current := by
  have hnil : h.loop.current = [] := EventLoop.current_eq_nil (by simp [hw])
  have hcons := EventLoop.step_conserves hs
  simp only [EventLoop.returned, EventLoop.pushed, hnil, List.nil_append] at hcons
  have hex := hi.executed
  rw [hnil, List.append_nil] at hex
  refine ⟨?_, by rw [hex]⟩
  have hmove : (t.queued ++ (h.taken ++ t.current)).Perm (t.current ++ t.queued ++ h.taken) := by
    rw [← List.append_assoc]
    exact List.perm_append_comm.trans (by rw [List.append_assoc])
  exact hmove.trans ((hcons.append_right h.taken).trans hi.conserved)

/-- A task taken from the front of the list of immediate tasks. -/
theorem Accounted.immediate_step {top : ℕ} {t : EventLoop τ} {task : τ} {rest : List τ} (hi : Accounted h)
    (hw : h.loop.worker = .lock) (himm : h.loop.immediateTasks = task :: rest)
    (ht : t = { h.loop with immediateTasks := rest, worker := .exec task })
    (hs : h.loop.step (.dequeue top) = some t) : Accounted (h.record t (.dequeue top)) := by
  obtain ⟨hcons, hex⟩ := hi.dequeue_conserved hw hs
  have hrec : h.record t (.dequeue top) =
      { h with loop := t, starts := h.starts ++ [task], taken := h.taken ++ t.current } := by
    simp only [record, himm]
  rw [hrec]
  refine ⟨hcons, hex, ?_, ?_, hi.onTime⟩
  · subst ht
    show h.posts = h.starts ++ [task] ++ rest
    rw [hi.fifo, himm, List.append_assoc, List.singleton_append]
  · subst ht
    exact hi.heap

/-- What comes off the heap is accounted for if no immediate task waits. -/
theorem Accounted.heap_step {top : ℕ} {t : EventLoop τ} (hi : Accounted h) (hw : h.loop.worker = .lock)
    (himm : h.loop.immediateTasks = []) (himm' : t.immediateTasks = []) (hs : h.loop.step (.dequeue top) = some t)
    (hheap : (((fromHeap h.loop top t).map (·.entry)) ++ t.scheduledTasks).Perm h.loop.scheduledTasks)
    (htime : ∀ d ∈ fromHeap h.loop top t, d.entry.when ≤ d.before.now ∧ d.before.immediateTasks = [] ∧
      d.entry ∈ d.before.scheduledTasks ∧ ∀ v ∈ d.before.scheduledTasks, d.entry.when ≤ v.when) :
    Accounted (h.record t (.dequeue top)) := by
  obtain ⟨hcons, hex⟩ := hi.dequeue_conserved hw hs
  have hrec : h.record t (.dequeue top) =
      { h with loop := t, delayedStarts := h.delayedStarts ++ fromHeap h.loop top t, taken := h.taken ++ t.current } := by
    simp only [record, himm]
  rw [hrec]
  refine ⟨hcons, hex, ?_, ?_, ?_⟩
  · show h.posts = h.starts ++ t.immediateTasks
    rw [himm', hi.fifo, himm]
  · show ((h.delayedStarts ++ fromHeap h.loop top t).map (·.entry) ++ t.scheduledTasks).Perm _
    rw [List.map_append, List.append_assoc]
    exact (hheap.append_left _).trans hi.heap
  · intro d hd
    rcases List.mem_append.1 hd with hd | hd
    · exact hi.onTime d hd
    · exact htime d hd

/-- A worker that goes to wait has taken nothing. -/
theorem fromHeap_wait (s : EventLoop τ) (top : ℕ) (e : Option ℤ) : fromHeap s top (s.wait e) = [] := by
  unfold fromHeap EventLoop.wait
  split
  · rename_i hw
    split at hw <;> simp at hw
  · rfl

/-- **Every step of the loop** keeps the account. -/
theorem Accounted.step {t : EventLoop τ} (hi : Accounted h) (hs : h.loop.step a = some t) : Accounted (h.record t a) := by
  cases EventLoop.step_cases hs with
  | @post task => exact hi.post_step task
  | @postDelayed task called delay => exact hi.postDelayed_step ⟨task, called, delay⟩
  | stop | notify | tick => exact hi.of_same rfl rfl rfl
  | check hw | exit hw | woken hw | timeout hw =>
    have hnil : h.loop.current = [] := EventLoop.current_eq_nil (by simp [hw])
    exact hi.of_same rfl rfl hnil.symm
  | asleep => exact hi.of_same rfl rfl rfl
  | immediate hw himm => exact hi.immediate_step hw himm rfl hs
  | @due top u hw himm hu hmin hdue =>
    have hfrom : fromHeap h.loop top
        { h.loop with scheduledTasks := h.loop.scheduledTasks.eraseIdx top, worker := .exec u.task } =
          [⟨u, h.loop⟩] := by
      simp only [fromHeap, hu, Option.toList_some, List.map_cons, List.map_nil]
    refine hi.heap_step hw himm himm hs ?_ ?_
    · rw [hfrom]
      obtain ⟨hlt, rfl⟩ := List.getElem?_eq_some_iff.1 hu
      exact List.getElem_cons_eraseIdx_perm hlt
    · rw [hfrom]
      intro d hd
      obtain rfl := List.mem_singleton.1 hd
      exact ⟨hdue, himm, List.mem_of_getElem? hu, hmin⟩
  | wait hw himm | waitUntil hw himm =>
    refine hi.heap_step hw himm himm hs ?_ ?_
    · rw [fromHeap_wait]
      exact List.Perm.refl _
    · rw [fromHeap_wait]
      intro d hd
      cases hd
  | finish hw =>
    have hnil : EventLoop.current { h.loop with worker := .head } = [] := EventLoop.current_eq_nil (by simp)
    refine ⟨hi.conserved, ?_, hi.fifo, hi.heap, hi.onTime⟩
    show h.taken = h.returned ++ h.loop.current ++ EventLoop.current { h.loop with worker := .head }
    rw [hnil, List.append_nil, hi.executed]

/-- The account of every run. -/
theorem accounted_of_reach (hr : (machine τ now).Reach anyStep h) : Accounted h := by
  refine hr.invariant (accounted_init τ now) ?_
  intro s l t hi _ hs
  obtain ⟨u, hu, rfl⟩ := Option.map_eq_some_iff.1 hs
  exact hi.step hu

end History

/-- **Tasks are conserved and run in order.** Every run of the event loop has a record,
and at every moment of every run the account holds: every posted task is in exactly
one place, is run at most once and leaves the queues to be run; immediate tasks start in
the order of their posts; a delayed task starts not before its time, with no immediate
task waiting, and as one with the least `when`. If all posted tasks are different, none
is in two places. -/
theorem tasks_in_order (τ : Type*) (now : ℤ) :
    (∀ ls s, (EventLoop.machine τ now).Run anyStep (EventLoop.start now) ls s →
      ∃ h, (History.machine τ now).Run anyStep (History.machine τ now).init ls h ∧ h.loop = s) ∧
    (∀ h, (History.machine τ now).Reach anyStep h →
      h.Accounted ∧ (h.posted.Nodup → (h.loop.queued ++ h.returned ++ h.loop.current).Nodup)) := by
  refine ⟨fun ls s hrun => History.record_run hrun, ?_⟩
  intro h hr
  have hi := History.accounted_of_reach hr
  refine ⟨hi, fun hnd => ?_⟩
  rw [List.append_assoc, ← hi.executed]
  exact hi.conserved.nodup_iff.2 hnd

end EspNetwork.Async
