import EspNetwork.Spec.FileServer

/-!
# What one step of the coroutine server can do

* `EventLoop.step_cases`: the steps of the event loop, with the tests on the way as
  hypotheses.
* `Server.step_cases`: the steps of the server that runs on it.
-/

namespace EspNetwork.Async

open CLib

namespace EventLoop

variable {τ : Type*}

inductive Step (s : EventLoop τ) : LoopAction τ → EventLoop τ → Prop
  | post {task : τ} : Step s (.post task) (s.post task)
  | postDelayed {task : τ} {called delay : ℤ} (hcalled : called ≤ s.now) :
    Step s (.postDelayed task called delay) (s.postDelayed task called delay)
  | stop : Step s .stop s.stop
  | notify (hn : 0 < s.unnotified) : Step s .notify s.notify
  | check (hw : s.worker = .head) (hr : s.running = true) : Step s .check { s with worker := .lock }
  | exit (hw : s.worker = .head) (hr : s.running = false) : Step s .check { s with worker := .exited }
  /-- the oldest immediate task -/
  | immediate {top : ℕ} {task : τ} {rest : List τ} (hw : s.worker = .lock)
      (himm : s.immediateTasks = task :: rest) :
    Step s (.dequeue top) { s with immediateTasks := rest, worker := .exec task }
  /-- a due task with the least `when` -/
  | due {top : ℕ} {u : ScheduledTask τ} (hw : s.worker = .lock) (himm : s.immediateTasks = [])
      (hu : s.scheduledTasks[top]? = some u) (hmin : ∀ v ∈ s.scheduledTasks, u.when ≤ v.when)
      (hdue : u.when ≤ s.now) :
    Step s (.dequeue top) { s with scheduledTasks := s.scheduledTasks.eraseIdx top, worker := .exec u.task }
  /-- no task at all -/
  | wait {top : ℕ} (hw : s.worker = .lock) (himm : s.immediateTasks = []) (hsched : s.scheduledTasks = []) :
    Step s (.dequeue top) (s.wait none)
  /-- no task due -/
  | waitUntil {top : ℕ} {u : ScheduledTask τ} (hw : s.worker = .lock) (himm : s.immediateTasks = [])
      (hu : s.scheduledTasks[top]? = some u) (hmin : ∀ v ∈ s.scheduledTasks, u.when ≤ v.when)
      (hdue : s.now < u.when) :
    Step s (.dequeue top) (s.wait (some u.when))
  | woken {d : Option ℤ} (hw : s.worker = .blocked d) (hp : s.pred = true) :
    Step s .wake { s with worker := .head, notified := false }
  | asleep {d : Option ℤ} (hw : s.worker = .blocked d) (hp : s.pred = false) :
    Step s .wake { s with notified := false }
  | timeout {d : ℤ} (hw : s.worker = .blocked (some d)) (hd : d ≤ s.now) :
    Step s .timeout { s with worker := .head, notified := false }
  | finish {task : τ} (hw : s.worker = .exec task) : Step s .finish { s with worker := .head }
  | tick {n : ℕ} : Step s (.tick n) { s with now := s.now + n }

variable {s t : EventLoop τ} {a : LoopAction τ}

/-- The worker's mutex section. -/
theorem dequeue_cases {top : ℕ} (hw : s.worker = .lock) (hs : s.dequeue top = some t) :
    Step s (.dequeue top) t := by
  unfold dequeue at hs
  split at hs
  · rename_i task rest himm
    simp only [Option.some.injEq] at hs; subst hs
    exact .immediate hw himm
  rename_i himm
  split at hs
  · rename_i hemp
    simp only [Option.some.injEq] at hs; subst hs
    exact .wait hw himm (List.isEmpty_iff.1 hemp)
  obtain ⟨u, hu, hs⟩ := Option.bind_eq_some_iff.1 hs
  split at hs
  · rename_i hmin
    have hle : ∀ v ∈ s.scheduledTasks, u.when ≤ v.when := by simpa using hmin
    split at hs
    · rename_i hdue
      simp only [Option.some.injEq] at hs; subst hs
      exact .due hw himm hu hle hdue
    · rename_i hdue
      simp only [Option.some.injEq] at hs; subst hs
      exact .waitUntil hw himm hu hle (by omega)
  · exact absurd hs (by simp)

/-- A blocked worker that stays blocked is where it was. -/
theorem wake_cases {d : Option ℤ} (hw : s.worker = .blocked d) :
    Step s .wake { s with worker := if s.pred then .head else .blocked d, notified := false } := by
  cases hp : s.pred with
  | true => exact .woken hw hp
  | false =>
    have hsame : ({ s with worker := .blocked d, notified := false } : EventLoop τ) =
        { s with notified := false } := by
      rw [← hw]
    have hstep : Step s .wake { s with notified := false } := .asleep hw hp
    rwa [← hsame] at hstep

/-- **There are no other steps of the loop.** -/
theorem step_cases (hs : s.step a = some t) : Step s a t := by
  cases a with
  | post task =>
    simp only [step, Option.some.injEq] at hs; subst hs
    exact .post
  | postDelayed task called delay =>
    simp only [step, Option.ite_none_right_eq_some, Option.some.injEq] at hs
    obtain ⟨hcalled, hs⟩ := hs
    subst hs; exact .postDelayed hcalled
  | stop =>
    simp only [step, Option.some.injEq] at hs; subst hs
    exact .stop
  | notify =>
    simp only [step, Option.ite_none_right_eq_some, Option.some.injEq] at hs
    obtain ⟨hn, hs⟩ := hs
    subst hs; exact .notify hn
  | check =>
    simp only [step] at hs
    split at hs
    · rename_i hw
      by_cases hr : s.running = true
      · rw [if_pos hr, Option.some.injEq] at hs; subst hs
        exact .check hw hr
      · rw [if_neg hr, Option.some.injEq] at hs; subst hs
        exact .exit hw (by simpa using hr)
    · exact absurd hs (by simp)
  | dequeue top =>
    simp only [step] at hs
    split at hs
    · rename_i hw
      exact dequeue_cases hw hs
    · exact absurd hs (by simp)
  | wake =>
    simp only [step] at hs
    split at hs
    · rename_i d hw
      simp only [Option.some.injEq] at hs; subst hs
      exact wake_cases hw
    · exact absurd hs (by simp)
  | timeout =>
    simp only [step] at hs
    split at hs
    · rename_i d hw
      simp only [Option.ite_none_right_eq_some, Option.some.injEq] at hs
      obtain ⟨hd, hs⟩ := hs
      subst hs; exact .timeout hw hd
    · exact absurd hs (by simp)
  | finish =>
    simp only [step] at hs
    split at hs
    · rename_i task hw
      simp only [Option.some.injEq] at hs; subst hs
      exact .finish hw
    · exact absurd hs (by simp)
  | tick n =>
    simp only [step, Option.some.injEq] at hs; subst hs
    exact .tick

end EventLoop

namespace Server

inductive Step (file : Bytes) (s : Server) : Action → Server → Prop
  | loop {b : LoopAction Job} {l : EventLoop Job} (hb : b.internal = true) (hl : s.loop.step b = some l) :
    Step file s (.loop b) { s with loop := l }
  /-- `handle_client` runs to its first suspension -/
  | accept {sock : ℕ} {l : EventLoop Job} (hsock : ∀ cl ∈ s.clients, cl.isOpen = true → cl.sock ≠ sock)
      (hl : s.loop.step (Point.headers.suspend s.clients.length 0) = some l) :
    Step file s (.accept sock)
      { s with loop := l, clients := s.clients ++ [⟨sock, some .headers, true, [], 0⟩] }
  | sent {fd k : ℕ} {data : Bytes} (hq : s.sending file = some (fd, data)) (hk : k ≤ data.length) :
    Step file s (.send (some k))
      { s with phase := .sent, clients := s.clients.map (Client.accept fd (data.take k)) }
  | sendFailed {fd : ℕ} {data : Bytes} (hq : s.sending file = some (fd, data)) :
    Step file s (.send none) { s with phase := .sent }
  /-- to the next suspension -/
  | suspended {called : ℤ} {c : ℕ} {cl : Client} {p q : Point} {l : EventLoop Job}
      (hr : s.resuming = some c) (hcl : s.clients[c]? = some cl) (hpt : cl.point = some p)
      (hq : resumed file.length p = some q) (hl : s.loop.step (q.suspend c called) = some l) :
    Step file s (.resume called)
      ⟨l, .resumed, s.clients.modify c fun cl => { cl with point := some q }⟩
  /-- to the end -/
  | ended {called : ℤ} {c : ℕ} {cl : Client} {p : Point}
      (hr : s.resuming = some c) (hcl : s.clients[c]? = some cl) (hpt : cl.point = some p)
      (hq : resumed file.length p = none) :
    Step file s (.resume called)
      { s with phase := .resumed
               clients := (s.clients.map (Client.close cl.sock)).modify c fun cl =>
                 { cl with point := none } }
  | finish {l : EventLoop Job} (hph : s.phase = .resumed) (hl : s.loop.step .finish = some l) :
    Step file s .finish { s with loop := l, phase := .fresh }

variable {file : Bytes} {s t : Server} {a : Action}

/-- **There are no other steps of the server.** -/
theorem step_cases (hs : s.step file a = some t) : Step file s a t := by
  cases a with
  | loop b =>
    simp only [step, Option.ite_none_right_eq_some] at hs
    obtain ⟨hb, hs⟩ := hs
    obtain ⟨l, hl, rfl⟩ := Option.map_eq_some_iff.1 hs
    exact .loop hb hl
  | accept sock =>
    simp only [step, Option.ite_none_left_eq_some] at hs
    obtain ⟨hnew, hs⟩ := hs
    obtain ⟨l, hl, rfl⟩ := Option.map_eq_some_iff.1 hs
    refine .accept ?_ hl
    intro cl hcl ho he
    exact hnew (List.any_eq_true.2 ⟨cl, hcl, by simp [ho, he]⟩)
  | send result =>
    obtain ⟨⟨fd, data⟩, hq, hs⟩ := Option.bind_eq_some_iff.1 hs
    cases result with
    | some k =>
      simp only [Option.ite_none_right_eq_some, Option.some.injEq] at hs
      obtain ⟨hk, hs⟩ := hs
      subst hs; exact .sent hq hk
    | none =>
      simp only [Option.some.injEq] at hs; subst hs
      exact .sendFailed hq
  | resume called =>
    obtain ⟨c, hr, hs⟩ := Option.bind_eq_some_iff.1 hs
    obtain ⟨cl, hcl, hs⟩ := Option.bind_eq_some_iff.1 hs
    obtain ⟨p, hpt, hs⟩ := Option.bind_eq_some_iff.1 hs
    split at hs
    · rename_i q hq
      obtain ⟨l, hl, hs⟩ := Option.bind_eq_some_iff.1 hs
      simp only [Option.some.injEq] at hs; subst hs
      exact .suspended hr hcl hpt hq hl
    · rename_i hq
      simp only [Option.some.injEq] at hs; subst hs
      exact .ended hr hcl hpt hq
  | finish =>
    simp only [step, Option.ite_none_right_eq_some] at hs
    obtain ⟨hph, hs⟩ := hs
    obtain ⟨l, hl, rfl⟩ := Option.map_eq_some_iff.1 hs
    exact .finish hph hl

end Server

end EspNetwork.Async
