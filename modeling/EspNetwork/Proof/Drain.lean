import EspNetwork.Proof.Responses

/-!
# The coroutine server always gets on

* `EventLoop.run_head`, `EventLoop.run_awake`: with a task queued, the worker loop gets
  to run one, whatever it is doing.
* `Server.loop_reach`: the server's loop is a run of the event loop in which delayed
  tasks are only pushed by the worker itself, so no wake-up is lost.
* `Server.exists_drained`: from every reachable state, worker and clock steps alone
  finish every client.
-/

namespace EspNetwork.Async

open CLib Lts

namespace EventLoop

variable {τ : Type*} {s t : EventLoop τ} {a : LoopAction τ} {d : Option ℤ} {now : ℤ}

/-- Steps of the loop itself. -/
def Internal (_ : EventLoop τ) (a : LoopAction τ) : Prop := a.internal = true

theorem exists_least {xs : List (ScheduledTask τ)} (h : xs ≠ []) :
    ∃ (i : ℕ) (u : ScheduledTask τ), xs[i]? = some u ∧ ∀ v ∈ xs, u.when ≤ v.when := by
  induction xs with
  | nil => exact absurd rfl h
  | cons x xs ih =>
    by_cases hxs : xs = []
    · subst hxs
      exact ⟨0, x, rfl, by simp⟩
    obtain ⟨i, u, hu, hmin⟩ := ih hxs
    by_cases hle : x.when ≤ u.when
    · refine ⟨0, x, rfl, ?_⟩
      intro v hv
      rcases List.mem_cons.1 hv with rfl | hv
      · exact le_rfl
      · exact hle.trans (hmin v hv)
    · refine ⟨i + 1, u, hu, ?_⟩
      intro v hv
      rcases List.mem_cons.1 hv with rfl | hv
      · omega
      · exact hmin v hv

theorem run_internal (now : ℤ) (a : LoopAction τ) (ha : a.internal = true) (hs : s.step a = some t) :
    (machine τ now).Run Internal s [a] t := .single ha hs

/-- The clock can be advanced to any time. -/
theorem run_tick (now : ℤ) (s : EventLoop τ) (e : ℤ) : ∃ n : ℕ, e ≤ s.now + n ∧
    (machine τ now).Run Internal s [.tick n] { s with now := s.now + n } :=
  ⟨(e - s.now).toNat, by omega, run_internal now (.tick (e - s.now).toNat) rfl rfl⟩

/-- With a task queued, the worker's mutex section gets to take one. -/
theorem run_lock (now : ℤ) (hw : s.worker = .lock) (hq : s.queued ≠ []) :
    ∃ ls t j, (machine τ now).Run Internal s ls t ∧ t.worker = .exec j := by
  cases himm : s.immediateTasks with
  | cons task rest =>
    refine ⟨_, { s with immediateTasks := rest, worker := .exec task }, task,
      run_internal now (.dequeue 0) rfl ?_, rfl⟩
    simp only [step, hw, dequeue, himm]
  | nil =>
    have hsched : s.scheduledTasks ≠ [] := by
      intro h0; exact hq (by simp [queued, himm, h0])
    obtain ⟨i, u, hu, hmin⟩ := exists_least hsched
    obtain ⟨n, hn, htick⟩ := run_tick now s u.when
    refine ⟨_, { s with scheduledTasks := s.scheduledTasks.eraseIdx i, worker := .exec u.task
                        now := s.now + n }, u.task,
      htick.append (run_internal now (.dequeue i) rfl ?_), rfl⟩
    have hall : (s.scheduledTasks.all fun v => u.when ≤ v.when) = true := by simpa using hmin
    have hemp : s.scheduledTasks.isEmpty = false := by simpa using hsched
    simp only [step, hw, dequeue, himm, hemp, Bool.false_eq_true, if_false, hu,
      Option.bind_eq_bind, Option.bind_some, hall, if_true]
    exact if_pos hn

/-- **From the loop's test** the worker gets to a task. -/
theorem run_head (now : ℤ) (hw : s.worker = .head) (hr : s.running = true) (hq : s.queued ≠ []) :
    ∃ ls t j, (machine τ now).Run Internal s ls t ∧ t.worker = .exec j := by
  have h1 : (machine τ now).Run Internal s [.check] { s with worker := .lock } := by
    refine run_internal now .check rfl ?_
    simp only [step, hw, hr, if_true]
  obtain ⟨ls, t, j, hrun, hj⟩ := run_lock (s := { s with worker := .lock }) now rfl hq
  exact ⟨_, t, j, h1.append hrun, hj⟩

/-- **From a wait** the worker gets to the loop's test. -/
theorem run_awake (now : ℤ) (hw : s.worker = .blocked d) (ha : Armed s) (hq : s.queued ≠ []) :
    ∃ ls t, (machine τ now).Run Internal s ls t ∧ t.worker = .head ∧ t.running = s.running ∧
      t.queued = s.queued := by
  cases hp : s.pred with
  | true =>
    refine ⟨_, { s with worker := .head, notified := false },
      run_internal now .wake rfl ?_, rfl, rfl, rfl⟩
    simp only [step, hw, hp, if_true]
  | false =>
    obtain ⟨himm, -⟩ := pred_eq_false.1 hp
    have hsched : s.scheduledTasks ≠ [] := by
      intro h0; exact hq (by simp [queued, himm, h0])
    have hok := ha d hw hp
    cases d with
    | none => exact absurd ((noLostWakeUp_untimed hw).1 hok) hsched
    | some e =>
      obtain ⟨n, hn, htick⟩ := run_tick now s e
      refine ⟨_, { s with worker := .head, now := s.now + n, notified := false },
        htick.append (run_internal now .timeout rfl ?_), rfl, rfl, rfl⟩
      simp only [step, hw, if_pos hn]

/-- **With a task queued** the loop gets to run one, wherever the worker is. -/
theorem run_task (now : ℤ) (hr : s.running = true) (hx : s.worker ≠ .exited) (ha : Armed s)
    (hw : ∀ j, s.worker ≠ .exec j) (hq : s.queued ≠ []) :
    ∃ ls t j, (machine τ now).Run Internal s ls t ∧ t.worker = .exec j := by
  cases hs : s.worker with
  | exec j => exact absurd hs (hw j)
  | exited => exact absurd hs hx
  | head => exact run_head now hs hr hq
  | lock => exact run_lock now hs hq
  | blocked d =>
    obtain ⟨ks, t, hk, hw', hr', hq'⟩ := run_awake now hs ha hq
    obtain ⟨ks', u, j, hk', hj⟩ := run_head now hw' (hr'.trans hr) (hq' ▸ hq)
    exact ⟨_, u, j, hk.append hk', hj⟩

/-- A run without `stop` whose delayed tasks are pushed in time. -/
def Unstopped (s : EventLoop τ) (a : LoopAction τ) : Prop := s.InTime a ∧ a ≠ .stop

/-- Only `stop` stops the loop. -/
theorem step_running (ha : a ≠ .stop) (hs : s.step a = some t) : t.running = s.running := by
  cases step_cases hs with
  | stop => exact absurd rfl ha
  | _ => rfl

/-- A loop that has not been stopped does not exit. -/
theorem step_not_exited (hr : s.running = true) (hx : s.worker ≠ .exited) (hs : s.step a = some t) :
    t.worker ≠ .exited := by
  have hwait : ∀ e, (s.wait e).worker ≠ .exited := by
    intro e
    unfold EventLoop.wait
    split <;> simp
  cases step_cases hs with
  | exit hw hr' =>
    rw [hr] at hr'
    exact absurd hr' (by simp)
  | wait | waitUntil => exact hwait _
  | post | postDelayed | stop | notify | asleep | tick => exact hx
  | check | immediate | due | woken | timeout | finish => simp

/-- The loop still runs and never sleeps past a task. -/
theorem unstopped_of_reach (h : (machine τ now).Reach Unstopped s) :
    s.running = true ∧ s.worker ≠ .exited ∧ Armed s := by
  apply h.invariant (P := fun s => s.running = true ∧ s.worker ≠ .exited ∧ Armed s)
  · refine ⟨rfl, ?_, armed_start⟩
    simp [machine, start]
  · intro s a t hs hg ht
    obtain ⟨hr, hx, ha⟩ := hs
    exact ⟨(step_running hg.2 ht).trans hr, step_not_exited hr hx ht, ha.step hg.1 ht⟩

end EventLoop

namespace Server

variable {file : Bytes} {s t : Server} {a : Action} {cl : Client} {p : Point} {c : ℕ} {now : ℤ}
  {l l' : EventLoop Job} {ls : List Action} {ks : List (LoopAction Job)} {W : ℕ → Prop}

/-! ## The server's event loop -/

/-- A running function is the one the worker has taken. -/
theorem resuming_exec (h : s.resuming = some c) : ∃ j, s.loop.worker = .exec j := by
  obtain ⟨j, -, hw, -⟩ := resuming_eq_some h
  exact ⟨j, hw⟩

/-- **The server's loop is a run of the event loop.** Delayed tasks are pushed by the worker
itself, which is then not asleep. -/
theorem loop_reach {G : Server → Action → Prop} (h : (machine file now).Reach G s) :
    (EventLoop.machine Job now).Reach EventLoop.Unstopped s.loop := by
  obtain ⟨ls, h⟩ := h
  refine Machine.Run.map (N := EventLoop.machine Job now) (H := EventLoop.Unstopped) Server.loop ?_ h
  intro s a t _ hs
  have hone : ∀ {b : LoopAction Job} {l : EventLoop Job}, s.loop.InTime b → b ≠ .stop →
      s.loop.step b = some l → ∃ ks, (EventLoop.machine Job now).Run EventLoop.Unstopped s.loop ks l :=
    fun hin hb hl => ⟨_, .single ⟨hin, hb⟩ hl⟩
  cases step_cases hs with
  | @loop b l hb hl =>
    refine hone ?_ ?_ hl
    · cases b with
      | postDelayed => exact absurd hb (by simp [LoopAction.internal])
      | _ => trivial
    · intro he
      subst he
      exact absurd hb (by simp [LoopAction.internal])
  | accept hsock hl => exact hone (b := .post (.send s.clients.length)) trivial (by simp) hl
  | sent | sendFailed | ended => exact ⟨[], .nil⟩
  | @suspended called c cl p q l hr hcl hpt hq hl =>
    -- the worker pushes, so it is not asleep
    obtain ⟨j, hw⟩ := resuming_exec hr
    refine hone ?_ (by cases q <;> simp [Point.suspend]) hl
    cases q with
    | sleep offset =>
      right
      simp only [EventLoop.upBy, hw]
    | _ => trivial
  | finish hph hl => exact hone (b := .finish) trivial (by simp) hl

/-! ## Work left -/

/-- Steps with full sends that start no new client. -/
def Serving (file : Bytes) (s : Server) (a : Action) : Prop :=
  FullSends file s a ∧ ∀ sock, a ≠ .accept sock

/-- An upper bound on the resumptions that a coroutine needs to end. -/
def left (size : ℕ) : Option Point → ℕ
  | none => 0
  | some .headers => 2 * size + 3
  | some (.chunk offset) => 2 * (size - offset) + 2
  | some (.sleep offset) => 2 * (size - offset) + 1

def work (file : Bytes) (s : Server) : ℕ := (s.clients.map fun cl => left file.length cl.point).sum

theorem left_loopTest (size offset : ℕ) :
    left size (loopTest size offset) = if offset < size then 2 * (size - offset) + 2 else 0 := by
  unfold loopTest; split <;> rfl

theorem left_resumed (size : ℕ) (p : Point) : left size (resumed size p) < left size (some p) := by
  cases p with
  | headers => rw [resumed, left_loopTest, left]; split <;> omega
  | chunk offset => rw [resumed, left, left]; omega
  | sleep offset => rw [resumed, left_loopTest, left, chunkSize]; split <;> omega

theorem sum_modify_lt {α : Type*} {f : α → ℕ} {g : α → α} : ∀ {xs : List α} {i : ℕ} {x : α},
    xs[i]? = some x → f (g x) < f x → ((xs.modify i g).map f).sum < (xs.map f).sum
  | [], i, x, h, _ => by cases h
  | y :: xs, 0, x, h, hlt => by
    cases h
    simp only [List.modify_zero_cons, List.map_cons, List.sum_cons]
    omega
  | y :: xs, i + 1, x, h, hlt => by
    have := sum_modify_lt (f := f) (g := g) (show xs[i]? = some x by simpa using h) hlt
    simp only [List.modify_succ_cons, List.map_cons, List.sum_cons]
    omega

theorem left_close (size fd : ℕ) (cl : Client) : left size (Client.close fd cl).point = left size cl.point := by
  unfold Client.close
  split <;> rfl

theorem left_accept (size fd : ℕ) (bs : Bytes) (cl : Client) :
    left size (Client.accept fd bs cl).point = left size cl.point := by
  unfold Client.accept
  split <;> rfl

/-- A resumption takes work off. -/
theorem resume_work {called : ℤ} (hs : s.step file (.resume called) = some t) : t.work file < s.work file := by
  cases step_cases hs with
  | @suspended _ c cl p q l hr hcl hpt hq hl =>
    have hlt := left_resumed file.length p
    apply sum_modify_lt hcl
    rw [hpt, ← hq]
    exact hlt
  | @ended _ c cl p hr hcl hpt hq =>
    have hlt := left_resumed file.length p
    have hcl' : (s.clients.map (Client.close cl.sock))[c]? = some (Client.close cl.sock cl) := by
      rw [List.getElem?_map, hcl]
      rfl
    have hsum := sum_modify_lt (f := fun cl => left file.length cl.point)
      (g := fun cl => { cl with point := none }) hcl' (by rw [left_close, hpt, ← hq]; exact hlt)
    -- closing a socket leaves all points alone
    have hpoints : (s.clients.map (Client.close cl.sock)).map (fun cl => left file.length cl.point) =
        s.clients.map fun cl => left file.length cl.point := by
      rw [List.map_map]
      exact List.map_congr_left fun cl' _ => left_close _ _ cl'
    rw [hpoints] at hsum
    exact hsum

/-! ## Runs -/

/-- The loop's own steps, as steps of the server. -/
theorem run_loop (file : Bytes) (ph : Phase) (cs : List Client)
    (h : (EventLoop.machine Job now).Run EventLoop.Internal l ks l') :
    ∃ ls, (machine file now).Run (Serving file) ⟨l, ph, cs⟩ ls ⟨l', ph, cs⟩ := by
  refine Machine.Run.map (N := machine file now) (H := Serving file) (fun l => ⟨l, ph, cs⟩) ?_ h
  intro l b l' hb hl
  refine ⟨[.loop b], .single ⟨trivial, by simp⟩ ?_⟩
  have hb' : b.internal = true := hb
  have hl' : l.step b = some l' := hl
  simp only [machine, step, hb', hl', if_true, Option.map_some]

/-- A step that starts no client keeps the clients and adds no work. -/
theorem step_work (hg : Serving file s a) (hs : s.step file a = some t) :
    t.work file ≤ s.work file ∧ t.clients.length = s.clients.length := by
  cases step_cases hs with
  | @accept sock => exact absurd rfl (hg.2 sock)
  | loop | sendFailed | finish => exact ⟨le_rfl, rfl⟩
  | sent =>
    have hpoints : ∀ fd bs, (s.clients.map (Client.accept fd bs)).map (fun cl => left file.length cl.point) =
        s.clients.map fun cl => left file.length cl.point := by
      intro fd bs
      rw [List.map_map]
      exact List.map_congr_left fun cl _ => left_accept _ _ _ cl
    exact ⟨(congrArg List.sum (hpoints _ _)).le, List.length_map _⟩
  | suspended => exact ⟨(resume_work hs).le, List.length_modify ..⟩
  | ended => exact ⟨(resume_work hs).le, by simp⟩

theorem run_work (h : (machine file now).Run (Serving file) s ls t) :
    t.work file ≤ s.work file ∧ t.clients.length = s.clients.length := by
  refine h.invariant (P := fun t => t.work file ≤ s.work file ∧ t.clients.length = s.clients.length)
    ⟨le_rfl, rfl⟩ ?_
  intro u a v hu hg hs
  obtain ⟨hle, hlen⟩ := step_work hg hs
  exact ⟨hle.trans hu.1, hlen.trans hu.2⟩

theorem Inv.run (h : Inv file W s) (hr : (machine file now).Run (Serving file) s ls t) : Inv file W t :=
  hr.invariant h fun _ _ _ hi hg hs => hi.step hg.1.full hs

/-- A pending task belongs to a coroutine that is suspended where the task resumes it. -/
theorem Inv.exists_point {j : Job} (h : Inv file W s) (hj : j ∈ s.active ++ s.loop.queued) :
    ∃ cl p, s.clients[j.client]? = some cl ∧ cl.point = some p := by
  have hmem : j ∈ s.pending j.client := List.mem_filter.2 ⟨hj, by simp⟩
  cases hcl : s.clients[j.client]? with
  | none =>
    rw [h.unused _ (List.getElem?_eq_none_iff.1 hcl)] at hmem
    cases hmem
  | some cl =>
    have hok := h.client _ cl hcl
    unfold ClientOk at hok
    split at hok
    · rename_i p hpt
      exact ⟨cl, p, rfl, hpt⟩
    · rw [hok.1] at hmem
      cases hmem

/-- **From a running function** to the resumption of its coroutine. -/
theorem Inv.run_exec {j : Job} (h : Inv file W s) (hw : s.loop.worker = .exec j) (hp : s.phase ≠ .resumed) :
    ∃ ls t c, (machine file now).Run (Serving file) s ls t ∧ t.resuming = some c := by
  cases hph : s.phase with
  | resumed => exact absurd hph hp
  | sent =>
    obtain ⟨c, hc⟩ := h.sent hph
    exact ⟨[], s, c, .nil, by simp only [Server.resuming, hc, hph]⟩
  | fresh =>
    cases j with
    | resume c => exact ⟨[], s, c, .nil, by simp only [Server.resuming, hw, hph]⟩
    | send c =>
      have hmem : Job.send c ∈ s.active ++ s.loop.queued := by
        simp [active, hph, EventLoop.current_exec hw]
      obtain ⟨cl, p, hcl, hpt⟩ := h.exists_point hmem
      have hcl' : s.clients[c]? = some cl := hcl
      have hq : s.sending file = some (cl.sock, p.data file) := by
        simp only [Server.sending, hw, hph, hcl', hpt, Option.bind_eq_bind, Option.bind_some]
      refine ⟨[.send (some (p.data file).length)],
        { s with phase := .sent, clients := s.clients.map (Client.accept cl.sock (p.data file)) }, c,
        .single ⟨?_, by simp⟩ ?_, by simp only [Server.resuming, hw]⟩
      · intro q hq'
        rw [hq] at hq'
        cases hq'
        rfl
      · simp only [machine, Server.step, hq, Option.bind_eq_bind, Option.bind_some, le_refl, if_true,
          List.take_length]

/-- A coroutine to be resumed can be, and that takes work off. -/
theorem Inv.exists_resume (h : Inv file W s) (hr : s.resuming = some c) :
    ∃ t, s.step file (.resume s.loop.now) = some t ∧ t.work file < s.work file := by
  obtain ⟨j, rfl, hw, hph, -⟩ := resuming_eq_some hr
  have hmem : j ∈ s.active ++ s.loop.queued := by
    simp [active, hph, EventLoop.current_exec hw]
  obtain ⟨cl, p, hcl, hpt⟩ := h.exists_point hmem
  have hsome : ∃ t, s.resume file s.loop.now j.client = some t := by
    unfold Server.resume
    simp only [hcl, hpt, Option.bind_eq_bind, Option.bind_some]
    cases Async.resumed file.length p with
    | none => exact ⟨_, rfl⟩
    | some q =>
      cases q with
      | sleep offset =>
        simp only [Point.suspend, EventLoop.step, le_refl, if_true, Option.bind_some]
        exact ⟨_, rfl⟩
      | _ => exact ⟨_, rfl⟩
  obtain ⟨t, ht⟩ := hsome
  have hstep : s.step file (.resume s.loop.now) = some t := by
    simp only [Server.step, hr, Option.bind_eq_bind, Option.bind_some]
    exact ht
  exact ⟨t, hstep, resume_work hstep⟩

/-- A function that the loop gets to run takes the server to a resumption. -/
theorem Inv.run_loop {j : Job} (h : Inv file W s)
    (h1 : (machine file now).Run (Serving file) s ls ⟨l, .fresh, s.clients⟩)
    (h2 : (EventLoop.machine Job now).Run EventLoop.Internal l ks l') (hj : l'.worker = .exec j) :
    ∃ ls t d, (machine file now).Run (Serving file) s ls t ∧ t.resuming = some d := by
  obtain ⟨ls', h2⟩ := Server.run_loop file .fresh s.clients h2
  have h3 := h1.append h2
  obtain ⟨ls'', t, d, h4, hd⟩ := (h.run h3).run_exec (j := j) hj (by simp)
  exact ⟨_, t, d, h3.append h4, hd⟩

/-- **From anywhere** to the next resumption, as long as a coroutine is suspended. -/
theorem run_resuming (h : (machine file now).Reach (FullSends file) s) (hcl : s.clients[c]? = some cl)
    (hpt : cl.point = some p) : ∃ ls t d, (machine file now).Run (Serving file) s ls t ∧
      t.resuming = some d := by
  have hinv := inv_of_reach h
  obtain ⟨hrun, hx, harmed⟩ := EventLoop.unstopped_of_reach (loop_reach h)
  have hmem : p.job c ∈ s.active ++ s.loop.queued := by
    have hone := (hinv.suspended hcl hpt).1
    exact (List.mem_filter.1 (hone ▸ List.mem_singleton_self _ : p.job c ∈ s.pending c)).1
  by_cases hph : s.phase = .resumed
  · -- the running function returns first
    obtain ⟨j, hj⟩ := hinv.resumed hph
    have hq : s.loop.queued ≠ [] := by
      rw [active, if_pos hph, List.nil_append] at hmem
      exact List.ne_nil_of_mem hmem
    obtain ⟨ks, l', j', hk, hj'⟩ := EventLoop.run_head (s := { s.loop with worker := .head }) now
      rfl hrun hq
    have h1 : (machine file now).Run (Serving file) s [.finish]
        ⟨{ s.loop with worker := .head }, .fresh, s.clients⟩ := by
      refine .single ⟨trivial, by simp⟩ ?_
      simp only [machine, step, hph, EventLoop.step, hj, if_true, Option.map_some]
    exact hinv.run_loop h1 hk hj'
  by_cases hw : ∃ j, s.loop.worker = .exec j
  · obtain ⟨j, hw⟩ := hw
    exact hinv.run_exec hw hph
  · -- no function runs, so one of the queued ones is next
    have hidle : ∀ j, s.loop.worker ≠ .exec j := fun j hj => hw ⟨j, hj⟩
    have hfresh : s.phase = .fresh := by
      by_contra hne
      exact hw (hinv.running hne)
    rw [active, if_neg hph, EventLoop.current_eq_nil hidle, List.nil_append] at hmem
    obtain ⟨ks, l', j, hk, hj⟩ := EventLoop.run_task now hrun hx harmed hidle (List.ne_nil_of_mem hmem)
    have h0 : (machine file now).Run (Serving file) s [] ⟨s.loop, .fresh, s.clients⟩ := by
      rw [← hfresh]
      exact .nil
    exact hinv.run_loop h0 hk hj

/-- **Every client is finished in the end.** From every reachable state there is a run of
worker and clock steps that ends every started coroutine. -/
theorem exists_drained (h : (machine file now).Reach (FullSends file) s) :
    ∃ ls t, (machine file now).Run (Serving file) s ls t ∧ ∀ cl ∈ t.clients, cl.point = none := by
  generalize hn : s.work file = n
  induction n using Nat.strong_induction_on generalizing s with
  | _ n ih =>
    by_cases hall : ∀ cl ∈ s.clients, cl.point = none
    · exact ⟨[], s, .nil, hall⟩
    push Not at hall
    obtain ⟨cl, hmem, hne⟩ := hall
    obtain ⟨c, hcl⟩ := List.mem_iff_getElem?.1 hmem
    obtain ⟨p, hpt⟩ := Option.ne_none_iff_exists'.1 hne
    obtain ⟨ls, t, d, hrun, hd⟩ := run_resuming h hcl hpt
    have ht := h.run (hrun.mono fun _ _ hg => hg.1)
    obtain ⟨u, hu, hlt⟩ := (inv_of_reach ht).exists_resume hd
    have hstep : (machine file now).Run (Serving file) t [.resume t.loop.now] u :=
      .single ⟨trivial, by simp⟩ hu
    have hur := ht.run (hstep.mono fun _ _ hg => hg.1)
    obtain ⟨ls', v, hv, hdone⟩ := ih (u.work file) (by have := (run_work hrun).1; omega) hur rfl
    exact ⟨_, v, (hrun.append hstep).append hv, hdone⟩

/-! ## The responses -/

theorem Inv.response (h : Inv file (fun _ => True) s) (hcl : s.clients[c]? = some cl) :
    (cl.point ≠ none → (s.pending c).length = 1) ∧ cl.sent <+: headersStr file.length ++ file ∧
      (cl.closes = 0 ∧ cl.isOpen = true ∧ cl.point ≠ none ∨
        cl.closes = 1 ∧ cl.isOpen = false ∧ cl.point = none ∧ cl.sent = headersStr file.length ++ file) := by
  have hok := h.client c cl hcl
  unfold ClientOk at hok
  split at hok
  · rename_i p hpt
    obtain ⟨hp, ho, h0, hsent⟩ := hok
    have hsent := hsent trivial
    have hpre : p.before file ++ (if s.delivered c then p.data file else []) <+:
        p.before file ++ p.data file := by
      split
      · exact List.prefix_rfl
      · rw [List.append_nil]; exact List.prefix_append _ _
    refine ⟨fun _ => by rw [hp]; rfl, ?_, .inl ⟨h0, ho, by simp [hpt]⟩⟩
    rw [hsent]
    exact hpre.trans (before_data_isPrefix file p)
  · rename_i hpt
    obtain ⟨hp, ho, h1, hsent⟩ := hok
    have hsent := hsent trivial
    refine ⟨fun hne => absurd hpt hne, ?_, .inr ⟨h1, ho, hpt, hsent⟩⟩
    rw [hsent]

/-- **Every client gets exactly its response.** In every run with full sends, a suspended
client has one pending continuation; its socket has accepted a prefix of the headers and
the file, and all of it when the socket is closed; a socket is closed once, when its
coroutine ends, and every coroutine gets there. The headers announce the size of the
file, and the body is the one the pthread server sends. -/
theorem serves (file : Bytes) (now : ℤ) (s : Server) (h : (machine file now).Reach (FullSends file) s) :
    (∀ c cl, s.clients[c]? = some cl →
      (cl.point ≠ none → (s.pending c).length = 1) ∧
      cl.sent <+: headersStr file.length ++ file ∧
      (cl.closes = 0 ∧ cl.isOpen = true ∧ cl.point ≠ none ∨
        cl.closes = 1 ∧ cl.isOpen = false ∧ cl.point = none ∧ cl.sent = headersStr file.length ++ file)) ∧
    (∃ ls t, (machine file now).Run (Serving file) s ls t ∧ t.clients.length = s.clients.length ∧
      ∀ cl ∈ t.clients, cl.closes = 1 ∧ cl.sent = headersStr file.length ++ file) ∧
    contentLength (headersStr file.length) = some file.length ∧
    (sendsPthread file).tail.flatten = file := by
  have hinv := inv_of_reach h
  refine ⟨fun c cl hcl => hinv.response hcl, ?_, contentLength_headersStr _, ?_⟩
  · obtain ⟨ls, t, hrun, hdone⟩ := exists_drained h
    refine ⟨ls, t, hrun, (run_work hrun).2, ?_⟩
    intro cl hcl
    obtain ⟨c, hc⟩ := List.mem_iff_getElem?.1 hcl
    obtain ⟨-, -, ⟨-, -, hne⟩ | ⟨h1, -, -, hsent⟩⟩ := (hinv.run hrun).response hc
    · exact absurd (hdone cl hcl) hne
    · exact ⟨h1, hsent⟩
  · exact flatten_chunkLoop file 0

/-- `serves` for a client that has just connected. -/
theorem serves_hi : ∃ ls t, (machine (bytes "hi") 0).Run (Serving (bytes "hi"))
    ⟨⟨[.send 0], [], true, .head, 0, 1, false⟩, .fresh, [⟨5, some .headers, true, [], 0⟩]⟩ ls t ∧
    t.clients.length = 1 ∧
      ∀ cl ∈ t.clients, cl.closes = 1 ∧ cl.sent = headersStr (bytes "hi").length ++ bytes "hi" :=
  (serves (bytes "hi") 0 _ (Machine.Reach.init.step (l := Action.accept 5) trivial rfl)).2.1

end Server

end EspNetwork.Async
