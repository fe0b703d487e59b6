import EspNetwork.Proof.TaskFlow

/-!
# Every client gets its response

* `resumed_before`, `resumed_end`: what a coroutine has sent when it reaches its next
  suspension, and at its end.
* `Server.Inv`: a suspended client has one pending task, the one of its suspension
  point; and the open socket of a client whose `send` calls were all accepted in full has
  accepted what comes before that point.
* `Server.Inv.step`: every step keeps it.
-/

namespace EspNetwork.Async

open CLib Lts

variable {file : Bytes} {p q : Point} {c d : ℕ}

/-! ## The coroutine -/

/-- The task that a suspended coroutine waits in. -/
def Point.job (c : ℕ) : Point → Job
  | .sleep _ => .resume c
  | _ => .send c

/-- The bytes sent before the coroutine is suspended at a point. -/
def Point.before (file : Bytes) : Point → Bytes
  | .headers => []
  | .chunk offset => headersStr file.length ++ file.take offset
  | .sleep offset => headersStr file.length ++ file.take (offset + chunkSize)

theorem take_append_chunkAt (file : Bytes) (offset : ℕ) :
    file.take offset ++ chunkAt file offset = file.take (offset + chunkSize) := by
  unfold chunkAt
  rw [List.take_add]
  split
  · rfl
  · have hlen : (file.drop offset).length = file.length - offset := List.length_drop
    have hall : (file.drop offset).take (file.length - offset) = file.drop offset :=
      List.take_of_length_le (by omega)
    have hchunk : (file.drop offset).take chunkSize = file.drop offset :=
      List.take_of_length_le (by omega)
    rw [hall, hchunk]

theorem loopTest_before {offset : ℕ} (h : loopTest file.length offset = some q) :
    q.before file = headersStr file.length ++ file.take offset := by
  unfold loopTest at h
  split at h <;> cases h
  rfl

theorem loopTest_end {offset : ℕ} (h : loopTest file.length offset = none) : file.take offset = file := by
  unfold loopTest at h
  split at h
  · cases h
  · exact List.take_of_length_le (by omega)

/-- **To the next suspension.** -/
theorem resumed_before (h : resumed file.length p = some q) :
    q.before file = p.before file ++ p.data file := by
  cases p with
  | headers =>
    rw [loopTest_before h]
    simp [Point.before, Point.data]
  | chunk offset =>
    cases h
    simp only [Point.before, Point.data, List.append_assoc, take_append_chunkAt]
  | sleep offset =>
    rw [loopTest_before h]
    simp [Point.before, Point.data]

/-- **To the end.** -/
theorem resumed_end (h : resumed file.length p = none) :
    p.before file ++ p.data file = headersStr file.length ++ file := by
  cases p with
  | headers =>
    have h0 : ([] : Bytes) = file := loopTest_end h
    simp [Point.before, Point.data, ← h0]
  | chunk offset => cases h
  | sleep offset =>
    have h0 : file.take (offset + chunkSize) = file := loopTest_end h
    simp [Point.before, Point.data, h0]

/-- Before and after its `send`, a coroutine has sent a prefix of its response. -/
theorem before_data_isPrefix (file : Bytes) (p : Point) :
    p.before file ++ p.data file <+: headersStr file.length ++ file := by
  cases p with
  | headers => exact List.prefix_append _ _
  | chunk offset =>
    simp only [Point.before, Point.data, List.append_assoc, take_append_chunkAt]
    exact (List.prefix_append_right_inj _).2 (List.take_prefix _ _)
  | sleep offset =>
    simp only [Point.before, Point.data, List.append_nil]
    exact (List.prefix_append_right_inj _).2 (List.take_prefix _ _)

/-- The pthread server's chunks are the file. -/
theorem flatten_chunkLoop (file : Bytes) (offset : ℕ) :
    (chunkLoop file offset).flatten = file.drop offset := by
  fun_induction chunkLoop file offset with
  | case1 offset h ih =>
    rw [List.flatten_cons, ih, ← List.drop_drop]
    refine List.append_cancel_left (?_ : file.take offset ++ _ = file.take offset ++ _)
    rw [← List.append_assoc, take_append_chunkAt, List.take_append_drop, List.drop_drop,
      List.take_append_drop]
  | case2 offset h =>
    rw [List.drop_eq_nil_of_le (by omega)]
    rfl

/-- The header announces the file's size. -/
theorem contentLength_headersStr (size : ℕ) : contentLength (headersStr size) = some size := by
  have hsplit : headersStr size = bytes "HTTP/1.1 200 OK\r\n" ++ (bytes "Content-Length: " ++
      (decimal size ++ bytes "\r\nContent-Type: text/html\r\nConnection: close\r\n\r\n")) := by
    simp only [headersStr, List.append_assoc]
    rfl
  have hfind : strstr (headersStr size) (bytes "Content-Length: ") = some 17 := by
    rw [hsplit, show bytes "Content-Length: " = 67 :: bytes "ontent-Length: " from rfl,
      strstr_skip (by decide), strstr_eq_zero (List.prefix_append _ _)]
    rfl
  have hdrop : (headersStr size).drop (17 + 16) =
      decimal size ++ bytes "\r\nContent-Type: text/html\r\nConnection: close\r\n\r\n" := by
    rw [hsplit, ← List.append_assoc]
    exact List.drop_left' rfl
  have hrest : ∀ b ∈ (bytes "\r\nContent-Type: text/html\r\nConnection: close\r\n\r\n").head?,
      isdigit b = false := by
    intro b hb
    cases hb
    rfl
  rw [contentLength, hfind, Option.map_some, hdrop,
    takeWhile_isdigit (fun b hb => isdigit_of_mem_decimal hb) hrest, digitsVal_decimal]

namespace Server

variable {s t : Server} {a : Action} {cl : Client} {j : Job} {l : EventLoop Job} {W W' : ℕ → Prop}

/-! ## Descriptors -/

theorem getElem?_snoc {α : Type*} {xs : List α} {x y : α} {i : ℕ} (h : (xs ++ [x])[i]? = some y) :
    (i < xs.length ∧ xs[i]? = some y) ∨ (i = xs.length ∧ y = x) := by
  obtain ⟨hlt, hy⟩ := List.getElem?_eq_some_iff.1 h
  rw [List.length_append, List.length_singleton] at hlt
  by_cases hi : i < xs.length
  · rw [List.getElem?_append_left hi] at h
    exact .inl ⟨hi, h⟩
  · have he : i = xs.length := by omega
    subst he
    exact .inr ⟨rfl, by simpa using hy.symm⟩

/-- Two clients with open descriptors have different ones. -/
def DistinctSocks (cs : List Client) : Prop :=
  ∀ (c d : ℕ) (cl dl : Client), cs[c]? = some cl → cs[d]? = some dl → cl.isOpen = true → dl.isOpen = true →
    cl.sock = dl.sock → c = d

/-- `accept` gives a descriptor that no open client has. -/
theorem DistinctSocks.snoc {cs : List Client} {new : Client} (h : DistinctSocks cs)
    (hsock : ∀ cl ∈ cs, cl.isOpen = true → cl.sock ≠ new.sock) : DistinctSocks (cs ++ [new]) := by
  intro c d cl dl hcl hdl hco hdo he
  rcases getElem?_snoc hcl with ⟨-, hc⟩ | ⟨rfl, rfl⟩ <;>
    rcases getElem?_snoc hdl with ⟨-, hd⟩ | ⟨rfl, rfl⟩
  · exact h c d cl dl hc hd hco hdo he
  · exact absurd he (hsock cl (List.mem_of_getElem? hc) hco)
  · exact absurd he.symm (hsock dl (List.mem_of_getElem? hd) hdo)
  · rfl

/-- Clients that were open before, with the same descriptors. -/
theorem DistinctSocks.of_back {cs cs' : List Client} (h : DistinctSocks cs)
    (hback : ∀ (d : ℕ) (dl : Client), cs'[d]? = some dl → dl.isOpen = true →
      ∃ dl' : Client, cs[d]? = some dl' ∧ dl'.isOpen = true ∧ dl'.sock = dl.sock) : DistinctSocks cs' := by
  intro d e dl el hdl hel hdo heo he
  obtain ⟨dl', hdl', hdo', hds⟩ := hback d dl hdl hdo
  obtain ⟨el', hel', heo', hes⟩ := hback e el hel heo
  exact h d e dl' el' hdl' hel' hdo' heo' (by rw [hds, hes, he])

/-- A descriptor leads to the client that holds it, and to no other. -/
theorem DistinctSocks.other_sock {cs : List Client} {dl : Client} (h : DistinctSocks cs) (hcl : cs[c]? = some cl)
    (ho : cl.isOpen = true) (hdl : cs[d]? = some dl) (hne : d ≠ c) : ¬ (dl.isOpen && dl.sock == cl.sock) = true := by
  intro hd
  rw [Bool.and_eq_true, beq_iff_eq] at hd
  exact hne (h c d cl dl hcl hdl ho hd.1 hd.2.symm).symm

/-! ## Pending tasks -/

/-- The continuation in the running slot, until it has been resumed. -/
def active (s : Server) : List Job := if s.phase = .resumed then [] else s.loop.current

/-- The pending continuations of client `c`: being run, in the immediate queue or in the heap. -/
def pending (s : Server) (c : ℕ) : List Job :=
  (s.active ++ s.loop.queued).filter fun j => j.client == c

/-- The running function has sent the data of client `c`. -/
def delivered (s : Server) (c : ℕ) : Prop := s.loop.worker = .exec (.send c) ∧ s.phase = .sent

instance : Decidable (s.delivered c) := inferInstanceAs (Decidable (_ ∧ _))

/-- The state of a client in accordance with its coroutine, and that of its socket, if all
its `send` calls were accepted in full. -/
def ClientOk (file : Bytes) (whole : Prop) (s : Server) (c : ℕ) (cl : Client) : Prop :=
  match cl.point with
  | some p => s.pending c = [p.job c] ∧ cl.isOpen = true ∧ cl.closes = 0 ∧
      (whole → cl.sent = p.before file ++ (if s.delivered c then p.data file else []))
  | none => s.pending c = [] ∧ cl.isOpen = false ∧ cl.closes = 1 ∧
      (whole → cl.sent = headersStr file.length ++ file)

/-- `W` says of which clients all `send` calls were accepted in full. -/
structure Inv (file : Bytes) (W : ℕ → Prop) (s : Server) : Prop where
  client : ∀ c cl, s.clients[c]? = some cl → s.ClientOk file (W c) c cl
  unused : ∀ c, s.clients.length ≤ c → s.pending c = []
  socks : ∀ (c d : ℕ) (cl dl : Client), s.clients[c]? = some cl → s.clients[d]? = some dl → cl.isOpen = true →
    dl.isOpen = true → cl.sock = dl.sock → c = d
  sent : s.phase = .sent → ∃ c, s.loop.worker = .exec (.send c)
  resumed : s.phase = .resumed → ∃ j, s.loop.worker = .exec j

theorem inv_init (file : Bytes) (W : ℕ → Prop) (now : ℤ) : Inv file W (machine file now).init where
  client := by intro c cl h; cases h
  unused := by intro c _; rfl
  socks := by intro c d cl dl h; cases h
  sent := by intro h; cases h
  resumed := by intro h; cases h

theorem ClientOk.mono {P Q : Prop} (h : s.ClientOk file P c cl) (hPQ : Q → P) : s.ClientOk file Q c cl := by
  unfold ClientOk at h ⊢
  split at h
  · exact ⟨h.1, h.2.1, h.2.2.1, fun hq => h.2.2.2 (hPQ hq)⟩
  · exact ⟨h.1, h.2.1, h.2.2.1, fun hq => h.2.2.2 (hPQ hq)⟩

/-- Fewer clients whose calls were all accepted in full. -/
theorem Inv.mono (h : Inv file W s) (hW : ∀ c, W' c → W c) : Inv file W' s :=
  ⟨fun c cl hcl => (h.client c cl hcl).mono (hW c), h.unused, h.socks, h.sent, h.resumed⟩

/-- A descriptor is open as long as its coroutine runs. -/
theorem Inv.isOpen (h : Inv file W s) (hcl : s.clients[c]? = some cl) : cl.isOpen = cl.point.isSome := by
  have hok := h.client c cl hcl
  unfold ClientOk at hok
  split at hok
  · rename_i p hpt
    rw [hok.2.1, hpt]
    rfl
  · rename_i hpt
    rw [hok.2.1, hpt]
    rfl

theorem ClientOk.of_perm {P : Prop} (h : s.ClientOk file P c cl) (hp : (t.pending c).Perm (s.pending c))
    (hd : t.delivered c ↔ s.delivered c) : t.ClientOk file P c cl := by
  unfold ClientOk at h ⊢
  split at h
  · rename_i p hpt
    obtain ⟨h1, h2⟩ := h
    simp only [hd]
    exact ⟨List.perm_singleton.1 (h1 ▸ hp), h2⟩
  · obtain ⟨h1, h2⟩ := h
    exact ⟨List.perm_nil.1 (h1 ▸ hp), h2⟩

/-- A step that moves the pending tasks but touches no client. -/
theorem Inv.of_perm (h : Inv file W s) (hc : t.clients = s.clients)
    (hp : ∀ c, (t.pending c).Perm (s.pending c)) (hd : ∀ c, t.delivered c ↔ s.delivered c)
    (hsent : t.phase = .sent → ∃ c, t.loop.worker = .exec (.send c))
    (hres : t.phase = .resumed → ∃ j, t.loop.worker = .exec j) : Inv file W t where
  client := by
    intro c cl hcl
    exact (h.client c cl (hc ▸ hcl)).of_perm (hp c) (hd c)
  unused := by
    intro c hle
    exact List.perm_nil.1 (h.unused c (hc ▸ hle) ▸ hp c)
  socks := by rw [hc]; exact h.socks
  sent := hsent
  resumed := hres

theorem pending_perm (h : (t.active ++ t.loop.queued).Perm (s.active ++ s.loop.queued)) (c : ℕ) :
    (t.pending c).Perm (s.pending c) := h.filter _

/-- A function that runs holds its place while the loop takes a step of its own. -/
theorem Inv.running (h : Inv file W s) (hph : s.phase ≠ .fresh) : ∃ j, s.loop.worker = .exec j := by
  cases hp : s.phase with
  | fresh => exact absurd hp hph
  | sent => obtain ⟨c, hc⟩ := h.sent hp; exact ⟨_, hc⟩
  | resumed => exact h.resumed hp

theorem Inv.loop_step {b : LoopAction Job} (h : Inv file W s) (hb : b.internal = true)
    (hl : s.loop.step b = some l) : Inv file W { s with loop := l } := by
  by_cases hph : s.phase = .fresh
  · -- nothing has been resumed, so the loop's conservation law applies
    have hcons := EventLoop.step_conserves hl
    obtain ⟨hpush, hret⟩ := EventLoop.pushed_of_internal (s := s.loop) hb
    rw [hpush, hret, List.nil_append, List.nil_append] at hcons
    refine h.of_perm rfl (pending_perm ?_) ?_ ?_ ?_
    · simpa [active, hph] using hcons
    · simp [delivered, hph]
    · intro hs; rw [show s.phase = .sent from hs] at hph; cases hph
    · intro hs; rw [show s.phase = .resumed from hs] at hph; cases hph
  · obtain ⟨j, hj⟩ := h.running hph
    obtain ⟨hw, hq⟩ := EventLoop.queued_stay hb hj hl
    have hcur : l.current = s.loop.current := by
      rw [EventLoop.current_exec hw, EventLoop.current_exec hj]
    refine h.of_perm rfl (pending_perm ?_) ?_ ?_ ?_
    · simp [active, hq, hcur]
    · simp [delivered, hw, hj]
    · intro hs; obtain ⟨c, hc⟩ := h.sent hs; exact ⟨c, by rw [← hc, hw, hj]⟩
    · intro _; exact ⟨j, hw⟩

theorem Inv.finish_step (h : Inv file W s) (hph : s.phase = .resumed)
    (hl : s.loop.step .finish = some l) : Inv file W { s with loop := l, phase := .fresh } := by
  cases EventLoop.step_cases hl with
  | finish hw =>
    refine h.of_perm rfl (pending_perm ?_) ?_ ?_ ?_
    · simp [active, hph, EventLoop.current, EventLoop.queued]
    · simp [delivered, hph]
    · simp
    · simp

/-! ## Pushing a continuation -/

/-- `await_suspend` queues the task of the suspension point. -/
theorem suspend_step {called : ℤ} (hl : s.loop.step (q.suspend c called) = some l) :
    l.worker = s.loop.worker ∧ l.queued.Perm (q.job c :: s.loop.queued) := by
  cases q with
  | sleep offset =>
    cases EventLoop.step_cases hl
    exact ⟨rfl, EventLoop.queued_postDelayed _ _ _⟩
  | _ =>
    cases EventLoop.step_cases hl
    exact ⟨rfl, EventLoop.queued_post _⟩

theorem Point.job_client (p : Point) (c : ℕ) : (p.job c).client = c := by
  cases p <;> rfl

theorem current_congr {l l' : EventLoop Job} (h : l'.worker = l.worker) : l'.current = l.current := by
  unfold EventLoop.current; rw [h]

/-- A running send of client `c` is one of its pending tasks. -/
theorem mem_pending_of_delivered (h : s.delivered c) : Job.send c ∈ s.pending c := by
  obtain ⟨hw, hp⟩ := h
  simp [pending, active, hp, EventLoop.current_exec hw, Job.client]

theorem Inv.accept_step {sock : ℕ} (h : Inv file W s)
    (hsock : ∀ cl ∈ s.clients, cl.isOpen = true → cl.sock ≠ sock)
    (hl : s.loop.step (Point.headers.suspend s.clients.length 0) = some l) :
    Inv file W { s with loop := l, clients := s.clients ++ [⟨sock, some .headers, true, [], 0⟩] } := by
  obtain ⟨hw, hq⟩ := suspend_step hl
  set n := s.clients.length with hn
  set t : Server := { s with loop := l, clients := s.clients ++ [⟨sock, some .headers, true, [], 0⟩] } with ht
  have hact : t.active = s.active := by
    simp only [active, ht, current_congr hw]
  have hdel : ∀ c, t.delivered c ↔ s.delivered c := by
    intro c; simp only [delivered, ht, hw]
  have hpend : ∀ c, (t.pending c).Perm (([Job.send n].filter fun j => j.client == c) ++ s.pending c) := by
    intro c
    unfold pending
    rw [hact, ← List.filter_append]
    exact ((hq.append_left s.active).trans List.perm_middle).filter _
  have hold : ∀ c, c ≠ n → (t.pending c).Perm (s.pending c) := by
    intro c hc
    have hne : (Job.send n).client ≠ c := fun he => hc he.symm
    simpa [hne] using hpend c
  have hnew : t.pending n = [.send n] := by
    have hp := hpend n
    rw [h.unused n le_rfl] at hp
    exact List.perm_singleton.1 (by simpa [Job.client] using hp)
  refine ⟨?_, ?_, ?_, ?_, ?_⟩
  · intro c cl hcl
    rcases getElem?_snoc hcl with ⟨hc, hcl⟩ | ⟨rfl, rfl⟩
    · exact (h.client c cl hcl).of_perm (hold c (by omega)) (hdel c)
    · have hnd : ¬ t.delivered n := by
        intro hd
        have := mem_pending_of_delivered ((hdel n).1 hd)
        rw [h.unused n le_rfl] at this
        cases this
      refine ⟨hnew, rfl, rfl, fun _ => ?_⟩
      rw [if_neg hnd]
      rfl
  · intro c hc
    have hlen : n + 1 ≤ c := by simpa [ht, hn] using hc
    exact List.perm_nil.1 (h.unused c (by omega) ▸ hold c (by omega))
  · exact DistinctSocks.snoc h.socks hsock
  · intro hp; obtain ⟨c, hc⟩ := h.sent hp; exact ⟨c, hw.trans hc⟩
  · intro hp; obtain ⟨j, hj⟩ := h.resumed hp; exact ⟨j, hw.trans hj⟩

/-! ## Sends and resumptions -/

/-- The send call of the running function, from its client's frame. -/
theorem sending_eq_some {fd : ℕ} {data : Bytes} (h : s.sending file = some (fd, data)) :
    ∃ c cl p, s.loop.worker = .exec (.send c) ∧ s.phase = .fresh ∧ s.clients[c]? = some cl ∧
      cl.point = some p ∧ fd = cl.sock ∧ data = p.data file := by
  unfold sending at h
  split at h
  · rename_i c hw hp
    obtain ⟨cl, hcl, h⟩ := Option.bind_eq_some_iff.1 h
    obtain ⟨p, hpt, h⟩ := Option.bind_eq_some_iff.1 h
    cases h
    exact ⟨c, cl, p, hw, hp, hcl, hpt, rfl, rfl⟩
  · cases h

theorem Client.accept_self {bs : Bytes} (ho : cl.isOpen = true) :
    Client.accept cl.sock bs cl = { cl with sent := cl.sent ++ bs } := by
  unfold Client.accept
  rw [if_pos (by simp [ho])]

theorem Client.close_self (ho : cl.isOpen = true) :
    Client.close cl.sock cl = { cl with isOpen := false, closes := cl.closes + 1 } := by
  unfold Client.close
  rw [if_pos (by simp [ho])]

/-- A `send` changes neither descriptors nor which of them are open. -/
theorem Client.accept_sock (fd : ℕ) (bs : Bytes) (cl : Client) :
    (Client.accept fd bs cl).sock = cl.sock ∧ (Client.accept fd bs cl).isOpen = cl.isOpen := by
  unfold Client.accept
  split <;> exact ⟨rfl, rfl⟩

/-- What the client of a running function looks like. -/
theorem Inv.suspended (h : Inv file W s) (hcl : s.clients[c]? = some cl) (hpt : cl.point = some p) :
    s.pending c = [p.job c] ∧ cl.isOpen = true ∧ cl.closes = 0 ∧
      (W c → cl.sent = p.before file ++ (if s.delivered c then p.data file else [])) := by
  have := h.client c cl hcl
  unfold ClientOk at this
  rw [hpt] at this
  exact this

/-- A call that accepts nothing. -/
theorem Client.accept_nil (fd : ℕ) (cl : Client) : Client.accept fd [] cl = cl := by
  unfold Client.accept
  split
  · rw [List.append_nil]
  · rfl

/-- **A `send` call**, which accepts all of its data if all calls of its client are accepted
in full. -/
theorem Inv.send_step {fd : ℕ} {data bs : Bytes} (h : Inv file W s) (hs : s.sending file = some (fd, data))
    (hbs : ∀ c, s.loop.worker = .exec (.send c) → W c → bs = data) :
    Inv file W { s with phase := .sent, clients := s.clients.map (Client.accept fd bs) } := by
  obtain ⟨c, cl, p, hw, hph, hcl, hpt, rfl, rfl⟩ := sending_eq_some hs
  obtain ⟨-, ho, -, hsent⟩ := h.suspended hcl hpt
  have hnd : ∀ d, ¬ s.delivered d := by
    intro d hd
    have hp := hd.2
    rw [hph] at hp
    cases hp
  rw [if_neg (hnd c), List.append_nil] at hsent
  set t : Server := { s with phase := .sent, clients := s.clients.map (Client.accept cl.sock bs) } with ht
  have hpend : ∀ d, (t.pending d).Perm (s.pending d) := by
    intro d
    apply pending_perm
    simp [active, ht, hph]
  -- the bytes reach client `c` and no other
  have hother : ∀ d dl, s.clients[d]? = some dl → d ≠ c → Client.accept cl.sock bs dl = dl := by
    intro d dl hdl hne
    rw [Client.accept, if_neg (DistinctSocks.other_sock h.socks hcl ho hdl hne)]
  refine ⟨?_, ?_, ?_, fun _ => ⟨c, hw⟩, fun hp => by cases hp⟩
  · intro d dl' hdl'
    rw [ht, List.getElem?_map, Option.map_eq_some_iff] at hdl'
    obtain ⟨dl, hdl, rfl⟩ := hdl'
    by_cases hdc : d = c
    · subst hdc
      rw [hcl] at hdl
      obtain rfl := Option.some.inj hdl
      rw [Client.accept_self ho]
      unfold ClientOk
      obtain ⟨hp, -, hc0, -⟩ := h.suspended hcl hpt
      simp only [hpt]
      refine ⟨List.perm_singleton.1 (hp ▸ hpend d), ho, hc0, fun hwhole => ?_⟩
      rw [if_pos ⟨hw, rfl⟩, hsent hwhole, hbs d hw hwhole]
    · rw [hother d dl hdl hdc]
      refine (h.client d dl hdl).of_perm (hpend d) (iff_of_false ?_ (hnd d))
      intro hd
      have hw' := hd.1
      rw [ht, hw] at hw'
      cases hw'
      exact hdc rfl
  · intro d hd
    rw [ht, List.length_map] at hd
    exact List.perm_nil.1 (h.unused d hd ▸ hpend d)
  · refine DistinctSocks.of_back h.socks fun d dl' hdl' hdo => ?_
    rw [ht, List.getElem?_map, Option.map_eq_some_iff] at hdl'
    obtain ⟨dl, hdl, rfl⟩ := hdl'
    obtain ⟨hds, hdo'⟩ := Client.accept_sock cl.sock bs dl
    exact ⟨dl, hdl, hdo' ▸ hdo, hds.symm⟩

/-- The coroutine to resume waits in the running function. -/
theorem resuming_eq_some (h : s.resuming = some c) : ∃ j : Job, j.client = c ∧
    s.loop.worker = .exec j ∧ s.phase ≠ .resumed ∧ (s.delivered c ∨ j = .resume c) := by
  unfold resuming at h
  split at h
  · rename_i e hw hp
    cases h
    exact ⟨.send c, rfl, hw, by rw [hp]; decide, .inl ⟨hw, hp⟩⟩
  · rename_i e hw hp
    cases h
    exact ⟨.resume c, rfl, hw, by rw [hp]; decide, .inr rfl⟩
  · cases h

/-- **At a resumption** the running function holds the only continuation of its client,
and everything up to the next suspension point has been sent. -/
theorem Inv.resuming (h : Inv file W s) (hr : s.resuming = some c) (hcl : s.clients[c]? = some cl)
    (hpt : cl.point = some p) : (∃ j, s.loop.worker = .exec j) ∧
      (s.loop.queued.filter fun j => j.client == c) = [] ∧
      (∀ d, d ≠ c → s.pending d = s.loop.queued.filter fun j => j.client == d) ∧
      (∀ d, d ≠ c → ¬ s.delivered d) ∧ cl.isOpen = true ∧ cl.closes = 0 ∧
      (W c → cl.sent = p.before file ++ p.data file) := by
  obtain ⟨j, hjc, hw, hph, hj⟩ := resuming_eq_some hr
  obtain ⟨hp, ho, h0, hsent⟩ := h.suspended hcl hpt
  have hact : s.active = [j] := by
    rw [active, if_neg hph, EventLoop.current_exec hw]
  rw [pending, hact, List.singleton_append, List.filter_cons, if_pos (by simp [hjc])] at hp
  obtain ⟨hjp, hq⟩ := List.cons.inj hp
  refine ⟨⟨j, hw⟩, hq, ?_, ?_, ho, h0, ?_⟩
  · intro d hd
    have hne : j.client ≠ d := by rw [hjc]; exact fun he => hd he.symm
    rw [pending, hact, List.singleton_append, List.filter_cons, if_neg (by simp [hne])]
  · intro d hd hdel
    have hw' := hdel.1
    rw [hw] at hw'
    cases hw'
    exact hd hjc
  · intro hwhole
    rcases hj with hdel | rfl
    · rw [hsent hwhole, if_pos hdel]
    · -- a resumed `Sleep` has no data
      cases p with
      | sleep offset => rw [hsent hwhole]; split <;> rfl
      | _ => cases hjp

/-- After a resumption of client `c`, only that client has to be looked at again. -/
theorem Inv.of_resumed (h : Inv file W s) (hcl : s.clients[c]? = some cl) (ho : cl.isOpen = true)
    (hlen : t.clients.length = s.clients.length) (hph : t.phase = .resumed)
    (hw : ∃ j, t.loop.worker = .exec j) (hdel : ∀ d, d ≠ c → ¬ s.delivered d)
    (hother : ∀ d dl, d ≠ c → t.clients[d]? = some dl → s.clients[d]? = some dl)
    (hpend : ∀ d, d ≠ c → (t.pending d).Perm (s.pending d))
    (hself : ∀ dl, t.clients[c]? = some dl → t.ClientOk file (W c) c dl ∧ dl.sock = cl.sock) : Inv file W t := by
  have hclt : c < s.clients.length := (List.getElem?_eq_some_iff.1 hcl).1
  have hback : ∀ (d : ℕ) (dl : Client), t.clients[d]? = some dl → dl.isOpen = true →
      ∃ dl' : Client, s.clients[d]? = some dl' ∧ dl'.isOpen = true ∧ dl'.sock = dl.sock := by
    intro d dl hdl hdo
    by_cases hdc : d = c
    · subst hdc
      exact ⟨cl, hcl, ho, (hself dl hdl).2.symm⟩
    · exact ⟨dl, hother d dl hdc hdl, hdo, rfl⟩
  refine ⟨?_, ?_, ?_, fun hp => ?_, fun _ => hw⟩
  · intro d dl hdl
    by_cases hdc : d = c
    · subst hdc; exact (hself dl hdl).1
    · refine (h.client d dl (hother d dl hdc hdl)).of_perm (hpend d hdc) (iff_of_false ?_ (hdel d hdc))
      intro hd
      have hp := hd.2
      rw [hph] at hp
      cases hp
  · intro d hd
    rw [hlen] at hd
    exact List.perm_nil.1 (h.unused d hd ▸ hpend d (by omega))
  · exact DistinctSocks.of_back h.socks hback
  · rw [hph] at hp; cases hp

theorem Inv.suspended_step {called : ℤ} (h : Inv file W s) (hr : s.resuming = some c)
    (hcl : s.clients[c]? = some cl) (hpt : cl.point = some p) (hq : Async.resumed file.length p = some q)
    (hl : s.loop.step (q.suspend c called) = some l) :
    Inv file W ⟨l, .resumed, s.clients.modify c fun cl => { cl with point := some q }⟩ := by
  obtain ⟨hw, hnil, hpend, hdel, ho, h0, hsent⟩ := h.resuming hr hcl hpt
  obtain ⟨hw', hperm⟩ := suspend_step hl
  refine h.of_resumed hcl ho (by simp) rfl (by rwa [hw']) hdel ?_ ?_ ?_
  · intro d dl hd hdl
    rwa [List.getElem?_modify_ne _ _ (Ne.symm hd)] at hdl
  · intro d hd
    rw [hpend d hd]
    have hne : ((q.job c).client == d) = false := by simp [Point.job_client, Ne.symm hd]
    simpa [pending, active, hne] using hperm.filter fun j => j.client == d
  · intro dl hdl
    rw [List.getElem?_modify_eq, hcl] at hdl
    obtain rfl := Option.some.inj hdl
    refine ⟨⟨?_, ho, h0, fun hwhole => ?_⟩, rfl⟩
    · have hp := hperm.filter fun j => j.client == c
      rw [List.filter_cons, if_pos (by simp [Point.job_client]), hnil] at hp
      exact List.perm_singleton.1 hp
    · rw [if_neg (by simp [delivered]), List.append_nil, resumed_before hq, hsent hwhole]

theorem Inv.ended_step (h : Inv file W s) (hr : s.resuming = some c) (hcl : s.clients[c]? = some cl)
    (hpt : cl.point = some p) (hq : Async.resumed file.length p = none) :
    Inv file W { s with phase := .resumed
                        clients := (s.clients.map (Client.close cl.sock)).modify c fun cl =>
                          { cl with point := none } } := by
  obtain ⟨hw, hnil, hpend, hdel, ho, h0, hsent⟩ := h.resuming hr hcl hpt
  -- no other client has this descriptor
  have hclose : ∀ d dl, s.clients[d]? = some dl → d ≠ c → Client.close cl.sock dl = dl := by
    intro d dl hdl hne
    rw [Client.close, if_neg (DistinctSocks.other_sock h.socks hcl ho hdl hne)]
  refine h.of_resumed hcl ho (by simp) rfl hw hdel ?_ ?_ ?_
  · intro d dl' hd hdl'
    rw [List.getElem?_modify_ne _ _ (Ne.symm hd), List.getElem?_map, Option.map_eq_some_iff] at hdl'
    obtain ⟨dl, hdl, rfl⟩ := hdl'
    rw [hclose d dl hdl hd]
    exact hdl
  · intro d hd
    rw [hpend d hd]
    simp [pending, active]
  · intro dl hdl
    rw [List.getElem?_modify_eq, List.getElem?_map, hcl] at hdl
    obtain rfl := Option.some.inj hdl
    rw [Client.close_self ho]
    refine ⟨⟨hnil, rfl, by rw [h0], fun hwhole => ?_⟩, rfl⟩
    rw [hsent hwhole, resumed_end hq]

/-- A `send` call for one of the clients `W` is accepted in full. -/
def Full (file : Bytes) (W : ℕ → Prop) (s : Server) : Action → Prop
  | .send result => ∀ c q, s.loop.worker = .exec (.send c) → s.sending file = some q → W c → result = some q.2.length
  | _ => True

theorem FullSends.full (h : FullSends file s a) : Full file W s a := by
  cases a with
  | send result => exact fun c q _ hq _ => h q hq
  | loop | accept | resume | finish => trivial

/-- **Every step keeps the invariant.** -/
theorem Inv.step (h : Inv file W s) (hg : Full file W s a) (hs : s.step file a = some t) : Inv file W t := by
  cases step_cases hs with
  | loop hb hl => exact h.loop_step hb hl
  | accept hsock hl => exact h.accept_step hsock hl
  | @sent fd k data hq hk =>
    refine h.send_step hq fun c hw hwhole => ?_
    obtain rfl := Option.some.inj (hg c _ hw hq hwhole)
    exact List.take_length
  | @sendFailed fd data hq =>
    have hsame : s.clients.map (Client.accept fd []) = s.clients :=
      (List.map_congr_left fun cl _ => Client.accept_nil fd cl).trans (List.map_id' _)
    have hstep : Inv file W { s with phase := .sent, clients := s.clients.map (Client.accept fd []) } :=
      h.send_step hq fun c hw hwhole => absurd (hg c _ hw hq hwhole) (by simp)
    rwa [hsame] at hstep
  | suspended hr hcl hpt hq hl => exact h.suspended_step hr hcl hpt hq hl
  | ended hr hcl hpt hq => exact h.ended_step hr hcl hpt hq
  | finish hph hl => exact h.finish_step hph hl

theorem inv_of_reach {now : ℤ} (h : (machine file now).Reach (FullSends file) s) : Inv file (fun _ => True) s :=
  h.invariant (inv_init file _ now) fun _ _ _ hi hg hs => hi.step hg.full hs

end Server

end EspNetwork.Async
