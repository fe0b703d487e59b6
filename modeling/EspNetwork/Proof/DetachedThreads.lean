import EspNetwork.Lib.Ownership
import EspNetwork.Proof.Holes
import EspNetwork.Spec.PthreadSystem

/-!
# The pthread server's threads

Any number of detached threads, interleaved in any way, and the acceptor.

* `Handler.step_cases`, `PthreadServer.step_cases`: what one step can do.
* `PthreadServer.Owned`: until `accept` fails, `file_data` belongs to the acceptor, and
  each descriptor and each `client_args_t` to its thread.
* `PthreadServer.file_data_freed`: **`free(file_data)` is safe exactly when no thread has
  a chunk left to send.**
* `PthreadServer.handler_streams`: what a client gets depends on the results of its own
  thread's `send` calls only.
-/

namespace EspNetwork.Async

open CLib Handle Lts

variable {file data : Bytes}

/-! ## One step -/

namespace Handler

variable {t u : Handler} {l : HandlerLabel} {ops : List (Event Res)}

/-- What a `send` call with this result takes of its buffer. -/
def taken (buf : Bytes) : Option ℕ → Bytes
  | some k => buf.take k
  | none => []

theorem step_cases (hs : t.step data l = some (u, ops)) :
    (l = .start ∧ t.pc = .start ∧ u = { t with pc := .header } ∧ ops = [.use (.cargs t.cargs)]) ∨
    (∃ r buf next, l = .send r ∧ t.sending data = some (buf, next) ∧ (∀ k, r = some k → k ≤ buf.length) ∧
      u = { t with pc := next, sent := t.sent ++ taken buf r } ∧ ops = t.touches) ∨
    (l = .close ∧ t.pc = .close ∧ u = { t with pc := .free } ∧ ops = [.release (.fd t.fd)]) ∨
    (l = .free ∧ t.pc = .free ∧ u = { t with pc := .exited } ∧ ops = [.release (.cargs t.cargs)]) := by
  cases l with
  | start =>
    simp only [step, Option.ite_none_right_eq_some, Option.some.injEq, Prod.mk.injEq] at hs
    obtain ⟨hpc, rfl, rfl⟩ := hs
    exact .inl ⟨rfl, hpc, rfl, rfl⟩
  | send r =>
    obtain ⟨⟨buf, next⟩, hsend, hs⟩ := Option.bind_eq_some_iff.1 hs
    refine .inr (.inl ⟨r, buf, next, rfl, hsend, ?_⟩)
    cases r with
    | some k =>
      simp only [Option.ite_none_right_eq_some, Option.some.injEq, Prod.mk.injEq] at hs
      obtain ⟨hk, rfl, rfl⟩ := hs
      refine ⟨?_, rfl, rfl⟩
      rintro _ ⟨⟩
      exact hk
    | none =>
      simp only [Option.some.injEq, Prod.mk.injEq] at hs
      obtain ⟨rfl, rfl⟩ := hs
      exact ⟨by simp, by simp [taken], rfl⟩
  | close =>
    simp only [step, Option.ite_none_right_eq_some, Option.some.injEq, Prod.mk.injEq] at hs
    obtain ⟨hpc, rfl, rfl⟩ := hs
    exact .inr (.inr (.inl ⟨rfl, hpc, rfl, rfl⟩))
  | free =>
    simp only [step, Option.ite_none_right_eq_some, Option.some.injEq, Prod.mk.injEq] at hs
    obtain ⟨hpc, rfl, rfl⟩ := hs
    exact .inr (.inr (.inr ⟨rfl, hpc, rfl, rfl⟩))

/-- The two `send` calls of `handle_client`. -/
theorem sending_cases {buf : Bytes} {next : HandlerPc} (h : t.sending data = some (buf, next)) :
    (t.pc = .header ∧ buf = headerPthread data.length ∧ next = handlerLoop data.length 0) ∨
    (∃ offset, t.pc = .chunk offset ∧ buf = chunkAt data offset ∧
      next = handlerLoop data.length (offset + chunkSize)) := by
  unfold sending at h
  split at h
  · rename_i hpc
    simp only [Option.some.injEq, Prod.mk.injEq] at h
    exact .inl ⟨hpc, h.1.symm, h.2.symm⟩
  · rename_i offset hpc
    simp only [Option.some.injEq, Prod.mk.injEq] at h
    exact .inr ⟨offset, hpc, h.1.symm, h.2.symm⟩
  · cases h

/-- What a thread has to give back. -/
def own (t : Handler) : List Res :=
  match t.pc with
  | .free => [.cargs t.cargs]
  | .exited => []
  | _ => [.fd t.fd, .cargs t.cargs]

/-- The thread will still read `file_data`. -/
def chunksLeft (size : ℕ) (t : Handler) : Bool :=
  match t.pc with
  | .start | .header => decide (0 < size)
  | .chunk _ => true
  | _ => false

/-- In its loop a thread owns its descriptor and its arguments. -/
theorem own_handlerLoop {size offset : ℕ} (h : t.pc = handlerLoop size offset) :
    t.own = [.fd t.fd, .cargs t.cargs] := by
  unfold handlerLoop at h
  split at h <;> simp [own, h]

end Handler

namespace PthreadServer

variable {s t : PthreadServer} {l : PthreadLabel} {ls : List PthreadLabel}

theorem step_cases (hs : s.step l = some t) :
    (∃ fd cargs, l = .accept fd cargs ∧ s.accepting = true ∧
      t = { s with handlers := s.handlers ++ [⟨cargs, fd, .start, []⟩]
                   log := .acquire (.cargs cargs) :: .acquire (.fd fd) :: s.log }) ∨
    (l = .acceptFailed ∧ s.accepting = true ∧
      t = { s with accepting := false, log := .release .fileData :: s.log }) ∨
    (∃ data, l = .reuse data ∧ s.accepting = false ∧ data.length = s.fileData.length ∧
      t = { s with fileData := data }) ∨
    (∃ i a h u ops, l = .thread i a ∧ s.handlers[i]? = some h ∧ h.step s.fileData a = some (u, ops) ∧
      t = { s with handlers := s.handlers.set i u, log := ops ++ s.log }) := by
  cases l with
  | accept fd cargs =>
    simp only [step, Option.ite_none_right_eq_some, Option.some.injEq] at hs
    exact .inl ⟨fd, cargs, rfl, hs.1, hs.2.symm⟩
  | acceptFailed =>
    simp only [step, Option.ite_none_right_eq_some, Option.some.injEq] at hs
    exact .inr (.inl ⟨rfl, hs.1, hs.2.symm⟩)
  | reuse data =>
    simp only [step, Option.ite_none_right_eq_some, Option.some.injEq, Bool.and_eq_true, Bool.not_eq_true',
      beq_iff_eq] at hs
    exact .inr (.inr (.inl ⟨data, rfl, hs.1.1, hs.1.2, hs.2.symm⟩))
  | thread i a =>
    obtain ⟨h, hh, hs⟩ := Option.bind_eq_some_iff.1 hs
    obtain ⟨⟨u, ops⟩, hu, hs⟩ := Option.bind_eq_some_iff.1 hs
    simp only [Option.some.injEq] at hs
    exact .inr (.inr (.inr ⟨i, a, h, u, ops, rfl, hh, hu, hs.symm⟩))

/-! ## Who owns what -/

/-- **A step of a thread** uses and gives back what the thread owns; it reads `file_data`
only as long as it has a chunk to send. -/
theorem owns_thread {main : List Res} {hs : List Handler} {log ops : List (Event Res)} {i : ℕ} {h u : Handler}
    {a : HandlerLabel} (ho : Owns Handler.own main hs log) (hi : hs[i]? = some h) (hst : h.step data a = some (u, ops))
    (hfile : h.chunksLeft data.length = true → .fileData ∈ main) :
    Owns Handler.own main (hs.set i u) (ops ++ log) := by
  rcases Handler.step_cases hst with ⟨-, hpc, rfl, rfl⟩ | ⟨r, buf, next, -, hsend, -, rfl, rfl⟩ |
    ⟨-, hpc, rfl, rfl⟩ | ⟨-, hpc, rfl, rfl⟩
  · refine (ho.use hi (a := .cargs h.cargs) (by simp [Handler.own, hpc])).become hi ?_
    simp [Handler.own, hpc]
  · -- a `send`, of the header or of a chunk
    have hown : h.own = [.fd h.fd, .cargs h.cargs] := by
      rcases Handler.sending_cases hsend with ⟨hpc, -⟩ | ⟨o, hpc, -⟩ <;> simp [Handler.own, hpc]
    have hnext : h.own.Perm (Handler.own { h with pc := next, sent := h.sent ++ Handler.taken buf r }) := by
      rcases Handler.sending_cases hsend with ⟨-, -, rfl⟩ | ⟨o, -, -, rfl⟩ <;>
        rw [hown, Handler.own_handlerLoop rfl]
    have hfd := ho.use hi (a := .fd h.fd) (by simp [hown])
    rcases Handler.sending_cases hsend with ⟨hpc, -⟩ | ⟨o, hpc, -⟩
    · have htouch : h.touches = [.use (.fd h.fd)] := by simp [Handler.touches, hpc]
      rw [htouch]
      exact hfd.become hi hnext
    · have htouch : h.touches = [.use .fileData, .use (.fd h.fd)] := by simp [Handler.touches, hpc]
      rw [htouch]
      exact (hfd.use_main (hfile (by simp [Handler.chunksLeft, hpc]))).become hi hnext
  · exact ho.release hi (by simp [Handler.own, hpc])
  · exact ho.release hi (by simp [Handler.own, hpc])

/-- What is known in every state. -/
structure Inv (file : Bytes) (s : PthreadServer) : Prop where
  mem (h : s.accepting = true) : s.fileData = file
  len : s.fileData.length = file.length
  owns (h : s.accepting = true) : Owns Handler.own [.fileData] s.handlers s.log
  freed (h : s.accepting = false) : .fileData ∉ live s.log

theorem inv_init (file : Bytes) : Inv file (machine file).init where
  mem _ := rfl
  len := rfl
  owns _ := ⟨⟨trivial, List.not_mem_nil⟩, List.Perm.refl _⟩
  freed h := by cases h

/-- A thread acquires nothing. -/
theorem live_thread {log ops : List (Event Res)} {h u : Handler} {a : HandlerLabel}
    (hst : h.step data a = some (u, ops)) {x : Res} (hx : x ∈ live (ops ++ log)) : x ∈ live log := by
  rcases Handler.step_cases hst with ⟨-, -, -, rfl⟩ | ⟨r, buf, next, -, -, -, -, rfl⟩ | ⟨-, -, -, rfl⟩ | ⟨-, -, -, rfl⟩
  · exact hx
  · unfold Handler.touches at hx
    split at hx <;> exact hx
  · exact List.mem_of_mem_erase hx
  · exact List.mem_of_mem_erase hx

/-- **A step of the server or of a thread** keeps the invariant. -/
theorem Inv.step (hi : Inv file s) (hg : Kernel s l) (hs : s.step l = some t) : Inv file t := by
  rcases step_cases hs with ⟨fd, cargs, rfl, hacc, rfl⟩ | ⟨rfl, hacc, rfl⟩ | ⟨data, rfl, hacc, hlen, rfl⟩ |
    ⟨i, a, h, u, ops, rfl, hh, hu, rfl⟩
  · refine ⟨hi.mem, hi.len, fun _ => ?_, fun hf => by simp [hacc] at hf⟩
    have hfd := (hi.owns hacc).acquire hg.1
    have hcargs : .cargs cargs ∉ live (.acquire (.fd fd) :: s.log) := by
      simpa [live] using hg.2
    refine (hfd.acquire hcargs).spawn ?_
    exact (List.Perm.swap (Res.fd fd) (Res.cargs cargs) [.fileData])
  · refine ⟨fun h => by simp at h, hi.len, fun h => by simp at h, fun _ => ?_⟩
    -- `file_data` was live once
    have hnd : (live s.log).Nodup := live_nodup (hi.owns hacc).proper
    exact hnd.not_mem_erase
  · refine ⟨fun h => by simp [hacc] at h, hlen.trans hi.len, fun h => by simp [hacc] at h, fun _ => hi.freed hacc⟩
  · refine ⟨hi.mem, hi.len, fun hacc => ?_, fun hacc hmem => hi.freed hacc (live_thread hu hmem)⟩
    exact owns_thread (hi.owns hacc) hh hu fun _ => List.mem_singleton_self _

theorem inv_of_reach (h : (machine file).Reach Kernel s) : Inv file s :=
  h.invariant (inv_init file) fun _ _ _ hi hg hs => hi.step hg hs

/-! ## `free(file_data)` -/

/-- After `accept` has failed with nothing left to send. -/
structure Drained (s : PthreadServer) : Prop where
  acc : s.accepting = false
  owns : Owns Handler.own [] s.handlers s.log
  chunks : ∀ h ∈ s.handlers, h.chunksLeft s.fileData.length = false

/-- A thread with nothing left to send keeps it so. -/
theorem chunksLeft_step {h u : Handler} {a : HandlerLabel} {ops : List (Event Res)}
    (hst : h.step data a = some (u, ops)) (hc : h.chunksLeft data.length = false) :
    u.chunksLeft data.length = false := by
  rcases Handler.step_cases hst with ⟨-, hpc, rfl, -⟩ | ⟨r, buf, next, -, hsend, -, rfl, -⟩ |
    ⟨-, hpc, rfl, -⟩ | ⟨-, hpc, rfl, -⟩
  · simpa [Handler.chunksLeft, hpc] using hc
  · rcases Handler.sending_cases hsend with ⟨hpc, -, rfl⟩ | ⟨o, hpc, -⟩
    · have h0 : ¬ 0 < data.length := by simpa [Handler.chunksLeft, hpc] using hc
      simp [Handler.chunksLeft, handlerLoop, h0]
    · simp [Handler.chunksLeft, hpc] at hc
  · rfl
  · rfl

/-- A server with no chunk left to send stays so. -/
theorem Drained.step (hd : Drained s) (hs : s.step l = some t) : Drained t := by
  rcases step_cases hs with ⟨fd, cargs, rfl, hacc, rfl⟩ | ⟨rfl, hacc, rfl⟩ | ⟨data, rfl, hacc, hlen, rfl⟩ |
    ⟨i, a, h, u, ops, rfl, hh, hu, rfl⟩
  · exact absurd hacc (by simp [hd.acc])
  · exact absurd hacc (by simp [hd.acc])
  · exact ⟨hd.acc, hd.owns, by rw [hlen]; exact hd.chunks⟩
  · have hc := hd.chunks h (List.mem_of_getElem? hh)
    refine ⟨hd.acc, owns_thread hd.owns hh hu fun hleft => by simp [hc] at hleft, ?_⟩
    intro v hv
    rcases List.mem_or_eq_of_mem_set hv with hv | rfl
    · exact hd.chunks v hv
    · exact chunksLeft_step hu hc

/-- The state behind the `accept` that fails. -/
def freed (s : PthreadServer) : PthreadServer :=
  { s with accepting := false, log := .release .fileData :: s.log }

theorem freed_step (hacc : s.accepting = true) : s.step .acceptFailed = some s.freed := if_pos hacc

/-- Threads that have sent everything do not read the freed file. -/
theorem Inv.drained (hi : Inv file s) (hacc : s.accepting = true)
    (hc : ∀ h ∈ s.handlers, h.chunksLeft file.length = false) : Drained s.freed where
  acc := rfl
  owns := (hi.owns hacc).release_main (List.Perm.refl _)
  chunks h hh := hi.len ▸ hc h hh

theorem kernel_thread (s : PthreadServer) (i : ℕ) (a : HandlerLabel) : Kernel s (.thread i a) := trivial

/-- The next `send` call of a thread, with nothing accepted. -/
theorem thread_send {i : ℕ} {h : Handler} {buf : Bytes} {next : HandlerPc} (hh : s.handlers[i]? = some h)
    (hsend : h.sending s.fileData = some (buf, next)) :
    s.step (.thread i (.send none)) =
      some { s with handlers := s.handlers.set i { h with pc := next }, log := h.touches ++ s.log } := by
  simp only [step, hh, Handler.step, hsend, Option.bind_eq_bind, Option.bind_some]

/-- **A thread that still has a chunk** reads `file_data` after it has been freed. -/
theorem chunk_reads (file : Bytes) {i o : ℕ} {h : Handler} (hh : s.handlers[i]? = some h) (hpc : h.pc = .chunk o)
    (hf : .fileData ∉ live s.log) : ∃ ls u, (machine file).Run Kernel s ls u ∧ ¬ Proper u.log := by
  have hsend : h.sending s.fileData = some (chunkAt s.fileData o, handlerLoop s.fileData.length (o + chunkSize)) := by
    simp [Handler.sending, hpc]
  refine ⟨_, _, .single (kernel_thread s _ _) (thread_send hh hsend), ?_⟩
  have htouch : h.touches = [.use .fileData, .use (.fd h.fd)] := by simp [Handler.touches, hpc]
  rw [htouch]
  rintro ⟨-, hmem⟩
  exact hf hmem

/-- A thread that has still to send its header can go on to read the freed file. -/
theorem header_reads (file : Bytes) {i : ℕ} {h : Handler} (hh : s.handlers[i]? = some h) (hpc : h.pc = .header)
    (hsize : 0 < s.fileData.length) (hf : .fileData ∉ live s.log) :
    ∃ ls u, (machine file).Run Kernel s ls u ∧ ¬ Proper u.log := by
  have hloop : handlerLoop s.fileData.length 0 = .chunk 0 := if_pos hsize
  have hsend : h.sending s.fileData = some (headerPthread s.fileData.length, .chunk 0) := by
    simp [Handler.sending, hpc, hloop]
  have htouch : h.touches = [.use (.fd h.fd)] := by simp [Handler.touches, hpc]
  have hstep := thread_send hh hsend
  rw [htouch] at hstep
  obtain ⟨ls, u, hrun, hbad⟩ := chunk_reads file (s := { s with
    handlers := s.handlers.set i { h with pc := .chunk 0 }, log := .use (.fd h.fd) :: s.log })
    (List.getElem?_set_self (List.getElem?_eq_some_iff.1 hh).1) rfl hf
  exact ⟨_, u, .cons (kernel_thread s _ _) hstep hrun, hbad⟩

/-- So can one that has not started. -/
theorem start_reads (file : Bytes) {i : ℕ} {h : Handler} (hh : s.handlers[i]? = some h) (hpc : h.pc = .start)
    (hsize : 0 < s.fileData.length) (hf : .fileData ∉ live s.log) :
    ∃ ls u, (machine file).Run Kernel s ls u ∧ ¬ Proper u.log := by
  have hstep : s.step (.thread i .start) = some { s with
      handlers := s.handlers.set i { h with pc := .header }, log := .use (.cargs h.cargs) :: s.log } := by
    simp [step, hh, Handler.step, hpc]
  obtain ⟨ls, u, hrun, hbad⟩ := header_reads file (s := { s with
    handlers := s.handlers.set i { h with pc := .header }, log := .use (.cargs h.cargs) :: s.log })
    (List.getElem?_set_self (List.getElem?_eq_some_iff.1 hh).1) rfl hsize hf
  exact ⟨_, u, .cons (kernel_thread s _ _) hstep hrun, hbad⟩

/-- **With a chunk left**, some run reads the freed file. -/
theorem exists_improper (file : Bytes) {h : Handler} (hh : h ∈ s.handlers) (hc : h.chunksLeft s.fileData.length = true)
    (hf : .fileData ∉ live s.log) : ∃ ls u, (machine file).Run Kernel s ls u ∧ ¬ Proper u.log := by
  obtain ⟨i, hi⟩ := List.mem_iff_getElem?.1 hh
  unfold Handler.chunksLeft at hc
  split at hc
  · rename_i hpc
    exact start_reads file hi hpc (by simpa using hc) hf
  · rename_i hpc
    exact header_reads file hi hpc (by simpa using hc) hf
  · rename_i o hpc
    exact chunk_reads file hi hpc hf
  · cases hc

/-- **When `free(file_data)` is safe.** In every state that the server reaches while it
accepts, all memory and all descriptors have been used as they should, and so they are if
`accept` fails there and `file_data` is freed. They will be in every continuation,
whatever the threads do and in whatever order, exactly if no thread has a chunk left to
send, and then every handle of a client whose thread has ended has been given back as
often as it was taken. -/
theorem file_data_freed (file : Bytes) (s : PthreadServer) (h : (machine file).Reach Kernel s)
    (hacc : s.accepting = true) : Proper s.log ∧ s.step .acceptFailed = some s.freed ∧ Proper s.freed.log ∧
    ((∀ ls u, (machine file).Run Kernel s.freed ls u → Proper u.log) ↔
      ∀ t ∈ s.handlers, t.chunksLeft file.length = false) ∧
    ((∀ t ∈ s.handlers, t.chunksLeft file.length = false) → ∀ ls u, (machine file).Run Kernel s.freed ls u →
      (∀ t ∈ u.handlers, t.pc = .exited) → ∀ r, u.log.count (.acquire r) = u.log.count (.release r)) := by
  have hi := inv_of_reach h
  have hdrained : (∀ t ∈ s.handlers, t.chunksLeft file.length = false) →
      ∀ ls u, (machine file).Run Kernel s.freed ls u → Drained u := by
    intro hc ls u hrun
    exact hrun.invariant (hi.drained hacc hc) fun _ _ _ hd _ hs => hd.step hs
  have hfree : Owns Handler.own [] s.handlers s.freed.log := (hi.owns hacc).release_main (List.Perm.refl _)
  refine ⟨(hi.owns hacc).proper, freed_step hacc, hfree.proper, ⟨?_, ?_⟩, ?_⟩
  · intro hall t ht
    by_contra hc
    have hc : t.chunksLeft s.freed.fileData.length = true := by
      rw [show s.freed.fileData = s.fileData from rfl, hi.len]
      simpa using hc
    have hf : .fileData ∉ live s.freed.log := by
      have hnd : (live s.log).Nodup := live_nodup (hi.owns hacc).proper
      exact hnd.not_mem_erase
    obtain ⟨ls, u, hrun, hbad⟩ := exists_improper file (s := s.freed) ht hc hf
    exact hbad (hall ls u hrun)
  · intro hc ls u hrun
    exact (hdrained hc ls u hrun).owns.proper
  · intro hc ls u hrun hexit r
    refine (hdrained hc ls u hrun).owns.balance List.not_mem_nil ?_
    intro t ht
    simp [Handler.own, hexit t ht]

/-- A client is accepted; its thread sends the header, the only chunk and closes; then
`accept` fails, and the thread frees its arguments. -/
def oneClient : List PthreadLabel :=
  [.accept 5 0, .thread 0 .start, .thread 0 (.send (some (headerPthread 2).length)), .thread 0 (.send (some 2)),
    .thread 0 .close]

/-- `file_data_freed` after `oneClient`, and after the thread's end. -/
theorem file_data_freed_one : ∃ s u, (machine (bytes "hi")).Reach Kernel s ∧ s.accepting = true ∧
    Proper s.freed.log ∧ (machine (bytes "hi")).Run Kernel s.freed [.thread 0 .free] u ∧ Proper u.log ∧
    u.log.count (.acquire .fileData) = u.log.count (.release .fileData) := by
  have hrun : ((machine (bytes "hi")).exec Kernel (machine (bytes "hi")).init oneClient).map (fun s =>
      s.accepting && s.handlers == [⟨0, 5, .free, headerPthread 2 ++ bytes "hi"⟩]) = some true := by
    decide +kernel
  obtain ⟨s, hs, hp⟩ := Machine.Reach.of_exec hrun
  rw [Bool.and_eq_true, beq_iff_eq] at hp
  obtain ⟨hacc, hhs⟩ := hp
  obtain ⟨-, -, hfree, hsafe, hbal⟩ := file_data_freed _ s hs hacc
  have hchunks : ∀ t ∈ s.handlers, t.chunksLeft (bytes "hi").length = false := by
    rw [hhs]
    intro t ht
    obtain rfl := List.mem_singleton.1 ht
    rfl
  -- the last step of the thread
  have hstep : s.freed.step (.thread 0 .free) = some { s.freed with
      handlers := [⟨0, 5, .exited, headerPthread 2 ++ bytes "hi"⟩]
      log := .release (.cargs 0) :: s.freed.log } := by
    have hhs' : s.freed.handlers = [⟨0, 5, .free, headerPthread 2 ++ bytes "hi"⟩] := hhs
    simp [step, Handler.step, hhs']
  have hlast := Machine.Run.single (M := machine (bytes "hi")) (kernel_thread s.freed 0 .free) hstep
  refine ⟨s, _, hs, hacc, hfree, hlast, hsafe.2 hchunks _ _ hlast, hbal hchunks _ _ hlast ?_ _⟩
  intro t ht
  obtain rfl := List.mem_singleton.1 ht
  rfl

end PthreadServer

/-! ## What a client gets -/

namespace Thread

variable {s : Thread} {rs : List (Option ℕ)}

/-- A send takes the next piece of what is to be sent. -/
theorem step_todo {t : Thread} {r : Option ℕ} (hs : s.step r = some t) : ∃ data, s.todo = data :: t.todo ∧
    (∀ k, r = some k → k ≤ data.length) ∧ t.sent = s.sent ++ Handler.taken data r := by
  unfold Thread.step at hs
  split at hs
  · cases hs
  rename_i data todo htodo
  split at hs
  · simp only [Option.ite_none_right_eq_some, Option.some.injEq] at hs
    obtain ⟨hk, rfl⟩ := hs
    refine ⟨data, htodo, ?_, rfl⟩
    rintro _ ⟨⟩
    exact hk
  · simp only [Option.some.injEq] at hs
    subst hs
    exact ⟨data, htodo, by simp, by simp [Handler.taken]⟩

/-- Each call takes the next buffer. -/
theorem run_todo (h : (machine file).Run anyStep (machine file).init rs s) :
    s.todo = (sendsPthread file).drop rs.length := by
  induction h with
  | nil => rfl
  | @snoc rs t r u hrun hg hs ih =>
    obtain ⟨data, htodo, -⟩ := step_todo hs
    rw [List.length_append, List.length_singleton, ← List.drop_drop, ← ih, htodo]
    rfl

/-- **Full sends** leave nothing out. -/
theorem run_full (h : (machine file).Run anyStep (machine file).init rs s)
    (hfull : rs <+: (sendsPthread file).map fun buf => some buf.length) :
    s.sent ++ s.todo.flatten = headerPthread file.length ++ file := by
  rw [← flatten_sendsPthread]
  induction h with
  | nil => rfl
  | @snoc rs t r u hrun hg hs ih =>
    have ih := ih ((List.prefix_append rs [r]).trans hfull)
    obtain ⟨data, htodo, -, hsent⟩ := step_todo hs
    -- the result of this call is the length of its buffer
    have hr : r = some data.length := by
      have hbuf : (sendsPthread file)[rs.length]? = some data := by
        have h0 := congrArg (·[0]?) (run_todo hrun)
        simpa [htodo, eq_comm] using h0
      obtain ⟨more, hmore⟩ := hfull
      have hres := congrArg (·[rs.length]?) hmore
      simpa [hbuf] using hres
    subst hr
    rw [← ih, hsent, htodo, List.flatten_cons, ← List.append_assoc, Handler.taken, List.take_length]

end Thread

namespace Handler

/-- The buffers that a thread has still to send. -/
def todo (file : Bytes) (t : Handler) : List Bytes :=
  match t.pc with
  | .start | .header => sendsPthread file
  | .chunk offset => chunkAt file offset :: chunkLoop file (offset + chunkSize)
  | _ => []

/-- At an offset, the chunks from there on are to be sent. -/
theorem todo_handlerLoop {t : Handler} {offset : ℕ} (h : t.pc = handlerLoop file.length offset) :
    t.todo file = chunkLoop file offset := by
  rw [chunkLoop]
  unfold handlerLoop at h
  split at h
  · rename_i hlt
    rw [if_pos hlt]
    simp [todo, h]
  · rename_i hlt
    rw [if_neg hlt]
    simp [todo, h]

/-- The buffer of a `send` call is the next one of the connection. -/
theorem sending_todo {t u : Handler} {buf : Bytes} {next : HandlerPc} (h : t.sending file = some (buf, next))
    (hu : u.pc = next) : t.todo file = buf :: u.todo file := by
  rcases sending_cases h with ⟨hpc, rfl, rfl⟩ | ⟨o, hpc, rfl, rfl⟩
  · rw [todo_handlerLoop hu]
    simp [todo, hpc, sendsPthread]
  · rw [todo_handlerLoop hu]
    simp [todo, hpc]

end Handler

namespace PthreadServer

variable {s t : PthreadServer} {l : PthreadLabel} {ls : List PthreadLabel}

/-- What was done before a proper log was proper. -/
theorem proper_of_append {log : List (Event Res)} (ops : List (Event Res)) (h : Proper (ops ++ log)) : Proper log := by
  induction ops with
  | nil => exact h
  | cons e ops ih =>
    cases e with
    | acquire a | use a | release a => exact ih h.1

theorem proper_of_step (hs : s.step l = some t) (hp : Proper t.log) : Proper s.log := by
  rcases step_cases hs with ⟨fd, cargs, -, -, rfl⟩ | ⟨-, -, rfl⟩ | ⟨data, -, -, -, rfl⟩ | ⟨i, a, h, u, ops, -, -, -, rfl⟩
  · exact proper_of_append [_, _] hp
  · exact proper_of_append [_] hp
  · exact hp
  · exact proper_of_append ops hp

theorem results_append (i : ℕ) (ls ks : List PthreadLabel) :
    results i (ls ++ ks) = results i ls ++ results i ks := List.filterMap_append

theorem results_send (i : ℕ) (r : Option ℕ) : results i [.thread i (.send r)] = [r] := by
  simp [results]

theorem results_other {i : ℕ} (h : ∀ r, l ≠ .thread i (.send r)) : results i [l] = [] := by
  cases l with
  | thread j a =>
    cases a with
    | send r =>
      by_cases hj : j = i
      · subst hj
        exact absurd rfl (h r)
      · simp [results, hj]
    | _ => rfl
  | _ => rfl

/-- Each thread is a run of its own, on the results of its own calls. -/
structure Apart (file : Bytes) (s : PthreadServer) (ls : List PthreadLabel) : Prop where
  run (i : ℕ) (t : Handler) (ht : s.handlers[i]? = some t) :
    (Thread.machine file).Run anyStep (Thread.machine file).init (results i ls) ⟨t.todo file, t.sent⟩
  absent (i : ℕ) (ht : s.handlers[i]? = none) : results i ls = []

/-- The contents that a chunk is read from. -/
theorem chunk_data (hi : Inv file s) {h u : Handler} {a : HandlerLabel} {ops : List (Event Res)} {o : ℕ}
    (hu : h.step s.fileData a = some (u, ops)) (hpc : h.pc = .chunk o) (hp : Proper (ops ++ s.log)) :
    s.fileData = file := by
  apply hi.mem
  by_contra hacc
  have hf := hi.freed (by simpa using hacc)
  rcases Handler.step_cases hu with ⟨-, hpc', -⟩ | ⟨r, buf, next, -, -, -, -, rfl⟩ | ⟨-, hpc', -⟩ | ⟨-, hpc', -⟩
  · simp [hpc] at hpc'
  · have htouch : h.touches = [.use .fileData, .use (.fd h.fd)] := by simp [Handler.touches, hpc]
    rw [htouch] at hp
    exact hf hp.2
  · simp [hpc] at hpc'
  · simp [hpc] at hpc'

/-- **A step of one thread**, seen by its connection. -/
theorem Apart.own {i : ℕ} {h u : Handler} {a : HandlerLabel} {ops : List (Event Res)} (hap : Apart file s ls)
    (hi : Inv file s) (hh : s.handlers[i]? = some h) (hu : h.step s.fileData a = some (u, ops))
    (hp : Proper (ops ++ s.log)) : (Thread.machine file).Run anyStep (Thread.machine file).init
      (results i (ls ++ [.thread i a])) ⟨u.todo file, u.sent⟩ := by
  have hrun := hap.run i h hh
  rw [results_append]
  rcases Handler.step_cases hu with ⟨rfl, hpc, rfl, -⟩ | ⟨r, buf, next, rfl, hsend, hk, rfl, -⟩ |
    ⟨rfl, hpc, rfl, -⟩ | ⟨rfl, hpc, rfl, -⟩
  · rw [results_other (by simp), List.append_nil]
    simpa [Handler.todo, hpc] using hrun
  · -- with the contents of the file, whatever is behind `file_data`
    have hsend' : h.sending file = some (buf, next) := by
      rcases Handler.sending_cases hsend with ⟨hpc, rfl, rfl⟩ | ⟨o, hpc, rfl, rfl⟩
      · simp [Handler.sending, hpc, hi.len]
      · rw [chunk_data hi hu hpc hp]
        simp [Handler.sending, hpc]
    have htodo := Handler.sending_todo (u := { h with pc := next, sent := h.sent ++ Handler.taken buf r }) hsend' rfl
    rw [results_send]
    refine hrun.snoc trivial ?_
    simp only [Thread.machine, Thread.step, htodo]
    cases r with
    | some k => simp [Handler.taken, hk k rfl]
    | none => simp [Handler.taken]
  · rw [results_other (by simp), List.append_nil]
    simpa [Handler.todo, hpc] using hrun
  · rw [results_other (by simp), List.append_nil]
    simpa [Handler.todo, hpc] using hrun

/-- **A step of any thread** keeps each connection its own run. -/
theorem Apart.step (hap : Apart file s ls) (hi : Inv file s) (hs : s.step l = some t) (hp : Proper t.log) :
    Apart file t (ls ++ [l]) := by
  have hsame : ∀ i, (∀ r, l ≠ .thread i (.send r)) → results i (ls ++ [l]) = results i ls := by
    intro i hl
    rw [results_append, results_other hl, List.append_nil]
  rcases step_cases hs with ⟨fd, cargs, rfl, hacc, rfl⟩ | ⟨rfl, hacc, rfl⟩ | ⟨data, rfl, hacc, hlen, rfl⟩ |
    ⟨i, a, h, u, ops, rfl, hh, hu, rfl⟩
  · refine ⟨?_, ?_⟩
    · intro i t ht
      rw [hsame i (by simp)]
      by_cases hlt : i < s.handlers.length
      · rw [List.getElem?_append_left hlt] at ht
        exact hap.run i t ht
      · -- the new thread
        rw [List.getElem?_append_right (by omega)] at ht
        obtain rfl := List.mem_singleton.1 (List.mem_of_getElem? ht)
        rw [hap.absent i (List.getElem?_eq_none (by omega))]
        exact .nil
    · intro i ht
      rw [hsame i (by simp)]
      refine hap.absent i (List.getElem?_eq_none ?_)
      have := List.getElem?_eq_none_iff.1 ht
      rw [List.length_append] at this
      omega
  · exact ⟨fun i t ht => by rw [hsame i (by simp)]; exact hap.run i t ht,
      fun i ht => by rw [hsame i (by simp)]; exact hap.absent i ht⟩
  · exact ⟨fun i t ht => by rw [hsame i (by simp)]; exact hap.run i t ht,
      fun i ht => by rw [hsame i (by simp)]; exact hap.absent i ht⟩
  · have hlt := (List.getElem?_eq_some_iff.1 hh).1
    refine ⟨?_, ?_⟩
    · intro j t ht
      by_cases hij : i = j
      · subst hij
        rw [List.getElem?_set_self hlt] at ht
        obtain rfl := Option.some.inj ht
        exact hap.own hi hh hu hp
      · rw [List.getElem?_set_ne hij] at ht
        rw [hsame j (by simp [hij])]
        exact hap.run j t ht
    · intro j ht
      have hij : i ≠ j := by
        rintro rfl
        simp [hlt] at ht
      rw [List.getElem?_set_ne hij] at ht
      rw [hsame j (by simp [hij])]
      exact hap.absent j ht

theorem apart_init (file : Bytes) : Apart file (machine file).init [] :=
  ⟨fun _ _ ht => (by cases ht), fun _ _ => rfl⟩

/-- Every run with a proper log keeps the connections apart. -/
theorem apart_of_run (h : (machine file).Run Kernel (machine file).init ls s) (hp : Proper s.log) :
    Apart file s ls := by
  induction h with
  | nil => exact apart_init file
  | snoc hrun hg hs ih => exact (ih (proper_of_step hs hp)).step (inv_of_reach ⟨_, hrun⟩) hs hp

/-- **Threads do not mix.** In every run of the server, with any number of clients and its
threads interleaved in any way, in which no freed memory has been read: each connection
is the run that its thread would make alone on the results of its own `send` calls; if
these have all accepted their whole buffers, a thread with nothing left to send has sent
the header and the file. -/
theorem handler_streams (file : Bytes) (ls : List PthreadLabel) (s : PthreadServer)
    (h : (machine file).Run Kernel (machine file).init ls s) (hp : Proper s.log) (i : ℕ) (t : Handler)
    (ht : s.handlers[i]? = some t) :
    (Thread.machine file).Run anyStep (Thread.machine file).init (results i ls) ⟨t.todo file, t.sent⟩ ∧
    (results i ls <+: (sendsPthread file).map (fun buf => some buf.length) → t.todo file = [] →
      t.sent = headerPthread file.length ++ file) := by
  have hap := apart_of_run h hp
  refine ⟨hap.run i t ht, fun hfull hnil => ?_⟩
  have := Thread.run_full (hap.run i t ht) hfull
  rwa [hnil, List.flatten_nil, List.append_nil] at this

/-- Two clients, served in turns. -/
def twoClients : List PthreadLabel :=
  [.accept 5 0, .accept 6 1, .thread 1 .start, .thread 0 .start, .thread 1 (.send (some (headerPthread 2).length)),
    .thread 0 (.send none), .thread 1 (.send (some 2)), .thread 0 (.send (some 1))]

/-- `handler_streams` for the second client of `twoClients`; the first gets less. -/
theorem handler_streams_two : ∃ s t, (machine (bytes "hi")).Run Kernel (machine (bytes "hi")).init twoClients s ∧
    s.handlers[1]? = some t ∧ t.sent = headerPthread 2 ++ bytes "hi" := by
  have hrun : ((machine (bytes "hi")).exec Kernel (machine (bytes "hi")).init twoClients).map (fun s =>
      s.accepting && s.handlers[1]?.map (·.pc) == some .close) = some true := by
    decide +kernel
  obtain ⟨s, hs, hp⟩ := Option.map_eq_some_iff.1 hrun
  rw [Bool.and_eq_true, beq_iff_eq] at hp
  obtain ⟨hacc, hpc⟩ := hp
  obtain ⟨t, ht, hpc⟩ := Option.map_eq_some_iff.1 hpc
  have hrun := Machine.Run.of_exec hs
  have hproper := ((inv_of_reach ⟨_, hrun⟩).owns hacc).proper
  obtain ⟨-, hall⟩ := handler_streams _ _ s hrun hproper 1 t ht
  exact ⟨s, t, hrun, ht, hall (by decide +kernel) (by simp [Handler.todo, hpc])⟩

end PthreadServer

end EspNetwork.Async
