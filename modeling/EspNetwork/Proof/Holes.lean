import EspNetwork.Spec.PthreadServer
import EspNetwork.Proof.Responses

/-!
# Holes in a response stream

Neither server looks at the result of `send`: what a short or failed call has left out
is skipped, and the next call goes on behind it. Beside each server runs a record of its
`send` calls and their results, which it does not read.

* `Server.Gapless`, `Thread.Gapless`: a call accepts bytes only if all earlier calls on its
  connection were accepted in full.
* `Server.Recorded`: as long as they were, a socket has accepted all that comes before the
  current call (`Server.Inv`), and in any case a beginning of its response.
* `no_holes`: **no response has a hole, in every run of either server that meets the condition.**
-/

namespace EspNetwork.Async

open CLib Lts

variable {file : Bytes} {now : ℤ}

/-- A `send` call of `len` bytes, and its result. -/
structure SendCall where
  len : ℕ
  result : Option ℕ
deriving DecidableEq, Repr

/-- All of it was accepted. -/
def SendCall.Full (call : SendCall) : Prop := call.result = some call.len

instance (call : SendCall) : Decidable call.Full := inferInstanceAs (Decidable (_ = _))

/-! ## The pthread server -/

namespace Thread

variable {x y : Thread × List SendCall} {r : Option ℕ}

/-- The next call is recorded, newest first. -/
def record (s : Thread) (result : Option ℕ) (calls : List SendCall) : List SendCall :=
  match s.todo with
  | [] => calls
  | data :: _ => ⟨data.length, result⟩ :: calls

/-- The thread that serves `file`, with its `send` calls. -/
def recorded (file : Bytes) : Machine (Thread × List SendCall) (Option ℕ) := (machine file).withHistory [] record

/-- The call accepts nothing, or all earlier calls have been accepted in full. -/
def Gapless (x : Thread × List SendCall) (result : Option ℕ) : Prop :=
  result = none ∨ result = some 0 ∨ ∀ call ∈ x.2, call.Full

instance (x : Thread × List SendCall) (result : Option ℕ) : Decidable (Gapless x result) :=
  inferInstanceAs (Decidable (_ ∨ _ ∨ _))

/-- What has been accepted is a beginning of what has been handed to `send`, and all of it
if all calls were accepted in full. -/
def Inv (file : Bytes) (x : Thread × List SendCall) : Prop :=
  ∃ pre, pre ++ x.1.todo.flatten = (sendsPthread file).flatten ∧ x.1.sent <+: pre ∧
    ((∀ call ∈ x.2, call.Full) → x.1.sent = pre)

/-- **A `send`** keeps what precedes it accounted for. -/
theorem Inv.step (h : Inv file x) (hg : Gapless x r) (hs : (recorded file).step x r = some y) : Inv file y := by
  obtain ⟨pre, hpre, hsent, hall⟩ := h
  obtain ⟨hstep, hcalls⟩ := Machine.withHistory_step hs
  simp only [machine, Thread.step] at hstep
  split at hstep
  · cases hstep
  rename_i data todo htodo
  rw [htodo, List.flatten_cons, ← List.append_assoc] at hpre
  simp only [record, htodo] at hcalls
  have hskip : x.1.sent <+: pre ++ data := hsent.trans (List.prefix_append _ _)
  have hmore : (∀ call ∈ y.2, call.Full) → r = some data.length ∧ x.1.sent = pre := by
    intro hfull
    rw [hcalls, List.forall_mem_cons] at hfull
    exact ⟨hfull.1, hall hfull.2⟩
  split at hstep
  · rename_i k
    simp only [Option.ite_none_right_eq_some, Option.some.injEq] at hstep
    obtain ⟨hk, ht⟩ := hstep
    rw [Inv, ← ht]
    refine ⟨pre ++ data, hpre, ?_, fun hfull => ?_⟩
    · rcases hg with hg | hg | hg
      · cases hg
      · obtain rfl : k = 0 := by simpa using hg
        simpa using hskip
      · -- nothing has been left out: what is accepted goes on where the socket is
        rw [hall hg]
        exact (List.prefix_append_right_inj _).2 (List.take_prefix _ _)
    · obtain ⟨hr, hpre'⟩ := hmore hfull
      obtain rfl : k = data.length := by simpa using hr
      rw [hpre', List.take_length]
  · simp only [Option.some.injEq] at hstep
    rw [Inv, ← hstep]
    refine ⟨pre ++ data, hpre, hskip, fun hfull => ?_⟩
    obtain ⟨hr, -⟩ := hmore hfull
    cases hr

theorem inv_of_reach (h : (recorded file).Reach Gapless x) : Inv file x :=
  h.invariant ⟨[], rfl, List.prefix_rfl, fun _ => rfl⟩ fun _ _ _ hi hg hs => hi.step hg hs

end Thread

/-- The response of the pthread server. -/
theorem flatten_sendsPthread (file : Bytes) :
    (sendsPthread file).flatten = headerPthread file.length ++ file := by
  rw [sendsPthread, List.flatten_cons, flatten_chunkLoop, List.drop_zero]

/-! ## The coroutine server -/

namespace Server

variable {s t : Server} {a : Action} {W : ℕ → Prop} {x y : Server × List (ℕ × SendCall)}

/-- The call of the running function is recorded with its client, newest first. -/
def record (file : Bytes) (s : Server) (a : Action) (calls : List (ℕ × SendCall)) : List (ℕ × SendCall) :=
  match a, s.loop.worker, s.sending file with
  | .send result, .exec (.send c), some (_, data) => (c, ⟨data.length, result⟩) :: calls
  | _, _, _ => calls

/-- The coroutine server that serves `file`, with its `send` calls. -/
def recorded (file : Bytes) (now : ℤ) : Machine (Server × List (ℕ × SendCall)) Action :=
  (machine file now).withHistory [] (record file)

/-- All calls on the connection of client `c` were accepted in full. -/
def Whole (calls : List (ℕ × SendCall)) (c : ℕ) : Prop := ∀ call ∈ calls, call.1 = c → call.2.Full

/-- The call accepts nothing, or all earlier calls on its connection have been accepted in full. -/
def Gapless (x : Server × List (ℕ × SendCall)) : Action → Prop
  | .send (some k) => k = 0 ∨ ∀ call ∈ x.2, x.1.loop.worker = .exec (.send call.1) → call.2.Full
  | _ => True

instance (x : Server × List (ℕ × SendCall)) : ∀ a, Decidable (Gapless x a)
  | .send (some k) => inferInstanceAs (Decidable (k = 0 ∨ _))
  | .send none | .loop _ | .accept _ | .resume _ | .finish => isTrue trivial

/-- Earlier calls were whole when all are. -/
theorem whole_of_record {calls : List (ℕ × SendCall)} (c : ℕ) (h : Whole (record file s a calls) c) : Whole calls c := by
  intro call hcall hc
  refine h call ?_ hc
  unfold record
  split
  · exact List.mem_cons_of_mem _ hcall
  · exact hcall

/-- A client whose calls were all in full has its present one in full. -/
theorem full_of_record {calls : List (ℕ × SendCall)} : Full file (Whole (record file s a calls)) s a := by
  cases a with
  | send result =>
    intro c q hw hq hwhole
    refine hwhole (c, ⟨q.2.length, result⟩) ?_ rfl
    simp only [record, hw, hq, List.mem_cons, true_or]
  | loop | accept | resume | finish => trivial

/-- The response up to the end of a client's current `send`. -/
def upTo (file : Bytes) (cl : Client) : Bytes :=
  match cl.point with
  | some p => p.before file ++ p.data file
  | none => headersStr file.length ++ file

/-- What stands before the point of a client is a beginning of the response. -/
theorem upTo_isPrefix (file : Bytes) (cl : Client) : upTo file cl <+: headersStr file.length ++ file := by
  unfold upTo
  split
  · exact before_data_isPrefix file _
  · exact List.prefix_rfl

/-- No socket has a gap. -/
def Streams (file : Bytes) (s : Server) : Prop :=
  ∀ (c : ℕ) (cl : Client), s.clients[c]? = some cl → cl.sent <+: upTo file cl

/-- A new client is at the beginning of its response. -/
theorem Streams.accept_step {sock : ℕ} {l : EventLoop Job} (h : Streams file s) :
    Streams file { s with loop := l, clients := s.clients ++ [⟨sock, some .headers, true, [], 0⟩] } := by
  intro c cl hcl
  rcases getElem?_snoc hcl with ⟨-, hcl⟩ | ⟨-, rfl⟩
  · exact h c cl hcl
  · exact List.nil_prefix

/-- **A `send` call** goes on where the socket is, or accepts nothing. -/
theorem Streams.send_step {fd k : ℕ} {data : Bytes} (h : Streams file s) (hi : Inv file W s)
    (hq : s.sending file = some (fd, data)) (hk : k = 0 ∨ ∀ c, s.loop.worker = .exec (.send c) → W c) :
    Streams file { s with phase := .sent, clients := s.clients.map (Client.accept fd (data.take k)) } := by
  obtain ⟨c, cl, p, hw, hph, hcl, hpt, rfl, rfl⟩ := sending_eq_some hq
  obtain ⟨-, ho, -, hbefore⟩ := hi.suspended hcl hpt
  have hsent : cl.sent ++ (p.data file).take k <+: p.before file ++ p.data file := by
    rcases hk with rfl | hk
    · have hold := h c cl hcl
      rw [upTo, hpt] at hold
      simpa using hold
    · have hnot : ¬ s.delivered c := fun hd => by cases hph.symm.trans hd.2
      rw [hbefore (hk c hw), if_neg hnot, List.append_nil]
      exact (List.prefix_append_right_inj _).2 (List.take_prefix _ _)
  intro d el hel
  rw [List.getElem?_map, Option.map_eq_some_iff] at hel
  obtain ⟨dl, hdl, rfl⟩ := hel
  by_cases hdc : d = c
  · subst hdc
    rw [hcl] at hdl
    obtain rfl := Option.some.inj hdl
    rw [Client.accept_self ho]
    simp only [upTo, hpt]
    exact hsent
  · -- the bytes reach no other client
    rw [Client.accept, if_neg (DistinctSocks.other_sock hi.socks hcl ho hdl hdc)]
    exact h d dl hdl

/-- A client that goes on to its next `send`. -/
theorem Streams.suspended_step {c : ℕ} {cl : Client} {p q : Point} {l : EventLoop Job} (h : Streams file s)
    (hcl : s.clients[c]? = some cl) (hpt : cl.point = some p) (hq : Async.resumed file.length p = some q) :
    Streams file ⟨l, .resumed, s.clients.modify c fun cl => { cl with point := some q }⟩ := by
  intro d el hel
  rw [List.getElem?_modify, Option.map_eq_map, Option.map_eq_some_iff] at hel
  obtain ⟨dl, hdl, rfl⟩ := hel
  by_cases hcd : c = d
  · subst hcd
    rw [hcl] at hdl
    obtain rfl := Option.some.inj hdl
    have hold := h c cl hcl
    rw [upTo, hpt] at hold
    simp only [if_true, upTo, resumed_before hq]
    exact hold.trans (List.prefix_append _ _)
  · rw [if_neg hcd]
    exact h d dl hdl

/-- A client that has none left, and is closed. -/
theorem Streams.ended_step {c : ℕ} {cl : Client} {p : Point} (h : Streams file s) (hi : Inv file W s)
    (hcl : s.clients[c]? = some cl) (hpt : cl.point = some p) (hq : Async.resumed file.length p = none) :
    Streams file { s with phase := .resumed
                          clients := (s.clients.map (Client.close cl.sock)).modify c fun cl =>
                            { cl with point := none } } := by
  have ho : cl.isOpen = true := by rw [hi.isOpen hcl, hpt]; rfl
  intro d el hel
  rw [List.getElem?_modify, List.getElem?_map, Option.map_eq_map, Option.map_map, Option.map_eq_some_iff] at hel
  obtain ⟨dl, hdl, rfl⟩ := hel
  by_cases hcd : c = d
  · subst hcd
    rw [hcl] at hdl
    obtain rfl := Option.some.inj hdl
    have hold := h c cl hcl
    rw [upTo, hpt] at hold
    simp only [Function.comp_apply, if_true, Client.close_self ho, upTo]
    rwa [← resumed_end hq]
  · -- no other client has this descriptor
    simp only [Function.comp_apply, if_neg hcd]
    rw [Client.close, if_neg (DistinctSocks.other_sock hi.socks hcl ho hdl (Ne.symm hcd))]
    exact h d dl hdl

/-- What is known beside a record of the `send` calls. -/
structure Recorded (file : Bytes) (x : Server × List (ℕ × SendCall)) : Prop where
  inv : Inv file (Whole x.2) x.1
  streams : Streams file x.1

/-- **Every step that leaves nothing out before what it sends** keeps the streams whole. -/
theorem Recorded.step (h : Recorded file x) (hg : Gapless x a) (hs : (recorded file now).step x a = some y) :
    Recorded file y := by
  obtain ⟨hinv, hstreams⟩ := h
  obtain ⟨ht, hcalls⟩ := Machine.withHistory_step hs
  refine ⟨?_, ?_⟩
  · rw [hcalls]
    exact (hinv.mono fun c => whole_of_record c).step full_of_record ht
  · generalize y.1 = t at ht
    cases step_cases ht with
    | loop | sendFailed | finish => exact hstreams
    | accept => exact hstreams.accept_step
    | sent hq =>
      refine hstreams.send_step hinv hq (hg.imp_right fun hall c hw call hcall hc => ?_)
      exact hall call hcall (hc ▸ hw)
    | suspended hr hcl hpt hq => exact hstreams.suspended_step hcl hpt hq
    | ended hr hcl hpt hq => exact hstreams.ended_step hinv hcl hpt hq

theorem recorded_of_reach (h : (recorded file now).Reach Gapless x) : Recorded file x :=
  h.invariant ⟨inv_init file _ now, fun c cl hcl => by cases hcl⟩ fun _ _ _ hi hg hs => hi.step hg hs

end Server

/-! ## Both servers -/

/-- **No response has a hole while nothing is sent behind one.** In every run of either
server in which a `send` call accepts bytes only if all earlier calls on its connection
were accepted in full, every socket has accepted a prefix of the header and the file, at
every moment. -/
theorem no_holes (file : Bytes) (now : ℤ) :
    (∀ x, (Server.recorded file now).Reach Server.Gapless x →
      ∀ cl ∈ x.1.clients, cl.sent <+: headersStr file.length ++ file) ∧
    (∀ x, (Thread.recorded file).Reach Thread.Gapless x → x.1.sent <+: headerPthread file.length ++ file) := by
  constructor
  · intro x h cl hcl
    obtain ⟨c, hc⟩ := List.mem_iff_getElem?.1 hcl
    exact ((Server.recorded_of_reach h).streams c cl hc).trans (Server.upTo_isPrefix file cl)
  · intro x h
    obtain ⟨pre, hpre, hsent, -⟩ := Thread.inv_of_reach h
    rw [flatten_sendsPthread] at hpre
    exact hsent.trans (hpre ▸ List.prefix_append _ _)

/-- The header and the first chunk are sent, the second chunk only with 50 of its bytes, and
the connection fails. -/
def cutShort : List Action :=
  [.accept 5, .loop .check, .loop (.dequeue 0), .send (some (headersStr 300).length), .resume 0, .finish,
    .loop .check, .loop (.dequeue 0), .send (some 100), .resume 0, .finish,
    .loop (.tick 200), .loop .check, .loop (.dequeue 0), .resume 200, .finish,
    .loop .check, .loop (.dequeue 0), .send (some 50), .resume 200, .finish,
    .loop (.tick 200), .loop .check, .loop (.dequeue 0), .resume 400, .finish,
    .loop .check, .loop (.dequeue 0), .send none]

/-- `no_holes` for a file of 300 bytes of which 150 are sent. -/
theorem no_holes_cutShort :
    (∃ x, (Server.recorded (List.replicate 300 7) 0).Reach Server.Gapless x ∧ ∃ cl ∈ x.1.clients,
      cl.sent.length = (headersStr 300).length + 150 ∧ cl.sent <+: headersStr 300 ++ List.replicate 300 7) ∧
    (∃ x, (Thread.recorded (List.replicate 300 7)).Reach Thread.Gapless x ∧
      x.1.sent.length = (headerPthread 300).length + 150 ∧ x.1.sent <+: headerPthread 300 ++ List.replicate 300 7) := by
  obtain ⟨hserver, hthread⟩ := no_holes (List.replicate 300 7) 0
  rw [List.length_replicate] at hserver hthread
  constructor
  · have hrun : ((Server.recorded (List.replicate 300 7) 0).exec Server.Gapless
        (Server.recorded (List.replicate 300 7) 0).init cutShort).map (fun x => x.1.clients.any fun cl =>
        cl.sent.length == (headersStr 300).length + 150) = some true := by decide +kernel
    obtain ⟨x, hx, hp⟩ := Machine.Reach.of_exec hrun
    obtain ⟨cl, hcl, hlen⟩ := List.any_eq_true.1 hp
    exact ⟨x, hx, cl, hcl, by simpa using hlen, hserver x hx cl hcl⟩
  · have hrun : ((Thread.recorded (List.replicate 300 7)).exec Thread.Gapless
        (Thread.recorded (List.replicate 300 7)).init
        [some (headerPthread 300).length, some 100, some 50, none]).map (fun x =>
        x.1.sent.length == (headerPthread 300).length + 150) = some true := by decide +kernel
    obtain ⟨x, hx, hp⟩ := Machine.Reach.of_exec hrun
    exact ⟨x, hx, by simpa using hp, hthread x hx⟩

/-- The bytes 0, 1, 2, .. 199. -/
def countingFile : Bytes := (List.range 200).map UInt8.ofNat

/-- In both servers, 50 bytes of the first chunk are accepted, then all of the second. -/
theorem hole_after_short_send :
    (∃ s, (Server.machine countingFile 0).Reach anyStep s ∧
      ∃ cl ∈ s.clients, ¬ cl.sent <+: headersStr countingFile.length ++ countingFile) ∧
    (∃ t, (Thread.machine countingFile).Reach anyStep t ∧
      ¬ t.sent <+: headerPthread countingFile.length ++ countingFile) := by
  constructor
  · have hrun : ((Server.machine countingFile 0).exec anyStep (Server.machine countingFile 0).init
        [.accept 5, .loop .check, .loop (.dequeue 0), .send (some (headersStr 200).length), .resume 0, .finish,
          .loop .check, .loop (.dequeue 0), .send (some 50), .resume 0, .finish,
          .loop (.tick 200), .loop .check, .loop (.dequeue 0), .resume 200, .finish,
          .loop .check, .loop (.dequeue 0), .send (some 100)]).map (fun s => s.clients.any fun cl =>
        !cl.sent.isPrefixOf (headersStr countingFile.length ++ countingFile)) = some true := by decide +kernel
    obtain ⟨s, hs, hp⟩ := Machine.Reach.of_exec hrun
    obtain ⟨cl, hcl, hne⟩ := List.any_eq_true.1 hp
    refine ⟨s, hs, cl, hcl, fun hpre => ?_⟩
    rw [List.isPrefixOf_iff_prefix.2 hpre] at hne
    cases hne
  · have hrun : ((Thread.machine countingFile).exec anyStep (Thread.machine countingFile).init
        [some (headerPthread 200).length, some 50, some 100]).map (fun t =>
        !t.sent.isPrefixOf (headerPthread countingFile.length ++ countingFile)) = some true := by decide +kernel
    obtain ⟨t, ht, hp⟩ := Machine.Reach.of_exec hrun
    refine ⟨t, ht, fun hpre => ?_⟩
    rw [List.isPrefixOf_iff_prefix.2 hpre] at hp
    cases hp

end EspNetwork.Async
