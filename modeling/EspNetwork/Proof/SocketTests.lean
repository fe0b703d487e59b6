import EspNetwork.Proof.SocketClients

/-!
# A socket closed under a thread, and sockets that were never opened

* `step_cases`: what one step of the two threads can do.
* `async_connect`: **every interleaving** of `tcp_async_connect` with its thread.
* `tcpBindTest_proper_iff`: **when `tcp_bind_test` closes what it opened**, and nothing else.
-/

namespace EspNetwork.SocketClient

open CLib Lts Handle

namespace AsyncConnect

variable {fd : ℕ} {rx : Arr 128} {s t : AsyncConnect} {a : Action} {ls : List Action}

/-- What the end of a call prints. -/
def line : Thread → Action → List Bytes
  | .recvReady, .data bs => [cstr bs]
  | _, _ => []

/-- Nothing but the data of a receive behind a ready `select` is printed. -/
theorem line_nil {p : Thread} (h : p = .recvReady → ∀ bs, a ≠ .data bs) : line p a = [] := by
  unfold line
  split
  · exact absurd rfl (h rfl _)
  · rfl

/-- **What a step can do.** -/
theorem step_cases (hs : s.step fd a = some t) :
    (a = .close ∧ s.main = .sleep ∧ t = { s with main := .join, log := .release fd :: s.log }) ∨
    (a = .join ∧ s.main = .join ∧ s.thread = .returned ∧ t = { s with main := .returned }) ∨
    (a ≠ .close ∧ a ≠ .join ∧ ∃ pc rxBuffer, s.thread.next a = some pc ∧
      t = { s with rxBuffer, printed := s.printed ++ line s.thread a }.enter fd pc) := by
  unfold step at hs
  split at hs
  · split at hs
    · rename_i hmain
      cases hs
      exact .inl ⟨rfl, hmain, rfl⟩
    · cases hs
  · split at hs
    · rename_i hmain
      cases hs
      exact .inr (.inl ⟨rfl, hmain.1, hmain.2, rfl⟩)
    · cases hs
  · split at hs
    · rename_i bs hshort
      obtain ⟨pc, hpc, hs⟩ := Option.bind_eq_some_iff.1 hs
      refine .inr (.inr ⟨nofun, nofun, pc, ?_⟩)
      by_cases hready : s.thread = .recvReady
      · obtain ⟨b, d, hb, hd⟩ := exists_store_zero s.rxBuffer hshort
        have hstr := cstr_store_zero hb hd
        simp only [if_pos hready, print, hb, hd, Option.bind_eq_bind, Option.bind_some, hstr] at hs
        cases hs
        exact ⟨d, hpc, by rw [hready]; rfl⟩
      · have hline : line s.thread (.data bs) = [] := line_nil fun h => absurd h hready
        simp only [if_neg hready] at hs
        cases hs
        exact ⟨s.rxBuffer, hpc, by rw [hline, List.append_nil]⟩
    · cases hs
  · rename_i hclose hjoin hdata
    obtain ⟨pc, hpc, rfl⟩ := Option.map_eq_some_iff.1 hs
    have hline : line s.thread a = [] := line_nil fun _ bs h => hdata bs h
    exact .inr (.inr ⟨hclose, hjoin, pc, s.rxBuffer, hpc, by rw [hline, List.append_nil]⟩)

/-- Calls of the thread that are still to end, and steps of the main thread. -/
def Thread.rank : Thread → ℕ
  | .getFlags => 9
  | .setFlags => 8
  | .connect => 7
  | .selectConnect => 6
  | .connectError => 5
  | .recv => 4
  | .selectRecv => 3
  | .recvReady => 2
  | .recvError => 1
  | .returned => 0

def Main.rank : Main → ℕ
  | .sleep => 2
  | .join => 1
  | .returned => 0

theorem rank_pos {p : Thread} (hp : p ≠ .returned) : 0 < Thread.rank p := by
  cases p with
  | returned => exact absurd rfl hp
  | _ => decide

/-- Every call brings the thread closer to its return. -/
theorem rank_next {p q : Thread} (h : p.next a = some q) : Thread.rank q < Thread.rank p := by
  unfold Thread.next at h
  split at h
  case h_11 inSet => cases inSet <;> cases h <;> decide
  case h_19 _ hp =>
    cases h
    exact rank_pos hp
  all_goals cases h <;> decide

/-- Both threads come closer to their end. -/
theorem rank_step (hs : s.step fd a = some t) :
    Thread.rank t.thread + Main.rank t.main < Thread.rank s.thread + Main.rank s.main := by
  rcases step_cases hs with ⟨-, hmain, rfl⟩ | ⟨-, hmain, -, rfl⟩ | ⟨-, -, pc, rxBuffer, hpc, rfl⟩
  · simp only [hmain, Main.rank]
    omega
  · simp only [hmain, Main.rank]
    omega
  · exact Nat.add_lt_add_right (rank_next hpc) _

/-! ## Calls on a closed descriptor -/

/-- A call that starts on a closed descriptor fails. -/
def BadDescriptor (fd : ℕ) (s : AsyncConnect) (a : Action) : Prop :=
  s.log.head? = some (.use fd) → .release fd ∈ s.log → a = .failed ∨ a = .join

instance (fd : ℕ) (s : AsyncConnect) (a : Action) : Decidable (BadDescriptor fd s a) :=
  inferInstanceAs (Decidable (_ → _ → _))

/-- A socket that is created and used `j` times. -/
def history (fd j : ℕ) : List (Event ℕ) := List.replicate j (.use fd) ++ [.acquire fd]

/-- Using a descriptor opens and closes none. -/
theorem live_uses (fd i : ℕ) (log : List (Event ℕ)) : live (List.replicate i (.use fd) ++ log) = live log := by
  induction i with
  | zero => rfl
  | succ i ih => exact ih

theorem live_history (fd j : ℕ) : live (history fd j) = [fd] := live_uses fd j _

theorem proper_history (fd j : ℕ) : Proper (history fd j) := by
  induction j with
  | zero => exact ⟨trivial, List.not_mem_nil⟩
  | succ j ih =>
    refine ⟨ih, ?_⟩
    change fd ∈ live (history fd j)
    rw [live_history]
    exact List.mem_singleton_self _

/-- Uses behind `close` are those of a descriptor that is not open. -/
theorem proper_closed_iff (fd i j : ℕ) : Proper (List.replicate i (.use fd) ++ .release fd :: history fd j) ↔ i = 0 := by
  have hlive : live (Event.release fd :: history fd j) = [] := by
    simp only [live, live_history, List.erase_cons_head]
  cases i with
  | zero =>
    refine iff_of_true ⟨proper_history fd j, ?_⟩ rfl
    rw [live_history]
    exact List.mem_singleton_self _
  | succ i =>
    refine iff_of_false (fun hp => ?_) (Nat.succ_ne_zero i)
    have hmem : fd ∈ live (List.replicate i (.use fd) ++ .release fd :: history fd j) := hp.2
    rw [live_uses, hlive] at hmem
    exact List.not_mem_nil hmem

/-! ## What is printed -/

/-- What is printed, from the calls of the thread, newest first: data behind a `select` that
found the socket readable. -/
def shown : List Action → List Bytes
  | .data bs :: .ready true :: _ => [cstr bs]
  | _ :: l => shown l
  | [] => []

/-- The calls of the thread, newest first. -/
def calls (ls : List Action) : List Action := (ls.filter fun a => a ≠ .close ∧ a ≠ .join).reverse

theorem calls_snoc (ls : List Action) (a : Action) :
    calls (ls ++ [a]) = if a ≠ .close ∧ a ≠ .join then a :: calls ls else calls ls := by
  unfold calls
  rw [List.filter_append, List.reverse_append, List.filter_singleton]
  by_cases h : a ≠ .close ∧ a ≠ .join
  · simp [h]
  · simp [h]

theorem shown_cons {l : List Action} (h : ∀ bs, a ≠ .data bs) : shown (a :: l) = shown l := by
  cases a with
  | data bs => exact absurd rfl (h bs)
  | _ => rfl

theorem shown_data {l : List Action} {bs : Bytes} (h : ∀ l', l ≠ .ready true :: l') : shown (.data bs :: l) = shown l := by
  cases l with
  | nil => rfl
  | cons b l =>
    cases b with
    | ready inSet =>
      cases inSet with
      | true => exact absurd rfl (h l)
      | false => rfl
    | _ => rfl

/-- Data comes from the first receive or from the one behind a ready `select`. -/
theorem next_data {p q : Thread} {bs : Bytes} (h : p.next (.data bs) = some q) :
    p = .recv ∧ q = .returned ∨ p = .recvReady ∧ q = .recvError := by
  cases p <;> cases h
  · exact .inl ⟨rfl, rfl⟩
  · exact .inr ⟨rfl, rfl⟩

/-- A call that fails ends the thread, except for the second `recv`. -/
theorem next_failed {p q : Thread} (h : p.next .failed = some q) (hq : q ≠ .returned) :
    p = .recvReady ∧ q = .recvError := by
  cases p <;> cases h
  case recvReady => exact ⟨rfl, rfl⟩
  all_goals exact absurd rfl hq

/-- How the thread comes to one of the two calls of `recv`. -/
theorem next_recv {p q : Thread} (h : p.next a = some q) :
    (q = .recv → a = .ok) ∧ (q = .recvReady → a = .ready true) := by
  unfold Thread.next at h
  split at h
  case h_11 inSet =>
    cases inSet with
    | false =>
      cases h
      exact ⟨nofun, nofun⟩
    | true =>
      cases h
      exact ⟨nofun, fun _ => rfl⟩
  all_goals cases h
  all_goals first
    | exact ⟨fun _ => rfl, nofun⟩
    | exact ⟨nofun, nofun⟩

/-! ## Every interleaving -/

/-- What was done with the socket: it is open, or closed with at most two calls after that. -/
def Used (fd : ℕ) (s : AsyncConnect) : Prop :=
  (s.main = .sleep ∧ ∃ j, s.log = history fd j) ∨
  (s.main ≠ .sleep ∧ ∃ i j, s.log = List.replicate i (.use fd) ++ .release fd :: history fd j ∧
    (i ≤ 1 ∨ i = 2 ∧ Thread.rank s.thread ≤ 1))

structure Inv (fd : ℕ) (ls : List Action) (s : AsyncConnect) : Prop where
  steps : ls.length + (Thread.rank s.thread + Main.rank s.main) ≤ 11
  used : Used fd s
  printed : s.printed = shown (calls ls)
  once : s.printed ≠ [] → Thread.rank s.thread ≤ 1
  recv : s.thread = .recv → ∀ l, calls ls ≠ .ready true :: l
  ready : s.thread = .recvReady → ∃ l, calls ls = .ready true :: l

theorem Inv.init : Inv fd [] (machine fd rx).init :=
  ⟨le_refl 11, .inl ⟨rfl, 1, rfl⟩, rfl, fun h => absurd rfl h, nofun, nofun⟩

/-- The thread enters another call. -/
theorem Used.enter {pc : Thread} (hu : Used fd s) (hg : BadDescriptor fd s a) (hne : a ≠ .join)
    (hpc : s.thread.next a = some pc) : Used fd (s.enter fd pc) := by
  by_cases hret : pc = .returned
  · have hlog : (s.enter fd pc).log = s.log := if_pos hret
    unfold Used
    rw [hlog]
    rcases hu with hopen | ⟨hmain, i, j, hl, hi⟩
    · exact .inl hopen
    · refine .inr ⟨hmain, i, j, hl, hi.imp_right fun hi => ⟨hi.1, ?_⟩⟩
      rw [show (s.enter fd pc).thread = .returned from hret]
      decide
  · have hlog : (s.enter fd pc).log = .use fd :: s.log := if_neg hret
    unfold Used
    rw [hlog]
    rcases hu with ⟨hmain, j, hl⟩ | ⟨hmain, i, j, hl, hi⟩
    · exact .inl ⟨hmain, j + 1, by rw [hl]; rfl⟩
    · refine .inr ⟨hmain, i + 1, j, by rw [hl]; rfl, ?_⟩
      cases i with
      | zero => exact .inl (le_refl _)
      | succ i =>
        -- the call that has ended was one on the closed descriptor
        have hfailed : a = .failed := (hg (by rw [hl]; rfl) (by rw [hl]; simp)).resolve_right hne
        rw [hfailed] at hpc
        have hthread : s.thread = .recvReady ∧ pc = .recvError := next_failed hpc hret
        have hi0 : i = 0 := by
          rw [hthread.1] at hi
          have hrank : ¬ Thread.rank .recvReady ≤ 1 := by decide
          omega
        refine .inr ⟨by omega, ?_⟩
        rw [show (s.enter fd pc).thread = .recvError from hthread.2]
        decide

/-- **A call of either thread** keeps the invariant. -/
theorem Inv.step (hi : Inv fd ls s) (hg : BadDescriptor fd s a) (hs : s.step fd a = some t) : Inv fd (ls ++ [a]) t := by
  have hsteps : (ls ++ [a]).length + (Thread.rank t.thread + Main.rank t.main) ≤ 11 := by
    have := hi.steps
    have := rank_step hs
    rw [List.length_append, List.length_singleton]
    omega
  rcases step_cases hs with ⟨rfl, hmain, rfl⟩ | ⟨rfl, hmain, -, rfl⟩ | ⟨hclose, hjoin, pc, rxBuffer, hpc, rfl⟩
  · have hcalls : calls (ls ++ [.close]) = calls ls := by rw [calls_snoc, if_neg (by simp)]
    refine ⟨hsteps, ?_, ?_, hi.once, ?_, ?_⟩
    · rcases hi.used with ⟨-, j, hl⟩ | ⟨hne, -⟩
      · exact .inr ⟨nofun, 0, j, by rw [hl]; rfl, .inl (Nat.zero_le _)⟩
      · exact absurd hmain hne
    · rw [hcalls]
      exact hi.printed
    · rw [hcalls]
      exact hi.recv
    · rw [hcalls]
      exact hi.ready
  · have hcalls : calls (ls ++ [.join]) = calls ls := by rw [calls_snoc, if_neg (by simp)]
    refine ⟨hsteps, ?_, ?_, hi.once, ?_, ?_⟩
    · rcases hi.used with ⟨hsleep, -⟩ | ⟨-, hclosed⟩
      · rw [hmain] at hsleep
        cases hsleep
      · exact .inr ⟨nofun, hclosed⟩
    · rw [hcalls]
      exact hi.printed
    · rw [hcalls]
      exact hi.recv
    · rw [hcalls]
      exact hi.ready
  · have hcalls : calls (ls ++ [a]) = a :: calls ls := by rw [calls_snoc, if_pos ⟨hclose, hjoin⟩]
    have hused : Used fd { s with rxBuffer, printed := s.printed ++ line s.thread a } := hi.used
    have hrank := rank_next hpc
    refine ⟨hsteps, hused.enter hg hjoin hpc, ?_, ?_, ?_, ?_⟩
    · rw [hcalls]
      change s.printed ++ line s.thread a = _
      by_cases hdata : ∃ bs, a = .data bs
      · obtain ⟨bs, rfl⟩ := hdata
        rcases next_data hpc with ⟨hthread, -⟩ | ⟨hthread, -⟩
        · rw [shown_data (hi.recv hthread), hthread, ← hi.printed]
          exact List.append_nil _
        · obtain ⟨l, hl⟩ := hi.ready hthread
          have hnil : s.printed = [] := by
            by_contra hne
            have := hi.once hne
            rw [hthread] at this
            exact absurd this (by decide)
          rw [hnil, hthread, hl]
          rfl
      · have hno : ∀ bs, a ≠ .data bs := fun bs h => hdata ⟨bs, h⟩
        rw [shown_cons hno, line_nil fun _ => hno, List.append_nil, hi.printed]
    · intro hne
      change Thread.rank pc ≤ 1
      by_cases hnil : s.printed = []
      · have hready : s.thread = .recvReady := by
          by_contra hno
          refine hne ?_
          change s.printed ++ line s.thread a = []
          rw [hnil, line_nil fun h => absurd h hno]
          rfl
        rw [hready] at hrank
        exact Nat.le_of_lt_succ hrank
      · have := hi.once hnil
        omega
    · intro hrecv l
      rw [hcalls, (next_recv hpc).1 hrecv]
      exact nofun
    · intro hready
      exact ⟨calls ls, by rw [hcalls, (next_recv hpc).2 hready]⟩

/-- What is known of both threads after the steps `ls`. -/
structure Outcome (fd : ℕ) (ls : List Action) (s : AsyncConnect) : Prop where
  /-- the main thread closes the socket once, and the thread starts at most two calls on it after that -/
  used : (s.main = .sleep ∧ Proper s.log ∧ live s.log = [fd]) ∨ (s.main ≠ .sleep ∧ ∃ i j, i ≤ 2 ∧
    s.log = List.replicate i (.use fd) ++ .release fd :: history fd j ∧ (Proper s.log ↔ i = 0) ∧ live s.log = [])
  /-- only what a readable socket gave is printed -/
  printed : s.printed = shown (calls ls)
  steps : ls.length ≤ 11
  /-- and neither thread is ever stuck -/
  goes : s.main = .returned ∨ ∃ a, BadDescriptor fd s a ∧ (s.step fd a).isSome = true

/-- Any call may fail. -/
theorem step_failed {p : Thread} (hp : p ≠ .returned) : ∃ q, p.next .failed = some q := by
  cases p with
  | returned => exact absurd rfl hp
  | _ => exact ⟨_, rfl⟩

/-- **Every interleaving** of `tcp_async_connect` and its thread. -/
theorem async_connect (h : (machine fd rx).Run (BadDescriptor fd) (machine fd rx).init ls s) : Outcome fd ls s := by
  have hi : Inv fd ls s := by
    induction h with
    | nil => exact Inv.init
    | snoc _ hg hs ih => exact ih.step hg hs
  refine ⟨?_, hi.printed, (Nat.le_add_right _ _).trans hi.steps, ?_⟩
  · rcases hi.used with ⟨hmain, j, hl⟩ | ⟨hmain, i, j, hl, hle⟩
    · rw [hl]
      exact .inl ⟨hmain, proper_history fd j, live_history fd j⟩
    · refine .inr ⟨hmain, i, j, by omega, hl, ?_, ?_⟩
      · rw [hl]
        exact proper_closed_iff fd i j
      · rw [hl, live_uses]
        simp only [live, live_history, List.erase_cons_head]
  · by_cases hthread : s.thread = .returned
    · cases hmain : s.main with
      | sleep =>
        refine .inr ⟨.close, fun _ hmem => ?_, ?_⟩
        · -- it is still open
          rcases hi.used with ⟨-, j, hl⟩ | ⟨hne, -⟩
          · rw [hl] at hmem
            simp [history] at hmem
          · exact absurd hmain hne
        · simp only [AsyncConnect.step, hmain, if_true, Option.isSome_some]
      | join => exact .inr ⟨.join, fun _ _ => .inr rfl, by simp [AsyncConnect.step, hmain, hthread]⟩
      | returned => exact .inl rfl
    · obtain ⟨q, hq⟩ := step_failed hthread
      exact .inr ⟨.failed, fun _ _ => .inl rfl, by simp [AsyncConnect.step, hq]⟩

/-- The socket is closed while the thread waits in the second `select`. -/
def closedLate : List Action :=
  [.ok, .ok, .pending, .ready true, .ok, .pending, .close, .ready true, .failed, .failed, .join]

/-- `async_connect` at the end of `closedLate`: the last two calls are on a closed descriptor. -/
theorem async_connect_late : ∃ s, (machine 3 (Arr.zeros 128)).Run (BadDescriptor 3) (machine 3 (Arr.zeros 128)).init
    closedLate s ∧ s.main = .returned ∧ s.printed = [] ∧ ¬ Proper s.log := by
  have hrun : ((machine 3 (Arr.zeros 128)).exec (BadDescriptor 3) (machine 3 (Arr.zeros 128)).init closedLate).map
      (fun s => s.main == .returned && s.log.take 2 == [.use 3, .use 3]) = some true := by decide +kernel
  obtain ⟨s, hs, hp⟩ := Option.map_eq_some_iff.1 hrun
  rw [Bool.and_eq_true, beq_iff_eq, beq_iff_eq] at hp
  obtain ⟨hmain, hlog⟩ := hp
  have hout := async_connect (Machine.Run.of_exec hs)
  refine ⟨s, .of_exec hs, hmain, hout.printed.trans (by decide), fun hproper => ?_⟩
  rcases hout.used with ⟨hsleep, -⟩ | ⟨-, i, j, -, hl, hiff, -⟩
  · rw [hmain] at hsleep
    cases hsleep
  · rw [hl, hiff.1 hproper] at hlog
    cases hlog

end AsyncConnect

/-! ## Binding many sockets -/

namespace BindTest

variable {rs : List (Option ℕ × Bool)}

/-- The sockets that are bound, in order. -/
def bound : List (Option ℕ × Bool) → List ℤ
  | (some sock, true) :: rs => sock :: bound rs
  | _ => []

/-- The socket that ends the first loop because it cannot be bound. -/
def unbound : List (Option ℕ × Bool) → List ℤ
  | (some _, true) :: rs => unbound rs
  | (some sock, false) :: _ => [(sock : ℤ)]
  | _ => []

/-- Each socket is counted once, bound or not. -/
theorem length_bound_add (rs : List (Option ℕ × Bool)) : (bound rs).length + (unbound rs).length ≤ rs.length := by
  induction rs with
  | nil => exact Nat.zero_le _
  | cons r rs ih =>
    obtain ⟨sock | sock, ok⟩ := r
    · exact Nat.zero_le _
    · cases ok with
      | false =>
        simp only [bound, unbound, List.length_nil, List.length_cons]
        omega
      | true =>
        simp only [bound, unbound, List.length_cons]
        omega

/-- The test stops at the first `bind` that fails. -/
theorem length_unbound_le (rs : List (Option ℕ × Bool)) : (unbound rs).length ≤ 1 := by
  induction rs with
  | nil => exact Nat.zero_le _
  | cons r rs ih =>
    obtain ⟨sock | sock, ok⟩ := r
    · exact Nat.zero_le _
    · cases ok with
      | false => exact le_refl 1
      | true => exact ih

/-- **What the first loop leaves**: the entries it filled, and sockets that are all open. -/
theorem bindLoop_spec : ∀ (rs : List (Option ℕ × Bool)) (s : BindTest), Proper s.log →
    s.i + rs.length ≤ s.sockArray.length → (bound rs ++ unbound rs ++ live s.log).Nodup →
    (s.bindLoop rs).sockArray = s.sockArray.take s.i ++ bound rs ++ s.sockArray.drop (s.i + (bound rs).length) ∧
      Proper (s.bindLoop rs).log ∧ (live (s.bindLoop rs).log).Perm (bound rs ++ unbound rs ++ live s.log)
  | [], s, hp, _, _ => ⟨by simp [bindLoop, bound], hp, List.Perm.refl _⟩
  | (none, _) :: _, s, hp, _, _ => ⟨by simp [bindLoop, bound], hp, List.Perm.refl _⟩
  | (some sock, false) :: _, s, hp, _, hn => by
    have hnew : (sock : ℤ) ∉ live s.log := (List.nodup_cons.1 hn).1
    refine ⟨by simp [bindLoop, bound], ⟨⟨hp, hnew⟩, List.mem_cons_self⟩, List.Perm.refl _⟩
  | (some sock, true) :: rs, s, hp, hlen, hn => by
    rw [List.length_cons] at hlen
    have hcons : ((sock : ℤ) :: (bound rs ++ unbound rs ++ live s.log)).Nodup := hn
    obtain ⟨hnot, htail⟩ := List.nodup_cons.1 hcons
    have hnew : (sock : ℤ) ∉ live s.log := fun hmem => hnot (List.mem_append_right _ hmem)
    -- the new socket moves to the open ones
    have hperm : ((sock : ℤ) :: (bound rs ++ unbound rs ++ live s.log)).Perm
        (bound rs ++ unbound rs ++ (sock : ℤ) :: live s.log) := List.perm_middle.symm
    obtain ⟨harr, hprop, hlive⟩ := bindLoop_spec rs
      { s with sockArray := s.sockArray.set s.i sock, i := s.i + 1, log := .use (sock : ℤ) :: .acquire (sock : ℤ) :: s.log }
      ⟨⟨hp, hnew⟩, List.mem_cons_self⟩ (by simp only [List.length_set]; omega) (hperm.nodup_iff.1 hcons)
    refine ⟨?_, hprop, hlive.trans hperm.symm⟩
    rw [bindLoop, harr]
    have hi : s.i < s.sockArray.length := by omega
    have htake : (s.sockArray.set s.i (sock : ℤ)).take (s.i + 1) = s.sockArray.take s.i ++ [(sock : ℤ)] := by
      rw [List.set_eq_take_append_cons_drop, if_pos hi, List.append_cons, List.take_left' (by simp; omega)]
    have hdrop : (s.sockArray.set s.i (sock : ℤ)).drop (s.i + 1 + (bound rs).length) =
        s.sockArray.drop (s.i + (bound ((some sock, true) :: rs)).length) := by
      rw [List.drop_set_of_lt (by omega), bound, List.length_cons]
      congr 1
      omega
    rw [htake, hdrop, bound]
    simp only [List.append_assoc, List.singleton_append]

theorem diff_self (as : List ℤ) : as.diff as = [] := by
  induction as with
  | nil => rfl
  | cons a as ih => rw [List.diff_cons, List.erase_cons_head, ih]

/-- **When `tcp_bind_test` closes exactly what it has opened**: if every socket is bound, or if
the last one alone is not and its descriptor happens to be in the array. -/
theorem tcpBindTest_proper_iff {sockArray : List ℤ} (hsize : sockArray.length = 1000) (hrs : 100 ≤ rs.length)
    (hfresh : (bound (rs.take 100) ++ unbound (rs.take 100)).Nodup) :
    (Proper (tcpBindTest sockArray rs).log ↔ (bound (rs.take 100)).length = 100 ∨
      (bound (rs.take 100)).length = 99 ∧ ∃ sock, unbound (rs.take 100) = [sock] ∧ sockArray[99]? = some sock) ∧
    (Proper (tcpBindTest sockArray rs).log → live (tcpBindTest sockArray rs).log = []) := by
  have htotal := length_bound_add (rs.take 100)
  have hone := length_unbound_le (rs.take 100)
  rw [List.length_take, min_eq_left hrs] at htotal
  obtain ⟨harr, hprop, hlive⟩ := bindLoop_spec (rs.take 100) ⟨sockArray, 0, []⟩ trivial
    (by simp only [List.length_take, hsize]; omega) (by simpa only [live, List.append_nil] using hfresh)
  simp only [live, List.append_nil, List.take_zero, List.nil_append, Nat.zero_add] at harr hlive
  set opened := bound (rs.take 100)
  set failed := unbound (rs.take 100)
  -- what the second loop closes: the sockets, and entries that were never filled
  set stale := (sockArray.drop opened.length).take (100 - opened.length)
  have hclosed : ((⟨sockArray, 0, []⟩ : BindTest).bindLoop (rs.take 100)).sockArray.take 100 = opened ++ stale := by
    rw [harr, List.take_append, List.take_of_length_le (by omega)]
  have hstale : stale.length = 100 - opened.length := by
    simp only [stale, List.length_take, List.length_drop, hsize]
    omega
  have hlog : (tcpBindTest sockArray rs).log =
      releaseAll ((⟨sockArray, 0, []⟩ : BindTest).bindLoop (rs.take 100)).log (opened ++ stale) := by
    rw [← hclosed]
    rfl
  have hiff : Proper (tcpBindTest sockArray rs).log ↔ stale.Subperm failed := by
    rw [hlog, proper_releaseAll_iff _ hprop, hlive.subperm_left]
    exact List.subperm_append_left opened
  refine ⟨?_, fun hp => ?_⟩
  · rw [hiff]
    constructor
    · intro hsub
      have hle := hsub.length_le
      rcases Nat.lt_or_ge opened.length 100 with hlt | hge
      · refine .inr ⟨by omega, ?_⟩
        obtain ⟨sock, hsock⟩ := List.length_eq_one_iff.1 (show failed.length = 1 by omega)
        have hperm := hsub.perm_of_length_le (by omega)
        rw [hsock] at hperm
        have hhead : stale[0]? = some sock := by rw [List.perm_singleton.1 hperm]; rfl
        refine ⟨sock, hsock, ?_⟩
        rw [List.getElem?_take_of_lt (by omega), List.getElem?_drop] at hhead
        rwa [show opened.length = 99 by omega] at hhead
      · exact .inl (by omega)
    · rintro (hall | ⟨hall, sock, hsock, hentry⟩)
      · rw [List.length_eq_zero_iff.1 (show stale.length = 0 by omega)]
        exact List.nil_subperm
      · have hone : stale = [sock] := by
          obtain ⟨x, hx⟩ := List.length_eq_one_iff.1 (show stale.length = 1 by omega)
          have hhead : stale[0]? = some sock := by
            rw [List.getElem?_take_of_lt (by omega), List.getElem?_drop, hall]
            exact hentry
          rw [hx] at hhead ⊢
          cases hhead
          rfl
        rw [hone, hsock]
  · have hsub := hiff.1 hp
    have hle := hsub.length_le
    have hperm : stale.Perm failed := hsub.perm_of_length_le (by omega)
    rw [hlog, live_releaseAll]
    have hdiff := (hlive.trans (hperm.symm.append_left opened)).diff_right (opened ++ stale)
    rw [diff_self] at hdiff
    exact hdiff.eq_nil

/-- 99 sockets are bound, and the last one, 102, is not. -/
def lastUnbound : List (Option ℕ × Bool) := (List.range 99).map (fun i => (some (i + 3), true)) ++ [(some 102, false)]

theorem length_bound_lastUnbound : (bound (lastUnbound.take 100)).length = 99 := by decide +kernel

theorem unbound_lastUnbound : unbound (lastUnbound.take 100) = [102] := by decide +kernel

theorem nodup_lastUnbound : (bound (lastUnbound.take 100) ++ unbound (lastUnbound.take 100)).Nodup := by decide +kernel

/-- `tcpBindTest_proper_iff` where the array happens to hold 102: everything is closed. -/
theorem tcpBindTest_lastUnbound : Proper (tcpBindTest (List.replicate 1000 102) lastUnbound).log ∧
    live (tcpBindTest (List.replicate 1000 102) lastUnbound).log = [] := by
  have hentry : (List.replicate 1000 (102 : ℤ))[99]? = some 102 := List.getElem?_replicate_of_lt (by omega)
  have hlen : 100 ≤ lastUnbound.length := by decide
  obtain ⟨hiff, hlive⟩ := tcpBindTest_proper_iff (List.length_replicate (a := (102 : ℤ))) hlen nodup_lastUnbound
  have hproper := hiff.mpr (Or.inr ⟨length_bound_lastUnbound, 102, unbound_lastUnbound, hentry⟩)
  exact ⟨hproper, hlive hproper⟩

end BindTest

end EspNetwork.SocketClient
