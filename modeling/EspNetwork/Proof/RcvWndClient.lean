import EspNetwork.Spec.RcvWndClient

/-!
# The receive loop near the end of its buffer

One byte of `rx_buffer` is kept for the terminator, so at most 1499 bytes are received.

* `Inv.step`: what every result of `recv` preserves.
* `receive_loop_safe`: **the loop keeps to its buffer and loses nothing**, for every
  sequence of results.
* `complete_response_missed`: as many bytes are expected as the buffer has, so a peer that
  sends them all is never recognised.
-/

namespace EspNetwork.RcvWnd

open CLib Lts

variable {rx : Arr 1500} {s t : State} {r : Recv} {rs : List Recv} {total attempts : ℕ}

def Recv.bytes : Recv → Bytes
  | .failed => []
  | .data bs => bs

/-- What `recv` has returned so far. -/
def pieces (rs : List Recv) : Bytes := rs.flatMap Recv.bytes

theorem pieces_concat : pieces (rs ++ [r]) = pieces rs ++ r.bytes := by
  simp [pieces]

/-! ## The head of the loop -/

theorem remainingBuffer_eq (h : total ≤ 1499) : State.remainingBuffer total = 1499 - total := by
  have hmod : ((1500 : ℤ) - total - 1) % 2 ^ 32 = 1499 - total := by
    rw [Int.emod_eq_of_lt] <;> omega
  unfold State.remainingBuffer
  rw [hmod, Int.bmod_eq_of_le] <;> omega

/-- **Before a `recv`.** Another one is made, or the buffer is full, or it was the last. -/
theorem head_cases (ht : total ≤ 1499) (ha : attempts ≤ 100) :
    (total < 1499 ∧ attempts < 100 ∧ State.head total attempts = .recv (min (1499 - (total : ℤ)) 128)) ∨
    (total = 1499 ∧ State.head total attempts = .ended .bufferFull) ∨
    (attempts = 100 ∧ State.head total attempts = .ended .condition) := by
  have hexpected : (total : ℤ) < EXPECTED_RESPONSE_SIZE := by
    unfold EXPECTED_RESPONSE_SIZE
    omega
  unfold State.head
  rw [remainingBuffer_eq ht]
  by_cases hmax : attempts < maxAttempts
  · rw [if_pos ⟨hexpected, hmax⟩]
    by_cases hfull : (1499 : ℤ) - total ≤ 0
    · rw [if_pos hfull]
      exact .inr (.inl ⟨by omega, rfl⟩)
    · rw [if_neg hfull]
      refine .inl ⟨by omega, hmax, ?_⟩
      unfold BATCH
      congr 1
      split <;> omega
  · rw [if_neg fun h => hmax h.2]
    unfold maxAttempts at hmax
    exact .inr (.inr ⟨by omega, rfl⟩)

/-! ## The invariant -/

/-- Why the loop ended after the results `rs`. -/
def Stop.Reason (rs : List Recv) (s : State) : Stop → Prop
  | .condition => rs.length = 100
  | .bufferFull => s.totalReceived = 1499
  | .failed => rs.getLast? = some .failed
  | .closed => rs.getLast? = some (.data [])
  | .success => False

structure Inv (rs : List Recv) (s : State) : Prop where
  attempts : s.receiveAttempts = rs.length
  le : rs.length ≤ 100
  total : s.totalReceived = (pieces rs).length
  room : s.totalReceived ≤ 1499
  buffer : s.rxBuffer.data.take s.totalReceived = pieces rs
  recv : ∀ n, s.pc = .recv n → n = min (1499 - (s.totalReceived : ℤ)) 128 ∧ 1 ≤ n ∧ rs.length < 100
  ended : ∀ stop, s.pc = .ended stop → stop.Reason rs s

/-- At the head of the loop only the place in it is new. -/
theorem Inv.of_head (hpc : s.pc = State.head s.totalReceived s.receiveAttempts) (hattempts : s.receiveAttempts = rs.length)
    (hle : rs.length ≤ 100) (htotal : s.totalReceived = (pieces rs).length) (hroom : s.totalReceived ≤ 1499)
    (hbuffer : s.rxBuffer.data.take s.totalReceived = pieces rs) : Inv rs s := by
  have hcases := head_cases hroom (show s.receiveAttempts ≤ 100 by omega)
  rw [← hpc] at hcases
  refine ⟨hattempts, hle, htotal, hroom, hbuffer, fun n hn => ?_, fun stop hstop => ?_⟩
  · rcases hcases with ⟨hlt, hlast, he⟩ | ⟨-, he⟩ | ⟨-, he⟩
    · obtain rfl := Pc.recv.inj (hn.symm.trans he)
      refine ⟨rfl, ?_, ?_⟩ <;> omega
    · exact absurd (hn.symm.trans he) nofun
    · exact absurd (hn.symm.trans he) nofun
  · rcases hcases with ⟨-, -, he⟩ | ⟨hfull, he⟩ | ⟨hlast, he⟩
    · exact absurd (hstop.symm.trans he) nofun
    · obtain rfl := Pc.ended.inj (hstop.symm.trans he)
      exact hfull
    · obtain rfl := Pc.ended.inj (hstop.symm.trans he)
      exact hattempts.symm.trans hlast

theorem Inv.init : Inv [] (State.machine rx).init :=
  .of_head (by simp only [State.machine]) rfl (Nat.zero_le _) rfl (Nat.zero_le _) List.take_zero

theorem Inv.step (hi : Inv rs s) (h : s.step r = some t) : Inv (rs ++ [r]) t := by
  unfold State.step at h
  split at h
  · cases h
  · rename_i n hpc
    obtain ⟨hn, hpos, hlt⟩ := hi.recv n hpc
    have hlen : (rs ++ [r]).length = rs.length + 1 := List.length_append
    have hattempts : s.receiveAttempts + 1 = (rs ++ [r]).length := by rw [hi.attempts, hlen]
    cases r with
    | failed =>
      simp only [Option.some.injEq] at h
      subst h
      have hsame : pieces (rs ++ [.failed]) = pieces rs := by rw [pieces_concat, Recv.bytes, List.append_nil]
      refine ⟨hattempts, by omega, by rw [hsame]; exact hi.total, hi.room, by rw [hsame]; exact hi.buffer, nofun,
        fun stop hstop => ?_⟩
      obtain rfl := Pc.ended.inj hstop
      exact List.getLast?_concat
    | data bs =>
      simp only [Option.ite_none_right_eq_some] at h
      obtain ⟨hfit, h⟩ := h
      have hmore : pieces (rs ++ [.data bs]) = pieces rs ++ bs := pieces_concat
      split at h
      · rename_i hnil
        obtain rfl := List.eq_nil_of_length_eq_zero hnil
        simp only [Option.some.injEq] at h
        subst h
        rw [List.append_nil] at hmore
        refine ⟨hattempts, by omega, by rw [hmore]; exact hi.total, hi.room, by rw [hmore]; exact hi.buffer, nofun,
          fun stop hstop => ?_⟩
        obtain rfl := Pc.ended.inj hstop
        exact List.getLast?_concat
      · obtain ⟨rx', hstore, rfl⟩ := Option.map_eq_some_iff.1 h
        have hroom : s.totalReceived + bs.length ≤ 1499 := by omega
        have hexpected : ¬ EXPECTED_RESPONSE_SIZE ≤ ((s.totalReceived + bs.length : ℕ) : ℤ) := by
          unfold EXPECTED_RESPONSE_SIZE
          omega
        -- the piece goes behind the ones before it
        have hbuffer : rx'.data.take (s.totalReceived + bs.length) = pieces (rs ++ [.data bs]) := by
          have hsize := s.rxBuffer.size_eq
          have hfront : (s.rxBuffer.data.take s.totalReceived ++ bs).length = s.totalReceived + bs.length := by
            rw [List.length_append, List.length_take]
            omega
          rw [(Arr.store_eq_some_iff.1 hstore).2, List.take_left' hfront, hi.buffer, hmore]
        refine .of_head ?_ hattempts (by omega) ?_ hroom hbuffer
        · exact if_neg hexpected
        · rw [hmore, List.length_append, ← hi.total]

theorem inv_of_run (h : (State.machine rx).Run anyStep (State.machine rx).init rs s) : Inv rs s := by
  induction h with
  | nil => exact .init
  | snoc _ _ hs ih => exact ih.step hs

/-- Every result of `recv` the environment may choose has a successor. -/
theorem Inv.step_isSome {n : ℤ} (hi : Inv rs s) (hpc : s.pc = .recv n) (hr : r.bytes.length ≤ n) : (s.step r).isSome := by
  obtain ⟨hn, -, -⟩ := hi.recv n hpc
  unfold State.step
  rw [hpc]
  cases r with
  | failed => rfl
  | data bs =>
    have hr : (bs.length : ℤ) ≤ n := hr
    dsimp only
    rw [if_pos hr]
    split
    · rfl
    · rw [Option.isSome_map]
      exact Arr.store_isSome_iff.2 (by omega)

/-- **The receive loop keeps to its buffer and loses nothing.** After any results: at most
100 calls have been made; the next one, if any, fits in front of the last byte, and each of
its results has a successor; what has been received is in the buffer, in order; and once
the loop has ended, the terminating store succeeds and there is a reason for the end. -/
theorem receive_loop_safe (h : (State.machine rx).Run anyStep (State.machine rx).init rs s) :
    rs.length ≤ 100 ∧ s.totalReceived = (pieces rs).length ∧ s.rxBuffer.data.take s.totalReceived = pieces rs ∧
    (∀ n, s.pc = .recv n → rs.length < 100 ∧ 1 ≤ n ∧ n ≤ 128 ∧ s.totalReceived + n ≤ 1499 ∧
      ∀ r : Recv, r.bytes.length ≤ n → (s.step r).isSome) ∧
    (∀ stop, s.pc = .ended stop → s.totalReceived < 1500 ∧ s.terminate.isSome ∧ stop.Reason rs s) := by
  have hi := inv_of_run h
  have hroom := hi.room
  refine ⟨hi.le, hi.total, hi.buffer, fun n hpc => ?_, fun stop hpc => ⟨by omega, ?_, hi.ended stop hpc⟩⟩
  · obtain ⟨hn, hpos, hlt⟩ := hi.recv n hpc
    exact ⟨hlt, hpos, by omega, by omega, fun r hr => hi.step_isSome hpc hr⟩
  · unfold State.terminate
    split
    · rw [Arr.store_isSome_iff, List.length_singleton]
      omega
    · rfl

/-- A response of 1300 bytes with its headers, in pieces of the full batch, then the end. -/
def shortResponse : List Recv := List.replicate 10 (.data (List.replicate 128 65)) ++ [.data (List.replicate 108 66), .data []]

theorem receive_loop_safe_short : ∃ s, (State.machine (Arr.zeros 1500)).Run anyStep (State.machine (Arr.zeros 1500)).init
    shortResponse s ∧ s.pc = .ended .closed ∧ s.totalReceived = (pieces shortResponse).length ∧ s.terminate.isSome := by
  have hrun : ((State.machine (Arr.zeros 1500)).exec anyStep (State.machine (Arr.zeros 1500)).init shortResponse).map
      (fun s => decide (s.pc = .ended .closed)) = some true := by decide +kernel
  obtain ⟨s, hs, hp⟩ := Option.map_eq_some_iff.1 hrun
  have hpc := of_decide_eq_true hp
  obtain ⟨-, htotal, -, -, hended⟩ := receive_loop_safe (Machine.Run.of_exec hs)
  exact ⟨s, .of_exec hs, hpc, htotal, (hended _ hpc).2.1⟩

/-! ## A complete response -/

/-- The loop ends by recognising the response. -/
def Recognised (s : State) : Prop := s.pc = .ended .success ∧ EXPECTED_RESPONSE_SIZE ≤ s.totalReceived

/-- The results the loop takes, and the ones it leaves once it has ended. -/
theorem run_of_receive (rx : Arr 1500) (h : s.receive rs = some t) :
    ∃ taken rest, rs = taken ++ rest ∧ (State.machine rx).Run anyStep s taken t ∧
      (rest = [] ∨ ∃ stop, t.pc = .ended stop) := by
  induction rs generalizing s with
  | nil =>
    rw [State.receive, Option.some.injEq] at h
    subst h
    exact ⟨[], [], rfl, .nil, .inl rfl⟩
  | cons r rs ih =>
    rw [State.receive] at h
    split at h
    · rename_i stop hpc
      rw [Option.some.injEq] at h
      subst h
      exact ⟨[], r :: rs, rfl, .nil, .inr ⟨stop, hpc⟩⟩
    · obtain ⟨u, hu, h⟩ := Option.bind_eq_some_iff.1 h
      obtain ⟨taken, rest, rfl, hrun, hrest⟩ := ih h
      exact ⟨r :: taken, rest, rfl, .cons trivial hu hrun, hrest⟩

/-- **A complete response is never recognised.** Whenever the peer has sent all the bytes
expected by the 100th result, the loop has ended with one byte missing. -/
theorem complete_response_missed (hpos : ∀ r ∈ rs, r.bytes ≠ []) (hlen : rs.length ≤ 100)
    (hall : EXPECTED_RESPONSE_SIZE ≤ (pieces rs).length) (h : (State.machine rx).init.receive rs = some s) :
    ¬ Recognised s ∧ s.pc = .ended .bufferFull ∧ s.totalReceived = 1499 := by
  obtain ⟨taken, rest, rfl, hrun, hrest⟩ := run_of_receive rx h
  have hi := inv_of_run hrun
  have hroom := hi.room
  -- a result is left, since not all bytes have been received
  have hleft : rest ≠ [] := by
    rintro rfl
    rw [List.append_nil, ← hi.total, EXPECTED_RESPONSE_SIZE] at hall
    omega
  obtain ⟨stop, hpc⟩ := hrest.resolve_left hleft
  have hreason := hi.ended stop hpc
  have hlast : ∀ r, taken.getLast? = some r → r.bytes ≠ [] := fun r hr =>
    hpos r (List.mem_append_left _ (List.mem_of_getLast? hr))
  cases stop with
  | condition =>
    have hpos' := List.length_pos_iff.2 hleft
    have hlength : taken.length = 100 := hreason
    rw [List.length_append] at hlen
    omega
  | bufferFull => exact ⟨fun hs => absurd (hpc.symm.trans hs.1) nofun, hpc, hreason⟩
  | failed => exact absurd rfl (hlast _ hreason)
  | closed => exact absurd rfl (hlast _ hreason)
  | success => exact hreason.elim

/-- 1500 bytes in twelve pieces, and the last one. -/
def completeResponse : List Recv :=
  List.replicate 11 (.data (List.replicate 128 65)) ++ [.data (List.replicate 91 66), .data [67]]

theorem complete_response_missed_twelve : ∃ s, (State.machine (Arr.zeros 1500)).init.receive completeResponse = some s ∧
    ¬ Recognised s ∧ s.pc = .ended .bufferFull ∧ s.totalReceived = 1499 := by
  have hsome : ((State.machine (Arr.zeros 1500)).init.receive completeResponse).isSome := by decide +kernel
  obtain ⟨s, hs⟩ := Option.isSome_iff_exists.1 hsome
  exact ⟨s, hs, complete_response_missed (by decide +kernel) (by decide) (by decide +kernel) hs⟩

/-- All 1500 bytes have been sent in thirteen pieces; the loop gives up before the last. -/
theorem last_byte_not_read : EXPECTED_RESPONSE_SIZE ≤ (pieces completeResponse).length ∧
    ((State.machine (Arr.zeros 1500)).init.receive completeResponse).map
      (fun s => (s.pc, s.totalReceived, s.receiveAttempts)) = some (.ended .bufferFull, 1499, 12) := by
  constructor <;> decide +kernel

end EspNetwork.RcvWnd
