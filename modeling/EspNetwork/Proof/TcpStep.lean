import EspNetwork.Spec.TcpServer

/-!
# What one step of the TCP server can do

`Server.Step` lists the ways through the code from one system call to the next, with
the tests on the way as hypotheses; `Server.step_cases` says that there are no others.
-/

namespace EspNetwork.Tcp.Server

open CLib

variable {s t : Server} {l : Label}

inductive Step (s : Server) : Label → Server → Prop
  /-- there is a free slot -/
  | free {k : ℕ} (hpc : s.pc = .head) (hk : s.sock.findIdx? (·.isNone) = some k) :
    Step s .tau { s with pc := .accept k }
  /-- all slots are taken -/
  | full (hpc : s.pc = .head) (hk : s.sock.findIdx? (·.isNone) = none) : Step s .tau { s with pc := .serve 0 }
  /-- a new client -/
  | accepted {k fd : ℕ} (hpc : s.pc = .accept k) : Step s (.accept (.ok fd))
      { s with sock := s.sock.set k (some fd), pc := .fcntl k, log := .accept (.ok fd) :: s.log }
  /-- no pending connection -/
  | noClient {k : ℕ} (hpc : s.pc = .accept k) : Step s (.accept (.error .eagain))
      { s with sock := s.sock.set k none, pc := .serve 0, log := .accept (.error .eagain) :: s.log }
  | acceptFailed {k : ℕ} {e : Errno} (hpc : s.pc = .accept k) (he : e ≠ .eagain) : Step s (.accept (.error e))
      { s with sock := s.sock.set k none, pc := .error, log := .accept (.error e) :: s.log }
  | fcntl {k fd : ℕ} (hpc : s.pc = .fcntl k) (hfd : s.sock[k]? = some (some fd)) :
    Step s (.fcntl true) { s with pc := .serve 0, log := .fcntl fd true :: s.log }
  | fcntlFailed {k fd : ℕ} (hpc : s.pc = .fcntl k) (hfd : s.sock[k]? = some (some fd)) :
    Step s (.fcntl false) { s with pc := .error, log := .fcntl fd false :: s.log }
  /-- the service loop skips a free slot -/
  | skip {i : ℕ} (hpc : s.pc = .serve i) (hi : s.sock[i]? = some none) :
    Step s .tau { s with pc := .serve (i + 1) }
  /-- the service loop has ended -/
  | pass {i : ℕ} (hpc : s.pc = .serve i) (hi : s.sock[i]? = none) :
    Step s .tau { s with pc := .head, log := .usleep :: s.log }
  | received {i fd : ℕ} {data : Bytes} {rx : Arr 128} (hpc : s.pc = .serve i)
      (hfd : s.sock[i]? = some (some fd)) (hrx : s.rxBuffer.store 0 data = some rx) (hne : data ≠ []) :
    Step s (.recv (.ok data))
      { s with rxBuffer := rx, pc := .send i data.length data.length, log := .recv fd (.ok data) :: s.log }
  /-- `recv` returns 0 -/
  | receivedEnd {i fd : ℕ} {rx : Arr 128} (hpc : s.pc = .serve i) (hfd : s.sock[i]? = some (some fd))
      (hrx : s.rxBuffer.store 0 [] = some rx) : Step s (.recv (.ok []))
      { s with rxBuffer := rx, pc := .serve (i + 1), log := .recv fd (.ok []) :: s.log }
  | noData {i fd : ℕ} {e : Errno} (hpc : s.pc = .serve i) (hfd : s.sock[i]? = some (some fd))
      (he : e.soft = true) :
    Step s (.recv (.error e)) { s with pc := .serve (i + 1), log := .recv fd (.error e) :: s.log }
  | recvFailed {i fd : ℕ} {e : Errno} (hpc : s.pc = .serve i) (hfd : s.sock[i]? = some (some fd))
      (he : e.soft = false) :
    Step s (.recv (.error e)) { s with pc := .close i, log := .recv fd (.error e) :: s.log }
  | sent {i fd len k : ℕ} {w : ℤ} (hpc : s.pc = .send i len w) (hfd : s.sock[i]? = some (some fd))
      (ho : w ≤ len) (hk : k ≤ w) :
    Step s (.send (.ok k))
      { s with pc := sendLoop i len (w - k)
               log := .send fd (len - w) w (.ok ((s.rxBuffer.data.drop (len - w).toNat).take k)) :: s.log }
  /-- a full send buffer -/
  | sentNone {i fd len : ℕ} {w : ℤ} {e : Errno} (hpc : s.pc = .send i len w)
      (hfd : s.sock[i]? = some (some fd)) (ho : w ≤ len) (he : e.soft = true) :
    Step s (.send (.error e))
      { s with pc := sendLoop i len (w - (-1)), log := .send fd (len - w) w (.error e) :: s.log }
  | sendFailed {i fd len : ℕ} {w : ℤ} {e : Errno} (hpc : s.pc = .send i len w)
      (hfd : s.sock[i]? = some (some fd)) (ho : w ≤ len) (he : e.soft = false) :
    Step s (.send (.error e)) { s with pc := .close i, log := .send fd (len - w) w (.error e) :: s.log }
  /-- a slot is given back -/
  | close {i fd : ℕ} (hpc : s.pc = .close i) (hfd : s.sock[i]? = some (some fd)) :
    Step s .tau { s with pc := .serve (i + 1), sock := s.sock.set i none, log := .close fd :: s.log }
  | error (hpc : s.pc = .error) : Step s .tau { s with pc := .sweep 0, log := .close s.listenSock :: s.log }
  | sweepSkip {i : ℕ} (hpc : s.pc = .sweep i) (hi : s.sock[i]? = some none) :
    Step s .tau { s with pc := .sweep (i + 1) }
  | sweepClose {i fd : ℕ} (hpc : s.pc = .sweep i) (hfd : s.sock[i]? = some (some fd)) :
    Step s .tau { s with pc := .sweep (i + 1), log := .close fd :: s.log }
  | sweepEnd {i : ℕ} (hpc : s.pc = .sweep i) (hi : s.sock[i]? = none) : Step s .tau { s with pc := .done }

/-- The steps of the server by itself. -/
theorem tau_cases (hs : s.tau = some t) : Step s .tau t := by
  unfold tau at hs
  split at hs
  · rename_i hpc
    split at hs
    · rename_i k hk
      simp only [Option.some.injEq] at hs; subst hs
      exact .free hpc hk
    · rename_i hk
      simp only [Option.some.injEq] at hs; subst hs
      exact .full hpc hk
  · rename_i i hpc
    split at hs
    · rename_i hi
      simp only [Option.some.injEq] at hs; subst hs
      exact .pass hpc hi
    · rename_i hi
      simp only [Option.some.injEq] at hs; subst hs
      exact .skip hpc hi
    · exact absurd hs (by simp)
  · rename_i i hpc
    split at hs
    · rename_i fd hfd
      simp only [Option.some.injEq] at hs; subst hs
      exact .close hpc hfd
    · exact absurd hs (by simp)
  · rename_i hpc
    simp only [Option.some.injEq] at hs; subst hs
    exact .error hpc
  · rename_i i hpc
    split at hs
    · rename_i hi
      simp only [Option.some.injEq] at hs; subst hs
      exact .sweepEnd hpc hi
    · rename_i hi
      simp only [Option.some.injEq] at hs; subst hs
      exact .sweepSkip hpc hi
    · rename_i fd hfd
      simp only [Option.some.injEq] at hs; subst hs
      exact .sweepClose hpc hfd
  · exact absurd hs (by simp)

/-- The step an `accept` makes. -/
theorem accept_cases {k : ℕ} {r : Except Errno ℕ} (hpc : s.pc = .accept k) :
    Step s (.accept r) (s.accept k r) := by
  cases r with
  | ok fd => exact .accepted hpc
  | error e =>
    unfold accept
    by_cases he : e = .eagain
    · subst he
      exact .noClient hpc
    · simp only [he, if_false]
      exact .acceptFailed hpc he

/-- `try_receive` and the three ways on from it. -/
theorem received_cases {i fd : ℕ} {r : Except Errno Bytes} (hpc : s.pc = .serve i)
    (hfd : s.sock[i]? = some (some fd)) (hs : s.received i fd r = some t) : Step s (.recv r) t := by
  obtain ⟨rx, hrx, rfl⟩ := Option.map_eq_some_iff.1 hs
  cases r with
  | ok data =>
    have hnn : ¬ ((data.length : ℤ) < 0) := by omega
    simp only [tryReceive, hnn, if_false]
    by_cases hne : data = []
    · subst hne
      exact .receivedEnd hpc hfd hrx
    · have hpos : 0 < (data.length : ℤ) := by
        have := List.length_pos_iff.2 hne
        omega
      simp only [hpos, if_true, sendLoop, Int.toNat_natCast]
      exact .received hpc hfd hrx hne
  | error e =>
    obtain rfl := Option.some.inj hrx
    cases he : e.soft with
    | true =>
      simp only [tryReceive, he, if_true, lt_irrefl, if_false]
      exact .noData hpc hfd he
    | false =>
      have hneg : tryReceive (.error e) < 0 := by
        simp only [tryReceive, he, Bool.false_eq_true, if_false]
        split <;> decide
      simp only [hneg, if_true]
      exact .recvFailed hpc hfd he

/-- The step a `send` makes. -/
theorem sent_cases {i fd len : ℕ} {w : ℤ} {r : Except Errno ℕ} (hpc : s.pc = .send i len w)
    (hfd : s.sock[i]? = some (some fd)) (hs : s.sent i fd len w r = some t) : Step s (.send r) t := by
  unfold sent at hs
  simp only at hs
  split at hs
  · rename_i ho
    cases r with
    | ok k =>
      simp only at hs
      split at hs
      · rename_i hk
        simp only [Option.some.injEq] at hs; subst hs
        exact .sent hpc hfd (by omega) hk
      · exact absurd hs (by simp)
    | error e =>
      simp only [Option.some.injEq] at hs; subst hs
      cases he : e.soft with
      | true => exact .sentNone hpc hfd (by omega) he
      | false => exact .sendFailed hpc hfd (by omega) he
  · exact absurd hs (by simp)

/-- **There are no other steps.** -/
theorem step_cases (hs : s.step l = some t) : Step s l t := by
  cases l with
  | tau => exact tau_cases hs
  | accept r =>
    simp only [step] at hs
    split at hs
    · rename_i k hpc
      simp only [Option.some.injEq] at hs; subst hs
      exact accept_cases hpc
    · exact absurd hs (by simp)
  | fcntl ok =>
    simp only [step] at hs
    split at hs
    · rename_i k hpc
      split at hs
      · rename_i fd hfd
        simp only [Option.some.injEq] at hs; subst hs
        cases ok with
        | true => exact .fcntl hpc hfd
        | false => exact .fcntlFailed hpc hfd
      · exact absurd hs (by simp)
    · exact absurd hs (by simp)
  | recv r =>
    simp only [step] at hs
    split at hs
    · rename_i i hpc
      split at hs
      · rename_i fd hfd
        exact received_cases hpc hfd hs
      · exact absurd hs (by simp)
    · exact absurd hs (by simp)
  | send r =>
    simp only [step] at hs
    split at hs
    · rename_i i len w hpc
      split at hs
      · rename_i fd hfd
        exact sent_cases hpc hfd hs
      · exact absurd hs (by simp)
    · exact absurd hs (by simp)

end EspNetwork.Tcp.Server
