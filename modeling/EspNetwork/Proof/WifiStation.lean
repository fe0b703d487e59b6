import EspNetwork.Spec.WifiStation

/-!
# When the station gives up

The handler counts the failures since the last address, and stops calling
`esp_wifi_connect` after `maxRetry` retries. The driver posts nothing on an idle link, so
that nothing calls it again.

* `Phase`: the link, the events on their way and what was handled, at every point.
* `station_report`: **what `wifi_init_sta` reports**, and that it is never left waiting.
* `station_gives_up`: **one failure more than there are retries ends it for good**, also after
  it has been connected.
-/

namespace EspNetwork.Wifi

open Lts

variable {maxRetry : ℕ}

/-- The failures since the last address. -/
def failures (es : List Event) : ℕ :=
  es.foldl (fun n e => match e with
    | .staStart => n
    | .staDisconnected => n + 1
    | .gotIp => 0) 0

@[simp] theorem failures_start (es : List Event) : failures (es ++ [.staStart]) = failures es := by
  simp [failures]

@[simp] theorem failures_disconnected (es : List Event) :
    failures (es ++ [.staDisconnected]) = failures es + 1 := by
  simp [failures]

@[simp] theorem failures_gotIp (es : List Event) : failures (es ++ [.gotIp]) = 0 := by
  simp [failures]

/-- Without an address every event after the first is a failure. -/
theorem eq_replicate_failures {rest : List Event} (hs : .staStart ∉ rest) (hg : .gotIp ∉ rest) :
    rest = List.replicate (failures (.staStart :: rest)) .staDisconnected := by
  induction rest using List.reverseRecOn with
  | nil => rfl
  | append_singleton rest e ih =>
    rw [List.mem_append, List.mem_singleton, not_or] at hs hg
    obtain ⟨hs, hse⟩ := hs
    obtain ⟨hg, hge⟩ := hg
    have he : e = .staDisconnected := by
      cases e with
      | staStart => exact absurd rfl hse
      | staDisconnected => rfl
      | gotIp => exact absurd rfl hge
    rw [he, ← List.cons_append, failures_disconnected, List.replicate_succ', ← ih hs hg]

namespace State

variable {s t : State} {l : Label} {e : Event}

/-- The station has been started. -/
def Started (s : State) : Prop := s.main ≠ .init ∧ ∃ rest, s.handled = .staStart :: rest ∧ .staStart ∉ rest

/-- The link, the events on their way and what was handled. -/
inductive Phase (maxRetry : ℕ) (s : State) : Prop
  | before (hmain : s.main = .init) (hlink : s.link = .idle) (hqueue : s.queue = []) (hhandled : s.handled = [])
  | starting (hmain : s.main ≠ .init) (hlink : s.link = .idle) (hqueue : s.queue = [.staStart])
      (hhandled : s.handled = [])
  | live (hs : s.Started) (hlink : s.link ≠ .idle) (hqueue : ∀ e ∈ s.queue, e = .gotIp)
      (hfail : failures s.handled ≤ maxRetry)
  | lost {q : List Event} (hs : s.Started) (hlink : s.link = .idle) (hqueue : s.queue = q ++ [.staDisconnected])
      (hq : ∀ e ∈ q, e = .gotIp) (hfail : failures s.handled ≤ maxRetry)
  | gaveUp (hs : s.Started) (hlink : s.link = .idle) (hqueue : s.queue = [])
      (hfail : failures s.handled = maxRetry + 1)

/-- What the handler keeps, by the events handled. -/
structure Account (maxRetry : ℕ) (s : State) : Prop where
  retryNum : s.retryNum = min (failures s.handled) maxRetry
  connected : s.bits.connected = true ↔ .gotIp ∈ s.handled
  fail : s.bits.fail = true ↔ failures s.handled = maxRetry + 1
  waiting : s.main = .waiting → s.bits.any = false
  finished : ∀ r, s.main = .finished r → r = .connected ∧ .gotIp ∈ s.handled ∨
    r = .failed ∧ .gotIp ∉ s.handled ∧ failures s.handled = maxRetry + 1
  connects : s.connects + (if failures s.handled = maxRetry + 1 then 1 else 0) =
    s.handled.count .staStart + s.handled.count .staDisconnected

/-- The bits that end the wait say what was handled. -/
theorem report_of_any (h : s.bits.any = true) (hc : s.bits.connected = true ↔ .gotIp ∈ s.handled)
    (hf : s.bits.fail = true ↔ failures s.handled = maxRetry + 1) :
    s.bits.report = .connected ∧ .gotIp ∈ s.handled ∨
      s.bits.report = .failed ∧ .gotIp ∉ s.handled ∧ failures s.handled = maxRetry + 1 := by
  rw [Bits.any, Bool.or_eq_true] at h
  unfold Bits.report
  by_cases hcon : s.bits.connected = true
  · exact .inl ⟨if_pos hcon, hc.1 hcon⟩
  · have hfail : s.bits.fail = true := h.resolve_left hcon
    refine .inr ⟨by rw [if_neg hcon, if_pos hfail], fun hg => hcon (hc.2 hg), hf.1 hfail⟩

/-- A bit is set, and the task that waits goes on. -/
theorem Account.setBits {u : State} (b : Bits) (hmain : ∀ r, u.main = .finished r → r = .connected ∧ .gotIp ∈ u.handled ∨
      r = .failed ∧ .gotIp ∉ u.handled ∧ failures u.handled = maxRetry + 1)
    (hb : b.any = true) (hretry : u.retryNum = min (failures u.handled) maxRetry)
    (hc : (u.bits.connected || b.connected) = true ↔ .gotIp ∈ u.handled)
    (hf : (u.bits.fail || b.fail) = true ↔ failures u.handled = maxRetry + 1)
    (hconn : u.connects + (if failures u.handled = maxRetry + 1 then 1 else 0) =
      u.handled.count .staStart + u.handled.count .staDisconnected) : (u.setBits b).Account maxRetry := by
  have hany : (u.setBits b).bits.any = true := by
    simp only [State.setBits, Bits.any, Bool.or_eq_true] at hb ⊢
    exact hb.elim (fun h => .inl (.inr h)) fun h => .inr (.inr h)
  have hreport := report_of_any hany hc hf
  refine ⟨hretry, hc, hf, ?_, ?_, hconn⟩
  · intro hw
    by_cases hwait : u.main = .waiting
    · simp only [State.setBits] at hw
      rw [if_pos ⟨hwait, hany⟩] at hw
      exact absurd hw nofun
    · simp only [State.setBits, hwait, false_and, if_false] at hw
  · intro r hr
    by_cases hwait : u.main = .waiting
    · simp only [State.setBits] at hr
      rw [if_pos ⟨hwait, hany⟩, Main.finished.injEq] at hr
      rw [← hr]
      exact hreport
    · simp only [State.setBits, hwait, false_and, if_false] at hr
      exact hmain r hr

/-- What `handle` hands to the handler. -/
def taken (s : State) (e : Event) (queue : List Event) : State := { s with queue := queue, handled := s.handled ++ [e] }

/-- The state in which the handler starts to run counts as before, but for the event. -/
structure Handling (maxRetry : ℕ) (s : State) (e : Event) : Prop extends Account maxRetry s where
  /-- nothing is handled after the station has given up -/
  going : failures s.handled ≤ maxRetry

/-- While an event is handled, what `app_main` returned agrees with the events. -/
theorem Handling.main (h : Handling maxRetry s e) (q : List Event) :
    ∀ r, (s.taken e q).main = .finished r → r = .connected ∧ .gotIp ∈ (s.taken e q).handled ∨
      r = .failed ∧ .gotIp ∉ (s.taken e q).handled ∧ failures (s.taken e q).handled = maxRetry + 1 := by
  intro r hr
  have hgoing := h.going
  rcases h.finished r hr with ⟨hc, hg⟩ | ⟨-, -, hf⟩
  · exact .inl ⟨hc, List.mem_append_left _ hg⟩
  · omega

/-- Each start and each lost attempt made one connect. -/
theorem Handling.connects_eq (h : Handling maxRetry s e) :
    s.connects = s.handled.count .staStart + s.handled.count .staDisconnected := by
  have hgoing := h.going
  have := h.connects
  rwa [if_neg (by omega), Nat.add_zero] at this

theorem Handling.not_failed (h : Handling maxRetry s e) : s.bits.fail = false := by
  have hgoing := h.going
  rw [← Bool.not_eq_true, h.fail]
  omega

/-- A call of `esp_wifi_connect` after an event that sets no bit. -/
theorem Handling.connect (h : Handling maxRetry s e) (he : e ≠ .gotIp) {n : ℕ}
    (hn : n = min (failures (s.handled ++ [e])) maxRetry) (hf : failures (s.handled ++ [e]) ≤ maxRetry)
    (hcount : (s.handled ++ [e]).count .staStart + (s.handled ++ [e]).count .staDisconnected =
      s.handled.count .staStart + s.handled.count .staDisconnected + 1) (q : List Event) :
    { (s.taken e q).connect with retryNum := n : State }.Account maxRetry where
  retryNum := hn
  connected := by
    refine h.connected.trans ⟨List.mem_append_left _, fun hg => ?_⟩
    exact (List.mem_append.1 hg).resolve_right fun hg => he (List.mem_singleton.1 hg).symm
  fail := by
    refine iff_of_false ?_ (by simp only [State.connect, taken]; omega)
    simp only [State.connect, taken, h.not_failed, Bool.false_eq_true, not_false_eq_true]
  waiting := h.waiting
  finished := h.main q
  connects := by
    have hone := h.connects_eq
    show s.connects + 1 + (if failures (s.handled ++ [e]) = maxRetry + 1 then 1 else 0) =
      (s.handled ++ [e]).count .staStart + (s.handled ++ [e]).count .staDisconnected
    rw [if_neg (by omega), hcount, hone]

theorem Handling.eventHandler (h : Handling maxRetry s e) (q : List Event) :
    ((s.taken e q).eventHandler maxRetry e).Account maxRetry := by
  have hgoing := h.going
  have hretry := h.retryNum
  have hcount := h.connects_eq
  cases e with
  | staStart =>
    refine h.connect nofun ?_ ?_ ?_ q
    · rw [failures_start]; exact hretry
    · rw [failures_start]; exact hgoing
    · simp only [List.count_append, List.count_singleton]
      simp; omega
  | staDisconnected =>
    simp only [State.eventHandler]
    split
    · rename_i hlt
      simp only [taken] at hlt
      refine h.connect nofun ?_ ?_ ?_ q
      · rw [failures_disconnected]; simp only [taken]; omega
      · rw [failures_disconnected]; omega
      · simp only [List.count_append, List.count_singleton]
        simp; omega
    · rename_i hge
      simp only [taken] at hge
      have hlast : failures (s.handled ++ [.staDisconnected]) = maxRetry + 1 := by
        rw [failures_disconnected]; omega
      refine Account.setBits ⟨false, true⟩ (h.main q) rfl ?_ ?_ ?_ ?_
      · simp only [taken, hlast]; omega
      · simp only [taken, Bool.or_false, h.connected, List.mem_append, List.mem_singleton, reduceCtorEq, or_false]
      · simp only [taken, Bool.or_true, hlast]
      · simp only [taken, hlast, if_true, hcount, List.count_append, List.count_singleton]
        simp; omega
  | gotIp =>
    simp only [State.eventHandler]
    have hzero : failures (s.handled ++ [.gotIp]) = 0 := failures_gotIp _
    refine Account.setBits ⟨true, false⟩ (h.main q) rfl ?_ ?_ ?_ ?_
    · simp only [taken, hzero]; omega
    · simp only [taken, Bool.or_true, List.mem_append, List.mem_singleton, or_true]
    · simp only [taken, Bool.or_false, h.not_failed, hzero]; simp
    · simp only [taken, hzero, hcount, List.count_append, List.count_singleton]
      simp

/-! ## Every step -/

/-- What an event does to the rest of the state. -/
structure Frame (u v : State) : Prop where
  queue : v.queue = u.queue
  handled : v.handled = u.handled
  main : u.main ≠ .init → v.main ≠ .init

theorem frame_setBits (u : State) (b : Bits) : Frame u (u.setBits b) := by
  refine ⟨rfl, rfl, fun h => ?_⟩
  simp only [State.setBits]
  split
  · nofun
  · exact h

theorem frame_eventHandler (u : State) (e : Event) : Frame u (u.eventHandler maxRetry e) := by
  cases e with
  | staStart => exact ⟨rfl, rfl, id⟩
  | staDisconnected =>
    simp only [State.eventHandler]
    split
    · exact ⟨rfl, rfl, id⟩
    · exact frame_setBits u _
  | gotIp => exact ⟨rfl, rfl, (frame_setBits { u with retryNum := 0 } _).main⟩

theorem link_connect {u : State} (h : u.link = .idle) : u.connect.link ≠ .idle := by
  simp only [State.connect, h, if_true]
  nofun

/-- A handled event keeps what holds once the driver has started. -/
theorem Started.taken (h : s.Started) {v : State} {q : List Event} (he : e ≠ .staStart)
    (hv : Frame (s.taken e q) v) : v.Started := by
  obtain ⟨hmain, rest, hrest, hno⟩ := h
  refine ⟨hv.main hmain, rest ++ [e], ?_, ?_⟩
  · rw [hv.handled]
    simp only [State.taken, hrest, List.cons_append]
  · rw [List.mem_append, List.mem_singleton]
    exact fun hmem => hmem.elim hno fun hmem => he hmem.symm

/-- The handler takes the station to the next phase. -/
theorem Phase.handle (h : Phase maxRetry s) (ha : s.Account maxRetry) {e : Event} {queue : List Event}
    (hq : s.queue = e :: queue) : failures s.handled ≤ maxRetry ∧
      Phase maxRetry ((s.taken e queue).eventHandler maxRetry e) := by
  have hframe : Frame (s.taken e queue) ((s.taken e queue).eventHandler maxRetry e) := frame_eventHandler _ e
  cases h with
  | before _ _ hqueue => rw [hqueue] at hq; cases hq
  | gaveUp _ _ hqueue => rw [hqueue] at hq; cases hq
  | starting hmain hlink hqueue hhandled =>
    rw [hqueue] at hq
    obtain ⟨rfl, rfl⟩ := List.cons.inj hq
    refine ⟨by rw [hhandled]; exact Nat.zero_le _, ?_⟩
    refine .live ⟨hframe.main hmain, [], ?_, List.not_mem_nil⟩ (link_connect hlink) ?_ ?_
    · rw [hframe.handled]; simp only [taken, hhandled, List.nil_append]
    · rw [hframe.queue]; simp only [taken, List.not_mem_nil, false_implies, implies_true]
    · rw [hframe.handled]; simp only [taken, hhandled, List.nil_append]; exact Nat.zero_le _
  | live hs hlink hqueue hfail =>
    rw [hq] at hqueue
    obtain rfl : e = .gotIp := hqueue e List.mem_cons_self
    refine ⟨hfail, .live (hs.taken (e := .gotIp) nofun hframe) hlink ?_ ?_⟩
    · rw [hframe.queue]
      exact fun e he => hqueue e (List.mem_cons_of_mem _ he)
    · rw [hframe.handled]; simp only [taken, failures_gotIp]; exact Nat.zero_le _
  | @lost gots hs hlink hqueue hgots hfail =>
    refine ⟨hfail, ?_⟩
    rw [hqueue] at hq
    cases gots with
    | nil =>
      obtain ⟨rfl, rfl⟩ := List.cons.inj hq
      have hnext : failures (s.handled ++ [.staDisconnected]) = failures s.handled + 1 := failures_disconnected _
      have hretry := ha.retryNum
      have hs' := hs.taken (e := .staDisconnected) nofun hframe
      revert hframe hs'
      simp only [State.eventHandler]
      split
      · rename_i hlt
        simp only [taken] at hlt
        intro _ hs'
        refine .live hs' (link_connect hlink) nofun ?_
        simp only [State.connect, taken, hnext]; omega
      · rename_i hge
        simp only [taken] at hge
        intro _ hs'
        refine .gaveUp hs' hlink rfl ?_
        simp only [State.setBits, taken, hnext]; omega
    | cons g gots =>
      obtain ⟨rfl, rfl⟩ := List.cons.inj hq
      obtain rfl : g = .gotIp := hgots g List.mem_cons_self
      refine .lost (hs.taken (e := .gotIp) nofun hframe) hlink (q := gots) ?_
        (fun e he => hgots e (List.mem_cons_of_mem _ he)) ?_
      · rw [hframe.queue]; rfl
      · rw [hframe.handled]; simp only [taken, failures_gotIp]; exact Nat.zero_le _

/-- Only `main` changes. -/
theorem Phase.main (h : Phase maxRetry s) {m : Main} (hs : s.main ≠ .init) (hm : m ≠ .init) :
    Phase maxRetry { s with main := m } := by
  cases h with
  | before hmain => exact absurd hmain hs
  | starting _ hlink hqueue hhandled => exact .starting hm hlink hqueue hhandled
  | live hs' hlink hqueue hfail => exact .live ⟨hm, hs'.2⟩ hlink hqueue hfail
  | lost hs' hlink hqueue hq hfail => exact .lost ⟨hm, hs'.2⟩ hlink hqueue hq hfail
  | gaveUp hs' hlink hqueue hfail => exact .gaveUp ⟨hm, hs'.2⟩ hlink hqueue hfail

/-- A link that is not idle is live. -/
theorem Phase.of_link (h : Phase maxRetry s) (hlink : s.link ≠ .idle) :
    s.Started ∧ (∀ e ∈ s.queue, e = .gotIp) ∧ failures s.handled ≤ maxRetry := by
  cases h with
  | live hs _ hqueue hfail => exact ⟨hs, hqueue, hfail⟩
  | before _ hidle | starting _ hidle | lost _ hidle | gaveUp _ hidle => exact absurd hidle hlink

structure Inv (maxRetry : ℕ) (s : State) : Prop where
  phase : Phase maxRetry s
  account : s.Account maxRetry

/-- **A step of the driver or of a handler** keeps the invariant. -/
theorem Inv.step (h : Inv maxRetry s) (hg : s.Driver l) (hs : s.step maxRetry l = some t) : Inv maxRetry t := by
  obtain ⟨hphase, ha⟩ := h
  have hkeep : ∀ u : State, u.retryNum = s.retryNum → u.bits = s.bits → u.main = s.main → u.handled = s.handled →
      u.connects = s.connects → u.Account maxRetry := by
    intro u h1 h2 h3 h4 h5
    obtain ⟨a1, a2, a3, a4, a5, a6⟩ := ha
    exact ⟨by rw [h1, h4]; exact a1, by rw [h2, h4]; exact a2, by rw [h2, h4]; exact a3, by rw [h2, h3]; exact a4,
      by rw [h3, h4]; exact a5, by rw [h4, h5]; exact a6⟩
  cases l with
  | wifiStart =>
    simp only [State.step] at hs
    split at hs
    · rename_i hmain
      cases hs
      obtain ⟨a1, a2, a3, -, -, a6⟩ := ha
      refine ⟨?_, a1, a2, a3, nofun, nofun, a6⟩
      cases hphase with
      | before _ hlink hqueue hhandled => exact .starting nofun hlink (by simp only [hqueue, List.nil_append]) hhandled
      | starting hm => exact absurd hmain hm
      | live hs | lost hs | gaveUp hs => exact absurd hmain hs.1
    · cases hs
  | wait =>
    simp only [State.step] at hs
    split at hs
    · rename_i hmain
      cases hs
      have hm : s.main ≠ .init := by rw [hmain]; nofun
      refine ⟨hphase.main hm (by split <;> nofun), ha.retryNum, ha.connected, ha.fail, ?_, ?_, ha.connects⟩
      · intro hw
        by_contra hany
        rw [Bool.not_eq_false] at hany
        simp only [hany, if_true] at hw
        cases hw
      · intro r hr
        by_cases hany : s.bits.any = true
        · simp only [hany, if_true, Main.finished.injEq] at hr
          rw [← hr]
          exact report_of_any hany ha.connected ha.fail
        · simp only [hany, Bool.false_eq_true, if_false] at hr
          cases hr
    · cases hs
  | disconnected =>
    cases hs
    obtain ⟨hstart, hqueue, hfail⟩ := hphase.of_link hg
    exact ⟨.lost hstart rfl rfl hqueue hfail, hkeep _ rfl rfl rfl rfl rfl⟩
  | gotIp =>
    cases hs
    obtain ⟨hstart, hqueue, hfail⟩ := hphase.of_link hg
    refine ⟨.live hstart nofun ?_ hfail, hkeep _ rfl rfl rfl rfl rfl⟩
    intro e he
    rcases List.mem_append.1 he with he | he
    · exact hqueue e he
    · exact List.mem_singleton.1 he
  | handle =>
    simp only [State.step] at hs
    split at hs
    · cases hs
    · rename_i e queue hqueue
      cases hs
      obtain ⟨hgoing, hnext⟩ := hphase.handle ha hqueue
      have hh : Handling maxRetry s e := ⟨ha, hgoing⟩
      exact ⟨hnext, hh.eventHandler queue⟩

theorem inv_of_reach (h : (machine maxRetry).Reach Driver s) : Inv maxRetry s := by
  refine h.invariant ⟨.before rfl rfl rfl rfl, ?_⟩ fun _ _ _ hi hg hs => hi.step hg hs
  exact ⟨rfl, by simp [machine, init, Bits.zero], by simp [machine, init, Bits.zero, failures], nofun, nofun, rfl⟩

/-! ## Every run -/

/-- Nothing follows the phase in which the station has given up. -/
theorem Phase.stuck (h : Phase maxRetry s) (hfail : failures s.handled = maxRetry + 1) :
    s.main ≠ .init ∧ s.link = .idle ∧ s.queue = [] ∧ ∃ rest, s.handled = .staStart :: rest ∧ .staStart ∉ rest := by
  cases h with
  | gaveUp hs hlink hqueue => exact ⟨hs.1, hlink, hqueue, hs.2⟩
  | live _ _ _ hle | lost _ _ _ _ hle => omega
  | before _ _ _ hhandled | starting _ _ _ hhandled => rw [hhandled] at hfail; exact absurd hfail (by simp [failures])

/-- **What is reported.** In every state that is reached, whatever the driver posts and
whenever `wifi_init_sta` comes to wait: it has reported a connection exactly if an address was
handled, and a failure exactly if the first connection and every retry failed; it never
meets an unexpected event, and while it waits the driver owes it an answer or the event
loop a call of the handler. -/
theorem station_report (maxRetry : ℕ) (s : State) (h : (machine maxRetry).Reach Driver s) :
    (∀ r, s.main = .finished r → r ≠ .unexpectedEvent ∧ (r = .connected ↔ .gotIp ∈ s.handled) ∧
      (r = .failed ↔ s.handled = .staStart :: List.replicate (maxRetry + 1) .staDisconnected)) ∧
    (s.main = .waiting → .gotIp ∉ s.handled ∧ failures s.handled ≤ maxRetry ∧ (s.link ≠ .idle ∨ s.queue ≠ [])) := by
  obtain ⟨hphase, ha⟩ := inv_of_reach h
  refine ⟨fun r hr => ?_, fun hw => ?_⟩
  · have hall : .gotIp ∉ s.handled → failures s.handled = maxRetry + 1 →
        s.handled = .staStart :: List.replicate (maxRetry + 1) .staDisconnected := by
      intro hno hfail
      obtain ⟨-, -, -, rest, hrest, hstart⟩ := hphase.stuck hfail
      have hrep := eq_replicate_failures hstart (fun hg => hno (by rw [hrest]; exact List.mem_cons_of_mem _ hg))
      rw [← hrest, hfail] at hrep
      rw [hrest, hrep]
    rcases ha.finished r hr with ⟨rfl, hg⟩ | ⟨rfl, hno, hfail⟩
    · refine ⟨nofun, iff_of_true rfl hg, iff_of_false nofun fun heq => ?_⟩
      rw [heq] at hg
      simp [List.mem_replicate] at hg
    · exact ⟨nofun, iff_of_false nofun hno, iff_of_true rfl (hall hno hfail)⟩
  · have hany := ha.waiting hw
    rw [Bits.any, Bool.or_eq_false_iff, ← Bool.not_eq_true, ← Bool.not_eq_true, ha.connected, ha.fail] at hany
    obtain ⟨hno, hfail⟩ := hany
    cases hphase with
    | before hmain => rw [hmain] at hw; cases hw
    | starting _ _ hqueue hhandled =>
      refine ⟨hno, by rw [hhandled]; exact Nat.zero_le _, .inr (by rw [hqueue]; nofun)⟩
    | live _ hlink _ hle => exact ⟨hno, hle, .inl hlink⟩
    | lost _ _ hqueue _ hle => exact ⟨hno, hle, .inr (by rw [hqueue]; simp)⟩
    | gaveUp _ _ _ hlast => exact absurd hlast hfail

/-- Every connection fails, with two retries; the task comes to wait between two of them. -/
def neverUp : List Label :=
  [.wifiStart, .handle, .disconnected, .handle, .wait, .disconnected, .handle, .disconnected, .handle]

/-- `station_report` at the end of `neverUp`. -/
theorem station_report_neverUp : ∃ s, (machine 2).Reach Driver s ∧ s.main = .finished .failed ∧
    s.handled = [.staStart, .staDisconnected, .staDisconnected, .staDisconnected] := by
  have hrun : ((machine 2).exec Driver (machine 2).init neverUp).map (·.main == .finished .failed) = some true := by
    decide
  obtain ⟨s, hs, hp⟩ := Machine.Reach.of_exec hrun
  rw [beq_iff_eq] at hp
  obtain ⟨hall, -⟩ := station_report 2 s hs
  exact ⟨s, hs, hp, (hall _ hp).2.2.1 rfl⟩

/-- **Giving up.** In every state that is reached the retry counter is the number of failures
since the last address, up to its bound, and there are at most `maxRetry + 1` of these. As
soon as there are so many, no event is left and none will come: in every continuation
nothing more is handled, the link stays idle, and `esp_wifi_connect` has been called once for
each failure. -/
theorem station_gives_up (maxRetry : ℕ) (s : State) (h : (machine maxRetry).Reach Driver s) :
    s.retryNum = min (failures s.handled) maxRetry ∧ failures s.handled ≤ maxRetry + 1 ∧
    (failures s.handled = maxRetry + 1 → s.connects = s.handled.count .staDisconnected ∧
      ∀ ls u, (machine maxRetry).Run Driver s ls u →
        u.handled = s.handled ∧ u.link = .idle ∧ u.queue = [] ∧ u.connects = s.connects) := by
  obtain ⟨hphase, ha⟩ := inv_of_reach h
  refine ⟨ha.retryNum, ?_, fun hfail => ⟨?_, fun ls u hrun => ?_⟩⟩
  · cases hphase with
    | before _ _ _ hhandled | starting _ _ _ hhandled => rw [hhandled]; exact Nat.zero_le _
    | live _ _ _ hle | lost _ _ _ _ hle => omega
    | gaveUp _ _ _ hlast => omega
  · obtain ⟨-, -, -, rest, hrest, hno⟩ := hphase.stuck hfail
    have hone : s.handled.count .staStart = 1 := by
      rw [hrest, List.count_cons_self, List.count_eq_zero_of_not_mem hno]
    have := ha.connects
    rw [if_pos hfail, hone] at this
    omega
  · obtain ⟨hmain, hlink, hqueue, -⟩ := hphase.stuck hfail
    have hend : u.main ≠ .init ∧ u.handled = s.handled ∧ u.link = .idle ∧ u.queue = [] ∧ u.connects = s.connects := by
      refine hrun.invariant (P := fun u => u.main ≠ .init ∧ u.handled = s.handled ∧ u.link = .idle ∧ u.queue = [] ∧
        u.connects = s.connects) ⟨hmain, rfl, hlink, hqueue, rfl⟩ ?_
      rintro v l w ⟨hvm, hvh, hvl, hvq, hvc⟩ hg hs
      cases l with
      | disconnected | gotIp => exact absurd hvl hg
      | wait =>
        simp only [machine, State.step] at hs
        split at hs
        · cases hs
          exact ⟨by split <;> nofun, hvh, hvl, hvq, hvc⟩
        · cases hs
      | _ => simp [machine, State.step, hvm, hvq] at hs
    exact hend.2

/-- Connected, then lost, with one retry. -/
def upThenLost : List Label :=
  [.wifiStart, .wait, .handle, .gotIp, .handle, .disconnected, .handle, .disconnected, .handle]

/-- `station_gives_up` at the end of `upThenLost`: the report was a connection. -/
theorem station_gives_up_lost : ∃ s, (machine 1).Reach Driver s ∧ s.main = .finished .connected ∧
    ∀ ls u, (machine 1).Run Driver s ls u → u.link = .idle := by
  have hrun : ((machine 1).exec Driver (machine 1).init upThenLost).map (fun s =>
      s.main == .finished .connected && failures s.handled == 2) = some true := by
    decide
  obtain ⟨s, hs, hp⟩ := Machine.Reach.of_exec hrun
  rw [Bool.and_eq_true, beq_iff_eq, beq_iff_eq] at hp
  obtain ⟨hmain, hfail⟩ := hp
  obtain ⟨-, -, hend⟩ := station_gives_up 1 s hs
  exact ⟨s, hs, hmain, fun ls u hrun => ((hend hfail).2 ls u hrun).2.1⟩

end State

end EspNetwork.Wifi
