import EspNetwork.Spec.BacnetTimers

/-!
# When the timers of `BACnetTask` keep the pace

The subtraction of the guard is modular and right by itself; the comparison before it is
true as well when the counter has wrapped.

* `due_iff`: the guard in terms of ticks without a bound.
* `Ticking.step`: what holds of the timers at every sample.
* `paced_iff`: **the block runs once a second has passed, and not before, iff no sample
  comes early after a wrap.**
-/

namespace EspNetwork.Bacnet

open Lts

variable {hz : UInt32} {start d : ℕ} {ds : List ℕ} {s t : Timers} {x : Sample}

/-- Ticks since the last run. -/
def Sample.elapsed (x : Sample) : ℕ := x.now - x.since

/-- The 32-bit counter has wrapped since the last run. -/
def Sample.wrapped (x : Sample) : Prop := x.now / 2 ^ 32 ≠ x.since / 2 ^ 32

/-- The counter has wrapped, and no second has passed. -/
def Sample.WrapsEarly (hz : UInt32) (x : Sample) : Prop := x.wrapped ∧ x.elapsed < hz.toNat

instance : Decidable (x.WrapsEarly hz) := inferInstanceAs (Decidable ((_ ≠ _) ∧ _))

/-- The block has run exactly when a second had passed since its last run, and no timer has
counted more seconds than have passed. -/
structure Paced (hz : UInt32) (start : ℕ) (s : Timers) : Prop where
  runs : ∀ x ∈ s.samples, x.ran = true ↔ hz.toNat ≤ x.elapsed
  seconds : ∀ n ∈ [s.dccSeconds, s.bvlcSeconds, s.covSeconds], n * hz.toNat ≤ s.now - start

/-- **The guard.** The block runs if a second has passed or the counter has wrapped. -/
theorem due_iff {last now : ℕ} (hle : last ≤ now) (hlt : now - last < 2 ^ 32) :
    Due hz (xTaskGetTickCount last) (xTaskGetTickCount now) ↔ now / 2 ^ 32 ≠ last / 2 ^ 32 ∨ hz.toNat ≤ now - last := by
  have hhz := hz.toNat_lt
  have htick : ∀ n, (xTaskGetTickCount n).toNat = n % 2 ^ 32 := fun n => UInt32.toNat_ofNat'
  unfold Due
  rw [ge_iff_le, UInt32.lt_iff_toNat_lt, UInt32.le_iff_toNat_le, UInt32.toNat_sub, htick, htick]
  omega

/-- The state at every sample. -/
structure Ticking (hz : UInt32) (start : ℕ) (s : Timers) : Prop where
  tickcount : s.tickcount = xTaskGetTickCount s.lastRun
  le : start ≤ s.lastRun ∧ s.lastRun ≤ s.now
  /-- less than a second ago, or just now -/
  recent : s.now - s.lastRun < hz.toNat ∨ s.now = s.lastRun
  ran : ∀ x ∈ s.samples, x.ran = true ↔ x.wrapped ∨ hz.toNat ≤ x.elapsed
  same : s.bvlcSeconds = s.dccSeconds ∧ s.covSeconds = s.dccSeconds
  counted : (∀ x ∈ s.samples, x.ran = true → hz.toNat ≤ x.elapsed) → s.dccSeconds * hz.toNat ≤ s.lastRun - start

theorem Ticking.init : Ticking hz start (Timers.machine hz start).init :=
  ⟨rfl, ⟨le_refl _, le_refl _⟩, .inr rfl, nofun, ⟨rfl, rfl⟩, fun _ => by simp [Timers.machine]⟩

theorem Timers.step_cases (h : s.step hz d = some t) :
    (Due hz s.tickcount (xTaskGetTickCount (s.now + d)) ∧
      t = ⟨xTaskGetTickCount (s.now + d), s.dccSeconds + 1, s.bvlcSeconds + 1, s.covSeconds + 1, s.tsmMilliseconds + 1000,
        s.now + d, s.now + d, ⟨s.lastRun, s.now + d, true⟩ :: s.samples⟩) ∨
    (¬ Due hz s.tickcount (xTaskGetTickCount (s.now + d)) ∧
      t = { s with now := s.now + d, samples := ⟨s.lastRun, s.now + d, false⟩ :: s.samples }) := by
  unfold Timers.step at h
  dsimp only at h
  split at h
  · rename_i hdue
    exact .inl ⟨hdue, (Option.some.inj h).symm⟩
  · rename_i hdue
    exact .inr ⟨hdue, (Option.some.inj h).symm⟩

theorem Ticking.step (hi : Ticking hz start s) (hd : d < 2 ^ 32 - hz.toNat) (h : s.step hz d = some t) :
    Ticking hz start t := by
  have hle := hi.le
  have hrecent := hi.recent
  have hdue : Due hz s.tickcount (xTaskGetTickCount (s.now + d)) ↔
      (s.now + d) / 2 ^ 32 ≠ s.lastRun / 2 ^ 32 ∨ hz.toNat ≤ s.now + d - s.lastRun := by
    rw [hi.tickcount]
    exact due_iff (by omega) (by omega)
  rcases Timers.step_cases h with ⟨hran, rfl⟩ | ⟨hnot, rfl⟩
  · have hsample := hdue.1 hran
    refine ⟨rfl, ⟨by dsimp only; omega, le_refl _⟩, .inr rfl, ?_, ⟨?_, ?_⟩, fun hall => ?_⟩
    · rw [List.forall_mem_cons]
      exact ⟨iff_of_true rfl hsample, hi.ran⟩
    · exact congrArg (· + 1) hi.same.1
    · exact congrArg (· + 1) hi.same.2
    · rw [List.forall_mem_cons] at hall
      have hnew : hz.toNat ≤ s.now + d - s.lastRun := hall.1 rfl
      have hold := hi.counted hall.2
      dsimp only
      rw [Nat.add_mul, Nat.one_mul]
      omega
  · have hsample := fun hs => hnot (hdue.2 hs)
    refine ⟨hi.tickcount, ⟨hle.1, by dsimp only; omega⟩, .inl ?_, ?_, hi.same, fun hall => ?_⟩
    · exact not_le.1 fun hge => hsample (.inr hge)
    · rw [List.forall_mem_cons]
      exact ⟨iff_of_false nofun hsample, hi.ran⟩
    · rw [List.forall_mem_cons] at hall
      exact hi.counted hall.2

theorem ticking_of_run
    (h : (Timers.machine hz start).Run (fun _ d => d < 2 ^ 32 - hz.toNat) (Timers.machine hz start).init ds s) :
    Ticking hz start s :=
  h.invariant .init fun _ _ _ hi hd hs => hi.step hd hs

/-- **When the timers are paced correctly**: exactly if no sample comes within a second of
the last run with a wrap of the counter in between. -/
theorem paced_iff (h : (Timers.machine hz start).Run (fun _ d => d < 2 ^ 32 - hz.toNat) (Timers.machine hz start).init ds s) :
    Paced hz start s ↔ ∀ x ∈ s.samples, ¬ x.WrapsEarly hz := by
  have hi := ticking_of_run h
  constructor
  · rintro hp x hx ⟨hwrapped, hearly⟩
    have hran := (hi.ran x hx).2 (.inl hwrapped)
    have := (hp.runs x hx).1 hran
    omega
  · intro hnever
    have hruns : ∀ x ∈ s.samples, x.ran = true ↔ hz.toNat ≤ x.elapsed := by
      intro x hx
      rw [hi.ran x hx]
      refine ⟨fun hs => ?_, .inr⟩
      rcases hs with hwrapped | hge
      · exact not_lt.1 fun hlt => hnever x hx ⟨hwrapped, hlt⟩
      · exact hge
    have hcounted := hi.counted fun x hx => (hruns x hx).1
    have hle := hi.le
    refine ⟨hruns, fun n hn => ?_⟩
    have hn : n = s.dccSeconds := by simpa [hi.same.1, hi.same.2] using hn
    rw [hn]
    omega

/-- A second and a half across the wrap, at 100 ticks a second. -/
theorem paced_iff_across : ∃ s, (Timers.machine 100 (2 ^ 32 - 50)).Run (fun _ d => d < 2 ^ 32 - (100 : UInt32).toNat)
    (Timers.machine 100 (2 ^ 32 - 50)).init [20, 130] s ∧ Paced 100 (2 ^ 32 - 50) s ∧ s.dccSeconds = 1 := by
  have hrun : (Timers.machine 100 (2 ^ 32 - 50)).Run (fun _ d => d < 2 ^ 32 - (100 : UInt32).toNat)
      (Timers.machine 100 (2 ^ 32 - 50)).init [20, 130] _ := Machine.Run.of_exec rfl
  exact ⟨_, hrun, (paced_iff hrun).2 (by decide), rfl⟩

/-- One tick after its start the task counts a second, since the counter has wrapped. -/
theorem early_second : ∃ s, (Timers.machine 100 (2 ^ 32 - 1)).Run (fun _ d => d < 2 ^ 32 - (100 : UInt32).toNat)
    (Timers.machine 100 (2 ^ 32 - 1)).init [1] s ∧ s.dccSeconds = 1 ∧ s.now - (2 ^ 32 - 1) = 1 ∧
    ¬ Paced 100 (2 ^ 32 - 1) s := by
  have hrun : (Timers.machine 100 (2 ^ 32 - 1)).Run (fun _ d => d < 2 ^ 32 - (100 : UInt32).toNat)
      (Timers.machine 100 (2 ^ 32 - 1)).init [1] _ := Machine.Run.of_exec rfl
  refine ⟨_, hrun, rfl, by decide, fun hp => ?_⟩
  have hcounted := hp.seconds 1 (by decide)
  exact absurd hcounted (by decide)

end EspNetwork.Bacnet
