import EspNetwork.Spec.BacnetServer

/-!
# The timers of `BACnetTask` (`backnet-sever/main/main.c`)

The block of `BACnetTask` that counts seconds, guarded by the tick counter, at each
iteration that passes the wait. `xTaskGetTickCount` returns 32 bits; `now` counts ticks
without a bound. `hz` is `configTICK_RATE_HZ`.
-/

namespace EspNetwork.Bacnet

open Lts

/-- One evaluation of the guard. -/
structure Sample where
  /-- when the block ran last, or the task started -/
  since : ℕ
  now : ℕ
  ran : Bool
deriving DecidableEq, Repr

structure Timers where
  tickcount : UInt32
  /-- what `dcc_timer_seconds`, `bvlc_maintenance_timer` and `handler_cov_timer_seconds` have counted -/
  dccSeconds : ℕ
  bvlcSeconds : ℕ
  covSeconds : ℕ
  /-- what `tsm_timer_milliseconds` has counted -/
  tsmMilliseconds : ℕ
  now : ℕ
  lastRun : ℕ
  /-- newest first -/
  samples : List Sample
deriving DecidableEq, Repr

/-- The 32 bits of the counter. -/
def xTaskGetTickCount (now : ℕ) : UInt32 := UInt32.ofNat now

/-- The guard. -/
def Due (hz tickcount newtick : UInt32) : Prop := newtick < tickcount ∨ newtick - tickcount ≥ hz

instance {hz tickcount newtick : UInt32} : Decidable (Due hz tickcount newtick) := inferInstanceAs (Decidable (_ ∨ _))

namespace Timers

/-- The guard and its block, `d` ticks after the last time. -/
def step (hz : UInt32) (s : Timers) (d : ℕ) : Option Timers :=
  let now := s.now + d
  let newtick := xTaskGetTickCount now
  if Due hz s.tickcount newtick then
    some {
      tickcount := newtick
      dccSeconds := s.dccSeconds + 1
      bvlcSeconds := s.bvlcSeconds + 1
      covSeconds := s.covSeconds + 1
      tsmMilliseconds := s.tsmMilliseconds + 1000
      now
      lastRun := now
      samples := ⟨s.lastRun, now, true⟩ :: s.samples }
  else some { s with now, samples := ⟨s.lastRun, now, false⟩ :: s.samples }

/-- The task, from the tick at which its loop starts. -/
def machine (hz : UInt32) (start : ℕ) : Machine Timers ℕ :=
  ⟨⟨xTaskGetTickCount start, 0, 0, 0, 0, start, start, []⟩, step hz⟩

end Timers

end EspNetwork.Bacnet
