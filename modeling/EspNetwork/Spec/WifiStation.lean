import EspNetwork.Lib.Machine

/-!
# The Wi-Fi station (`reflection/main/station_example_main.cpp`)

`event_handler` and `wifi_init_sta`, with the Wi-Fi driver between them. The driver posts
its events to the event loop, which hands them to the handler one by one.

* What the driver is taken to do: a call of `esp_wifi_connect` on an idle link starts an
  attempt to connect, which ends with `STA_DISCONNECTED` or with an address; a link with an
  address may get another one, or be lost with `STA_DISCONNECTED`; on an idle link the
  driver posts neither (`Driver`).
* `xEventGroupWaitBits` returns the bits that are set when it is called, or those that end
  the wait.
* Events without a branch in the handler are left out. `handled` and `connects` are not part
  of the program.
-/

namespace EspNetwork.Wifi

inductive Event
  | staStart
  | staDisconnected
  | gotIp
deriving DecidableEq, Repr

/-- The station's link. -/
inductive Link
  | idle
  | connecting
  | up
deriving DecidableEq, Repr

/-- What `wifi_init_sta` logs at its end. -/
inductive Report
  | connected
  | failed
  | unexpectedEvent
deriving DecidableEq, Repr

/-- Where `wifi_init_sta` is. -/
inductive Main
  /-- before `esp_wifi_start` -/
  | init
  | started
  /-- blocked in `xEventGroupWaitBits` -/
  | waiting
  | finished (report : Report)
deriving DecidableEq, Repr

/-- `s_wifi_event_group` -/
structure Bits where
  connected : Bool
  fail : Bool
deriving DecidableEq, Repr

namespace Bits

def zero : Bits := ⟨false, false⟩

/-- The wait for `WIFI_CONNECTED_BIT | WIFI_FAIL_BIT` ends. -/
def any (b : Bits) : Bool := b.connected || b.fail

/-- The tests on the bits that the wait has returned. -/
def report (b : Bits) : Report :=
  if b.connected then .connected else if b.fail then .failed else .unexpectedEvent

end Bits

structure State where
  retryNum : ℕ
  bits : Bits
  main : Main
  link : Link
  /-- posted and not handled -/
  queue : List Event
  /-- handled, in order -/
  handled : List Event
  /-- the calls of `esp_wifi_connect` -/
  connects : ℕ
deriving DecidableEq

inductive Label
  /-- `esp_wifi_start` -/
  | wifiStart
  /-- `xEventGroupWaitBits` is called -/
  | wait
  /-- an attempt to connect fails, or the link is lost -/
  | disconnected
  | gotIp
  /-- the event loop calls the handler -/
  | handle
deriving DecidableEq, Repr

namespace State

def init : State := ⟨0, .zero, .init, .idle, [], [], 0⟩

/-- `esp_wifi_connect`: on an idle link an attempt starts. -/
def connect (s : State) : State :=
  { s with link := if s.link = .idle then .connecting else s.link, connects := s.connects + 1 }

/-- `xEventGroupSetBits` wakes the task that waits for one of the bits. -/
def setBits (s : State) (bits : Bits) : State :=
  let bits := ⟨s.bits.connected || bits.connected, s.bits.fail || bits.fail⟩
  { s with bits := bits, main := if s.main = .waiting ∧ bits.any then .finished bits.report else s.main }

/-- `event_handler`; `maxRetry` is `EXAMPLE_ESP_MAXIMUM_RETRY`. -/
def eventHandler (maxRetry : ℕ) (s : State) : Event → State
  | .staStart => s.connect
  | .staDisconnected =>
    if s.retryNum < maxRetry then { s.connect with retryNum := s.retryNum + 1 } else s.setBits ⟨false, true⟩
  | .gotIp => { s with retryNum := 0 }.setBits ⟨true, false⟩

def step (maxRetry : ℕ) (s : State) : Label → Option State
  | .wifiStart => if s.main = .init then some { s with main := .started, queue := s.queue ++ [.staStart] } else none
  | .wait =>
    if s.main = .started then
      some { s with main := if s.bits.any then .finished s.bits.report else .waiting }
    else none
  | .disconnected => some { s with link := .idle, queue := s.queue ++ [.staDisconnected] }
  | .gotIp => some { s with link := .up, queue := s.queue ++ [.gotIp] }
  | .handle =>
    match s.queue with
    | [] => none
    | e :: queue => some ({ s with queue := queue, handled := s.handled ++ [e] }.eventHandler maxRetry e)

def machine (maxRetry : ℕ) : Lts.Machine State Label := ⟨init, step maxRetry⟩

/-- The driver posts the end of an attempt or of a link, or an address, only while there is
one. -/
def Driver (s : State) : Label → Prop
  | .disconnected | .gotIp => s.link ≠ .idle
  | .wifiStart | .wait | .handle => True

instance (s : State) : ∀ l, Decidable (s.Driver l)
  | .disconnected | .gotIp => inferInstanceAs (Decidable (_ ≠ _))
  | .wifiStart | .wait | .handle => isTrue trivial

end State

end EspNetwork.Wifi
