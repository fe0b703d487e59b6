import EspNetwork.Lib.Machine

/-!
# The BACnet server (`backnet-sever/main`)

Two tasks whose calls interleave: the event loop, which runs the handlers of link events
(`wifi_init.c` or `eth_init.c`) one call at a time, and `BACnetTask` (`main.c`). They
share the event group, the BIP socket (`bip_init.c`) and the table of APDU handlers.

`cleared` is what the last `xEventGroupClearBits` returned; no caller looks at it.
-/

namespace EspNetwork.Bacnet

open Lts

/-- The two implementations of `network_init`. -/
inductive Net
  | wifi
  | eth
deriving DecidableEq, Repr

/-- A link or IP event. -/
inductive Event
  | start
  | connected
  | disconnected
  | stop
  | gotIp
  | other
deriving DecidableEq, Repr

/-- What `StartBACnet` registers, by the service. -/
inductive Service
  | whoIs
  | unrecognized
  | readProperty
  | readPropMultiple
  | writeProperty
  | subscribeCov
deriving DecidableEq, Repr

/-- The calls of the event handlers. -/
inductive Call
  | espWifiConnect
  | espEthIoctl
  /-- `xEventGroupGetBits(..) != CONNECTED_BIT`, and what follows it -/
  | getBits
  | setBits
  | clearBits
  | apduSetHandler (service : Service)
  | addressInit
  /-- `esp_netif_get_ip_info`, and the settings of port and addresses -/
  | getIpInfo
  | socket
  | bind
  | setsockopt
  /-- `bip_set_socket(sock)` -/
  | bipSetSocket
  | sendIAm
  /-- `close(bip_socket())` -/
  | close
  /-- `bip_set_socket(-1)` -/
  | bipUnsetSocket
deriving DecidableEq, Repr

/-- The next call of `BACnetTask`. -/
inductive Pc
  | deviceInit
  /-- `setup` up to the wait at the end of `network_init` -/
  | networkInit
  | networkWait
  | taskDelay
  /-- "do nothing if not connected to network" -/
  | waitBits
  | timers
  | datalinkReceive
  | npduHandler
  | gpioSetLevel
  | handlerCovTask
deriving DecidableEq, Repr

def services : List Service :=
  [.whoIs, .unrecognized, .readProperty, .readPropMultiple, .writeProperty, .subscribeCov]

/-- `bip_init`. -/
def bipInit : List Call := [.getIpInfo, .socket, .bind, .setsockopt, .setsockopt, .bipSetSocket]

/-- `bip_cleanup`. -/
def bipCleanup : List Call := [.close, .bipUnsetSocket]

/-- `StartBACnet`. -/
def startBACnet : List Call := services.map Call.apduSetHandler ++ [.addressInit] ++ bipInit ++ [.sendIAm]

/-- `event_handler` of wifi_init.c, `eth_event_handler` and `got_ip_event_handler` of eth_init.c. -/
def eventHandler : Net → Event → List Call
  | _, .gotIp => [.getBits]
  | .wifi, .start => [.espWifiConnect]
  | .wifi, .disconnected => [.espWifiConnect, .clearBits] ++ bipCleanup
  | .eth, .connected => [.espEthIoctl]
  | .eth, .disconnected => [.clearBits] ++ bipCleanup
  | _, _ => []

structure State where
  /-- what is left of the handler the event loop runs -/
  todo : List Call
  /-- `CONNECTED_BIT` of `s_net_event_group` -/
  connected : Bool
  cleared : Bool
  registered : List Service
  /-- `sock` of `bip_init` -/
  sock : ℤ
  /-- `bip_socket()` -/
  bipSocket : ℤ
  openSockets : List ℤ
  pc : Pc
deriving DecidableEq, Repr

inductive Action
  /-- the event loop takes the next event -/
  | event (e : Event)
  /-- the next call of its handler; `ret` is what `socket` returns -/
  | handler (ret : ℤ)
  /-- the next call of `BACnetTask`; `pduLen` is what `datalink_receive` returns -/
  | task (pduLen : UInt16)
deriving DecidableEq, Repr

namespace State

/-- A call of an event handler. -/
def call (s : State) (ret : ℤ) : Call → Option State
  | .getBits => some (if s.connected then s else { s with todo := .setBits :: startBACnet })
  | .setBits => some { s with connected := true }
  | .clearBits => some { s with connected := false, cleared := s.connected }
  | .apduSetHandler service => some { s with registered := service :: s.registered }
  | .socket =>
    if ret = -1 then some { s with sock := -1 }
    -- a new descriptor
    else if 0 ≤ ret ∧ ret ∉ s.openSockets then some { s with sock := ret, openSockets := ret :: s.openSockets }
    else none
  | .bipSetSocket => some { s with bipSocket := s.sock }
  | .close => some { s with openSockets := s.openSockets.filter fun fd => fd ≠ s.bipSocket }
  | .bipUnsetSocket => some { s with bipSocket := -1 }
  | .espWifiConnect | .espEthIoctl | .addressInit | .getIpInfo | .bind | .setsockopt | .sendIAm => some s

/-- A call of `BACnetTask`. -/
def task (s : State) (pduLen : UInt16) : Option State :=
  match s.pc with
  | .deviceInit => some { s with pc := .networkInit }
  | .networkInit => some { s with pc := .networkWait }
  | .networkWait => if s.connected then some { s with pc := .taskDelay } else none
  | .taskDelay => some { s with pc := .waitBits }
  | .waitBits => if s.connected then some { s with pc := .timers } else none
  | .timers => some { s with pc := .datalinkReceive }
  | .datalinkReceive => some { s with pc := if pduLen ≠ 0 then .npduHandler else .handlerCovTask }
  | .npduHandler => some { s with pc := .gpioSetLevel }
  | .gpioSetLevel => some { s with pc := .handlerCovTask }
  | .handlerCovTask => some { s with pc := .taskDelay }

def step (net : Net) (s : State) : Action → Option State
  | .event e =>
    -- `network_init` has registered the handlers, and the loop is not in one
    if s.pc ≠ .deviceInit ∧ s.pc ≠ .networkInit ∧ s.todo = [] then some { s with todo := eventHandler net e } else none
  | .handler ret =>
    match s.todo with
    | c :: todo => { s with todo }.call ret c
    | [] => none
  | .task pduLen => s.task pduLen

/-- Both tasks, as `BACnetTask` starts. -/
def machine (net : Net) : Machine State Action := ⟨⟨[], false, false, [], -1, -1, [], .deviceInit⟩, step net⟩

end State

end EspNetwork.Bacnet
