import EspNetwork.Lib.Handles
import EspNetwork.Spec.BacnetServer

/-!
# The handlers of link events, one at a time (`backnet-sever/main`)

`event_handler` of wifi_init.c, `eth_event_handler` and `got_ip_event_handler` of
eth_init.c, each run to its end before the next event, with the data they read: the
address of the interface and the descriptor `socket` returns. Where the calls of a
handler interleave with `BACnetTask`, see `State.machine`.

`bip_set_port`, `bip_set_addr`, `bip_set_broadcast_addr` and `bip_set_socket` set cells of
the BACnet stack.
-/

namespace EspNetwork.Bacnet

open Lts

/-- `esp_netif_ip_info_t`. -/
structure IpInfo where
  addr : UInt32
  netmask : UInt32
deriving DecidableEq, Repr

/-- The cells that say where BACnet/IP messages go. -/
structure BipAddr where
  port : UInt16
  addr : UInt32
  broadcast : UInt32
deriving DecidableEq, Repr

/-- An event, and what `esp_netif_get_ip_info` and `socket` return if its handler calls them. -/
structure LinkEvent where
  event : Event
  ipInfo : IpInfo
  sock : ℤ
deriving DecidableEq, Repr

structure Link where
  /-- `CONNECTED_BIT` of `s_net_event_group` -/
  connected : Bool
  bipAddr : BipAddr
  /-- `bip_socket()` -/
  bipSocket : ℤ
  /-- what `socket` returned and `close` closed, newest first -/
  sockets : List (Handle.Event ℤ)
deriving DecidableEq

/-- What `bip_init` publishes. -/
def bipAddrOf (ip : IpInfo) : BipAddr :=
  ⟨0xBAC0, ip.addr, (ip.addr &&& ip.netmask) ||| ~~~ip.netmask⟩

namespace Link

/-- `socket`, and what it returned. -/
def opened (s : Link) (sock : ℤ) : Link :=
  { s with sockets := if sock = -1 then s.sockets else .acquire sock :: s.sockets }

/-- `close`; there is no descriptor -1. -/
def closed (s : Link) (sock : ℤ) : Link :=
  { s with sockets := if sock = -1 then s.sockets else .release sock :: s.sockets }

def bipCleanup (s : Link) : Link := { s.closed s.bipSocket with bipSocket := -1 }

def bipInit (s : Link) (ip : IpInfo) (sock : ℤ) : Link :=
  { s.opened sock with bipAddr := bipAddrOf ip, bipSocket := sock }

/-- `StartBACnet`; the handlers it registers are the same each time. -/
def startBACnet (s : Link) (ip : IpInfo) (sock : ℤ) : Link := s.bipInit ip sock

/-- What an address does, in either variant. -/
def gotIp (s : Link) (ip : IpInfo) (sock : ℤ) : Link :=
  if s.connected ≠ true then { s with connected := true }.startBACnet ip sock else s

/-- What a lost link does, in either variant. -/
def disconnected (s : Link) : Link := { s with connected := false }.bipCleanup

/-- `event_handler`. -/
def wifiEventHandler (s : Link) (e : LinkEvent) : Link :=
  match e.event with
  -- `esp_wifi_connect`
  | .start => s
  | .disconnected => s.disconnected
  | .gotIp => s.gotIp e.ipInfo e.sock
  | _ => s

/-- `eth_event_handler` and `got_ip_event_handler`. -/
def ethEventHandler (s : Link) (e : LinkEvent) : Link :=
  match e.event with
  -- `esp_eth_ioctl`, for the log
  | .connected => s
  | .disconnected => s.disconnected
  | .gotIp => s.gotIp e.ipInfo e.sock
  | _ => s

def step (net : Net) (s : Link) (e : LinkEvent) : Option Link :=
  match net with
  | .wifi => some (s.wifiEventHandler e)
  | .eth => some (s.ethEventHandler e)

/-- Either variant, from the cells as they are at the start. -/
def machine (net : Net) (boot : BipAddr) : Machine Link LinkEvent := ⟨⟨false, boot, -1, []⟩, step net⟩

end Link

end EspNetwork.Bacnet
