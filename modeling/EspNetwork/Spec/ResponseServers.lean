import EspNetwork.Lib.Streams
import EspNetwork.Spec.RcvWndClient
import EspNetwork.Spec.ScapyExchange

/-!
# The servers and clients of the receive-window test (`lwip/rcvwnd_issue/scripts/`)

The response data of `scapy_tcp_server.py` and `hybrid_tcp_server.py`, the three modes of
the latter, and the receive functions of `test_tcp_client.py` with its analysis.
-/

namespace EspNetwork.RcvWnd

open CLib

/-! ## `_create_response_data` -/

def pattern : Bytes := bytes "0123456789ABCDEFGHIJKLMNOPQRSTUVWXYZ"

/-- `while len(data) < RESPONSE_SIZE` -/
def fill (responseSize : ℕ) (data : Bytes) : Bytes :=
  if data.length < responseSize then
    let remaining := responseSize - data.length
    fill responseSize (data ++ if pattern.length ≤ remaining then pattern else pattern.take remaining)
  else data
termination_by responseSize - data.length
decreasing_by
  have hpat : pattern.length = 36 := by decide
  rw [List.length_append]
  split
  · omega
  · rw [List.length_take]
    omega

def createResponseData (baseText : Bytes) (responseSize : ℕ) : Bytes :=
  (fill responseSize baseText).take responseSize

/-- `response_data` of the Scapy server -/
def scapyData : Bytes := createResponseData (bytes "SCAPY_TCP_TEST_") 1300

/-- `response_data` of the hybrid server -/
def hybridData : Bytes := createResponseData (bytes "HYBRID_TCP_TEST_") 1380

/-! ## The hybrid server -/

inductive Mode
  | windowOverrun
  | normal
  | fragmented
deriving DecidableEq, Repr

/-- The buffers that `_handle_client` sends, in order. -/
def Mode.sends (responseData : Bytes) : Mode → List Bytes
  | .windowOverrun => [Scapy.headers responseData, responseData]
  | .normal => [Scapy.headers responseData ++ responseData]
  | .fragmented => Scapy.headers responseData :: Streams.fragments responseData 500

/-- A test server, and what its run is about. -/
inductive TestServer
  /-- the numbers of the connection and which chunks are acknowledged -/
  | scapy (seq ack : ℤ) (acked : ℕ → Bool)
  | hybrid (mode : Mode)

/-- The bytes a server sends to a client. -/
def TestServer.stream : TestServer → Bytes
  | .scapy seq ack acked => (Scapy.sendHttpResponse scapyData seq ack acked).1.flatMap fun
      | .send segment => segment.load
      | _ => []
  | .hybrid mode => (mode.sends hybridData).flatten

/-! ## `test_tcp_client.py` -/

/-- What `sock.recv` does. -/
inductive PyRecv
  | data (bs : Bytes)
  | timeout
  | error

/-- `while True`: up to no data, a timeout or an error. -/
def receiveLoop : List PyRecv → Bytes
  | .data bs :: rs => if bs = [] then [] else bs ++ receiveLoop rs
  | _ => []

/-- `receive_data_normal`, with `recv(4096)` -/
def receiveDataNormal (rs : List PyRecv) : Bytes := receiveLoop rs

/-- `receive_data_slow`, with `recv(100)` and a pause after each -/
def receiveDataSlow (rs : List PyRecv) : Bytes := receiveLoop rs

/-- `receive_data_stall`: a first `recv` and, if it has data, the loop. -/
def receiveDataStall : List PyRecv → Bytes
  | .data bs :: rs => if bs = [] then [] else bs ++ receiveLoop rs
  | _ => []

/-- "Check for expected test pattern" -/
def patternFound (data : Bytes) : Bool := bytes "SCAPY_TCP_TEST_" <:+: data

end EspNetwork.RcvWnd
