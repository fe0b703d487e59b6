import EspNetwork.Lib.Machine
import EspNetwork.Proof.IotWarning
import EspNetwork.Proof.IotRoundTrip
import EspNetwork.Proof.IotJson
import EspNetwork.Proof.SenderReceiver
import EspNetwork.Proof.Drain
import EspNetwork.Proof.Holes
import EspNetwork.Proof.TaskOrder
import EspNetwork.Proof.Peers
import EspNetwork.Proof.SshLockout
import EspNetwork.Proof.SshEcho
import EspNetwork.Proof.TcpClient
import EspNetwork.Proof.ScapyCycles
import EspNetwork.Proof.BacnetLive
import EspNetwork.Proof.BacnetLink
import EspNetwork.Proof.ScapySequence
import EspNetwork.Proof.SocketSend
import EspNetwork.Proof.RcvWndClient
import EspNetwork.Proof.IotFailure
import EspNetwork.Proof.IotFuzz
import EspNetwork.Proof.IotNumber
import EspNetwork.Proof.IotBounds
import EspNetwork.Proof.MockCorruption
import EspNetwork.Proof.ReceiverLog
import EspNetwork.Proof.BacnetTimers
import EspNetwork.Proof.LoadTester
import EspNetwork.Proof.EchoStreams
import EspNetwork.Proof.DetachedThreads
import EspNetwork.Proof.AeadLink
import EspNetwork.Proof.LoadTestServers
import EspNetwork.Proof.ResponseServers
import EspNetwork.Proof.IotReport
import EspNetwork.Proof.SshSample
import EspNetwork.Proof.WifiStation
import EspNetwork.Proof.Reflection
import EspNetwork.Proof.SocketTests
import EspNetwork.Proof.Admission
import EspNetwork.Proof.EchoAnswer
