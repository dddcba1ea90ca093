import Libp2px.Vtcp.SkipLoop
import Libp2px.Vtcp.Emission
import Libp2px.Vtcp.CloseAgain
import Libp2px.Vtcp.Timers
import Libp2px.Vtcp.Blocked
import Libp2px.Vtcp.AckStorm
import Libp2px.Vtcp.Paws
import Libp2px.Vtcp.Wire
import Libp2px.Vtcp.Karn
import Libp2px.Vtcp.Trampoline
import Libp2px.RelayFile.Confined
import Libp2px.RelayFile.SavePath
import Libp2px.RelayFile.Agreement
import Libp2px.RelayFile.Report
import Libp2px.Tunnel.Read
import Libp2px.Tunnel.Connect
import Libp2px.Tunnel.VirtualIP
import Libp2px.Events.Poll
import Libp2px.Relays.Calls
import Libp2px.Gossip.Spread
import Libp2px.Iroh.Accept
import Libp2px.Iroh.Release
import Libp2px.Iroh.Client
import Libp2px.RelayFile.Concurrent
import Libp2px.RelayFile.Cancel
import Libp2px.RelayFile.Poll
import Libp2px.Relays.Prune
import Libp2px.Relays.Refill
import Libp2px.Dlog.Debounce
import Libp2px.Iroh.Lifecycle
import Libp2px.Turn.Pool
import Libp2px.Vtcp.Memory
import Libp2px.Vtcp.Reno
import Libp2px.Events.Forward
import Libp2px.Node.Peerstore
import Libp2px.Node.StablePeers
import Libp2px.Node.Protocols
import Libp2px.Node.Dns
import Libp2px.Node.Offline
import Libp2px.Vtcp.Rto
import Libp2px.Events.Buffer
import Libp2px.Tunnel.Target
import Libp2px.Tunnel.Reconnect
import Libp2px.Node.AddrManager
