import Wgx.Lib.Run
import Wgx.Replay
import Wgx.Basic
import Wgx.Lib.PrefixTrie
import Wgx.AllowedIps.Table
import Wgx.AllowedIps.Refine
import Wgx.Lib.Ring
import Wgx.Crypto
import Wgx.Noise.State
import Wgx.Noise.Handshake
import Wgx.Device.Peers
import Wgx.Noise.Agreement
import Wgx.Device.Transport
import Wgx.Device.Flush
import Wgx.Device.Routing
import Wgx.Noise.Indices
import Wgx.Lib.Serial
import Wgx.Tcp.Conn
import Wgx.Tcp.Input
import Wgx.Tcp.Frame
import Wgx.Tcp.Receive
import Wgx.Tcp.Sendbuf
import Wgx.Tcp.Send
import Wgx.Device.Network
import Wgx.Device.OnePeer
import Wgx.Device.Quiescence
import Wgx.Device.Nonce
import Wgx.Device.Reachable
import Wgx.Device.Datagrams
import Wgx.Device.Sessions
import Wgx.Uapi.Set
import Wgx.Uapi.Blocks
import Wgx.Tcp.Moves
import Wgx.Tcp.Wire
import Wgx.Socks5.Conn
import Wgx.Socks5.Handshake
import Wgx.Socks5.Frame
import Wgx.Socks5.Parser
import Wgx.Socks5.Stages
import Wgx.Socks5.Gate
import Wgx.Lib.Linked
import Wgx.Worker.Queue
import Wgx.Worker.Pool
import Wgx.Worker.Delivery
import Wgx.Device.RoundTrip
import Wgx.Tcp.Timer
import Wgx.Tcp.Window
import Wgx.Tcp.Acks
import Wgx.Lib.Checksum
import Wgx.Tcp.Packet
import Wgx.Tcp.Mtu
import Wgx.Tcp.Stack
import Wgx.Apple.Indices
import Wgx.Apple.Transport
import Wgx.Device.Life
import Wgx.Device.Clocks
import Wgx.Device.Reconfigured
import Wgx.Device.Turns
import Wgx.Device.Acceptance
import Wgx.Device.Expiry
import Wgx.Lib.Spans
import Wgx.Tcp.OutOfOrder
import Wgx.Tcp.Assembly
import Wgx.Forward.Conn
import Wgx.Forward.Progress
import Wgx.Lib.Fifo
import Wgx.Socks5.Queues
import Wgx.Lib.Heap
import Wgx.Socks5.Buffers
import Wgx.Tcp.Buffered
import Wgx.Conf.Base64
import Wgx.Noise.Cookies
import Wgx.Socks5.Window
import Wgx.Socks5.Protocol
import Wgx.Socks5.Dns
import Wgx.Socks5.DnsCache
import Wgx.Socks5.DnsWaiters
import Wgx.Conf.Load
import Wgx.Conf.Errors
import Wgx.Conf.Lines
import Wgx.Conf.Alike
import Wgx.Conf.Reorder
import Wgx.Hash.Blake2s
import Wgx.Lib.Blocks
import Wgx.Hash.Chunks
import Wgx.Tcp.SynOptions
import Wgx.Lib.Arena
import Wgx.Tcp.FlushQueue
import Wgx.Socks5.FlushQueue
import Wgx.Device.RateLimit
import Wgx.Device.Carried
import Wgx.Device.Delivery
import Wgx.Lib.Printer
import Wgx.Uapi.Get
import Wgx.Tcp.Pair
import Wgx.AllowedIps.Copy
import Wgx.Uapi.Keyed
import Wgx.Uapi.RoundTrip
