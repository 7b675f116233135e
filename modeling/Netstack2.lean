import Netstack2.Tcp.Engine.Window
import Netstack2.Tcp.Engine.Mtu
import Netstack2.Core.FragmentGroup
import Netstack2.Core.Shard.Notify
import Netstack2.Udp.FlowTable
import Netstack2.Core.Shard.Egress
import Netstack2.Core.BufferPool
import Netstack2.Tcp.Congestion.Kalman
import Netstack2.Tcp.Congestion.Minmax
import Netstack2.Tcp.Congestion.Rate
import Netstack2.Tcp.Send.Progress
import Netstack2.Tcp.Send.Effort
import Netstack2.Tcp.Send.Ecn
import Netstack2.Tcp.Send.FastRetransmit
import Netstack2.Tcp.Send.Sample
import Netstack2.Tcp.Delivery.Exact
import Netstack2.Tcp.Receive.Sack
import Netstack2.Tcp.Engine.Reap
import Netstack2.Qos.FqCodel.FlowQueue
import Netstack2.Qos.FqCodel.Priority
import Netstack2.Qos.FqCodel.Fairness
import Netstack2.Tcp.Engine.TimeWait
import Netstack2.Tcp.Engine.Diagram
import Netstack2.Timer.Run
import Netstack2.Ip.Fragment.Memory
