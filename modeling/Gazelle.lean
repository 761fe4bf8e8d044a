import Gazelle.Ring.Refinement
import Gazelle.Ring.LightRing
import Gazelle.LocklessQueue.Fifo
import Gazelle.LocklessQueue.Count
import Gazelle.Lwip.SendNotice
import Gazelle.Lwip.RecvStream
import Gazelle.Epoll.WaitWake
import Gazelle.Epoll.KernelEvent
import Gazelle.Epoll.EpollIn
import Gazelle.Ltran.Monitor
import Gazelle.Ltran.References
import Gazelle.Ltran.Affinity
import Gazelle.Lwip.SendPbuf
import Gazelle.Ltran.Crash
import Gazelle.Ltran.Ledger
import Gazelle.Lwip.RecvDatagram
import Gazelle.Lwip.DrainRing
import Gazelle.Lwip.ReadMailbox
import Gazelle.Lwip.RecvList
import Gazelle.Lwip.SendDatagram
import Gazelle.Ethdev.PortTables
import Gazelle.Ethdev.Retransmit
import Gazelle.Ethdev.RxChains
import Gazelle.Ethdev.SynDistribution
import Gazelle.Ethdev.QueueChoice
import Gazelle.Ethdev.RxPoll
import Gazelle.Lwip.SameNodeRing
import Gazelle.Lstack.Registration
import Gazelle.Ltran.RxOwners
import Gazelle.Lstack.Reconnect
import Gazelle.Lstack.Transfer
import Gazelle.Rpc.Safety
import Gazelle.Epoll.Retire
import Gazelle.Lwip.SockReset
import Gazelle.Lstack.ConnNum
import Gazelle.Lstack.Broadcast
import Gazelle.Epoll.FdCount
import Gazelle.Epoll.WaitReport
import Gazelle.Epoll.CtlWake
import Gazelle.Epoll.PollKernel
import Gazelle.Ltran.InstanceSlots
import Gazelle.Ltran.StackLogout
import Gazelle.Lwip.LastPbuf
import Gazelle.Lwip.WriteSizes
import Gazelle.Lwip.ScatterGather
import Gazelle.Text.Strtol
import Gazelle.Config.NumberList
import Gazelle.Config.NumberGrammar
import Gazelle.Config.DpdkArgs
import Gazelle.Config.StackArrays
import Gazelle.Lwip.SameNodeCreate
import Gazelle.Ltran.DfxCount
import Gazelle.Ltran.VirtualArea
import Gazelle.Ltran.Ticks
import Gazelle.Lstack.Startup
import Gazelle.Config.BondPorts
