import Tmgr.Lib.Run
import Tmgr.Lib.Rank
import Tmgr.Lib.Quorum
import Tmgr.Lib.LogPaxos
import Tmgr.Lib.Precedence
import Tmgr.Lib.Linearizability
import Tmgr.DbInv
import Tmgr.Fencing
import Tmgr.MainLock
import Tmgr.Halt
import Tmgr.ClaimChoice
import Tmgr.Leases
import Tmgr.Lineage
import Tmgr.Dependencies
import Tmgr.Finish
import Tmgr.StepDown
import Tmgr.PaxosSafety
import Tmgr.Rendezvous
import Tmgr.ElectionSafety
import Tmgr.Orphans
import Tmgr.FollowerAck
import Tmgr.SingleReplica
import Tmgr.DecisionLog
import Tmgr.Server
import Tmgr.Delivery
import Tmgr.ReplayLoop
import Tmgr.Handover
import Tmgr.ReplayAgreement
import Tmgr.DecisionFile
import Tmgr.LogIndexing
import Tmgr.Watermark
import Tmgr.Integrity
import Tmgr.ClientHistory
import Tmgr.Linearizable
import Tmgr.Answers
import Tmgr.GroupHistory
import Tmgr.Reach
import Tmgr.Recovery
import Tmgr.Availability
import Tmgr.Cluster
import Tmgr.Netsim
import Tmgr.Connection
import Tmgr.TcpCluster
import Tmgr.CheckInvariants
import Tmgr.WorkToCome
import Tmgr.Agents
import Tmgr.Swarm
import Tmgr.TestRuns
import Tmgr.Isolation
import Tmgr.DumpReads
import Tmgr.GroupReplay
