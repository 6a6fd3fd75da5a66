import PacketBalance.Lib.Prog
import PacketBalance.Lib.ModularWalk
import PacketBalance.Lib.OrdMap
import PacketBalance.Lib.PercpuMap
import PacketBalance.Lib.InternetChecksum
import PacketBalance.Lib.Turns
import PacketBalance.Lib.Streak
import PacketBalance.Lib.ByteOrder
import PacketBalance.Lib.Lines
import PacketBalance.Lib.KeyWalk
import PacketBalance.Lib.Census
import PacketBalance.Lib.Text
import PacketBalance.Lib.Strto
import PacketBalance.Lib.Json
import PacketBalance.Lib.Monitor
import PacketBalance.Lib.Fairness
import PacketBalance.Abi
import PacketBalance.Hash
import PacketBalance.VipSpec
import PacketBalance.Maglev
import PacketBalance.Ring.Fill
import PacketBalance.Ring.Agreement
import PacketBalance.Ring.Reference
import PacketBalance.Ring.Shares
import PacketBalance.Ring.Order
import PacketBalance.Ring.Balance
import PacketBalance.Config
import PacketBalance.Maps
import PacketBalance.DataPlane
import PacketBalance.DataPlane.Affinity
import PacketBalance.DataPlane.Routing
import PacketBalance.DataPlane.Encap
import PacketBalance.DataPlane.Checksum
import PacketBalance.DataPlane.Counters
import PacketBalance.DataPlane.Receipts
import PacketBalance.DataPlane.SlotStable
import PacketBalance.DataPlane.IcmpErrors
import PacketBalance.DataPlane.Dropped
import PacketBalance.DataPlane.Genuine
import PacketBalance.DataPlane.NonInterference
import PacketBalance.RealTable
import PacketBalance.LbState
import PacketBalance.Cidr
import PacketBalance.Arguments
import PacketBalance.ApiServer
import PacketBalance.ApiServer.Threads
import PacketBalance.ApiServer.Ownership
import PacketBalance.ApiServer.Stop
import PacketBalance.ApiServer.Answers
import PacketBalance.MapReader
import PacketBalance.MapReader.Counters
import PacketBalance.RingMap
import PacketBalance.Commands
import PacketBalance.Pbctl
import PacketBalance.Conncheck
import PacketBalance.Conncheck.Accounts
import PacketBalance.RealTable.Abstract
import PacketBalance.RealTable.Ops
import PacketBalance.RealTable.Custody
import PacketBalance.RealTable.Slots
import PacketBalance.RealTable.Sources
import PacketBalance.RealTable.Reuse
import PacketBalance.Pinned
import PacketBalance.LbState.Invariant
import PacketBalance.LbState.Members
import PacketBalance.LbState.Delete
import PacketBalance.LbState.Reconcile
import PacketBalance.LbState.Closed
import PacketBalance.LbState.Membership
import PacketBalance.LbState.Adopt
import PacketBalance.LbState.Apply
import PacketBalance.LbState.Settled
import PacketBalance.LbState.Along
import PacketBalance.LbState.Unchanged
import PacketBalance.LbState.Capacity
import PacketBalance.LbState.Stability
import PacketBalance.LbState.Api
import PacketBalance.LbState.Refresh
import PacketBalance.Operation
import PacketBalance.HealthChecker
import PacketBalance.LbState.Defined
import PacketBalance.LbState.Cleared
import PacketBalance.LbState.Coherence
import PacketBalance.LbState.Noted
import PacketBalance.LbState.Table
import PacketBalance.System
import PacketBalance.System.Capacity
import PacketBalance.System.Safety
import PacketBalance.System.Reconcile
import PacketBalance.System.Idempotence
import PacketBalance.System.Stability
import PacketBalance.System.Histories
import PacketBalance.System.Hitless
import PacketBalance.System.Probing
import PacketBalance.System.Neighbors
import PacketBalance.System.Serving
import PacketBalance.System.Api
import PacketBalance.System.Hysteresis
import PacketBalance.System.Atomic
import PacketBalance.System.Coherence
import PacketBalance.System.InRing
import PacketBalance.System.Fit
import PacketBalance.System.Convergence
import PacketBalance.System.Reload
import PacketBalance.System.Representation
import PacketBalance.System.Accounts
import PacketBalance.System.Rounds
import PacketBalance.System.RingShow
import PacketBalance.ConfigFile.Format
import PacketBalance.ConfigFile.Errors
import PacketBalance.System.Overrides
