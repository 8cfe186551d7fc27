import PqProxy.Memory
import PqProxy.RingBuffer
import PqProxy.Framing
import PqProxy.Runs
import PqProxy.LinearProbing
import PqProxy.Wire
import PqProxy.WirePg
import PqProxy.Rewrite
import PqProxy.RewriteSlot
import PqProxy.RewriteCache
import PqProxy.RewriteColumns
import PqProxy.RewriteResolve
import PqProxy.RewriteIndex
import PqProxy.Identity
import PqProxy.Pool
import PqProxy.PoolPipeline
import PqProxy.PoolFrame
import PqProxy.PoolSteps
import PqProxy.PoolClean
import PqProxy.PoolOps
import PqProxy.PoolRoles
import PqProxy.PoolExclusive
import PqProxy.PoolCalls
import PqProxy.Scram
import PqProxy.Authenticate
import PqProxy.LoopConn
import PqProxy.LoopReply
import PqProxy.Loop
import PqProxy.LoopIo
import PqProxy.LoopTurn
import PqProxy.LoopHistory
import PqProxy.LoopRequeue
import PqProxy.LoopFrame
import PqProxy.LoopWalk
import PqProxy.LoopStart
import PqProxy.LoopDrain
import PqProxy.LoopProcess
import PqProxy.LoopClose
import PqProxy.LoopLand
import PqProxy.LoopStep
import PqProxy.LoopRun
import PqProxy.LoopOwnership
import PqProxy.LoopEntries
import PqProxy.LoopGate
import PqProxy.LoopFaithful
import PqProxy.LoopPark
import PqProxy.LoopOutput
import PqProxy.LoopOrder
import PqProxy.LoopTerminate
import PqProxy.LoopTalk
import PqProxy.LoopResults
import PqProxy.LoopReady
import PqProxy.LoopOnce
import PqProxy.LoopLost
import PqProxy.ScramText
import PqProxy.Base64
import PqProxy.ScramFirst
import PqProxy.ScramExchange
import PqProxy.PoolNames
import PqProxy.PoolSizing
import PqProxy.PoolSearch
import PqProxy.Rotation
import PqProxy.PoolRotation
import PqProxy.PoolReassembly
import PqProxy.PoolCollectors
import PqProxy.PoolModes
import PqProxy.IdentityText
import PqProxy.ConfigYaml
import PqProxy.ConfigNumbers
import PqProxy.ConfigGroups
import PqProxy.LoopSend
import PqProxy.LoopQueue
import PqProxy.LoopRing
import PqProxy.LoopBooks
import PqProxy.LoopParams
import PqProxy.LoopRoom
import PqProxy.LoopCalm
import PqProxy.LoopShutdown
import PqProxy.LoopStale
import PqProxy.LoopSessions
import PqProxy.Transfers
import PqProxy.PoolSockets
import PqProxy.AuthenticateCalls
import PqProxy.Exposition
import PqProxy.Metrics
import PqProxy.LoopMetrics
import PqProxy.Assignments
import PqProxy.CommandLine
import PqProxy.Startup
