import Mango.Lib.Except
import Mango.Lib.List
import Mango.Narwhal.Types
import Mango.Narwhal.Consensus.SubDag
import Mango.Narwhal.Consensus.State
import Mango.Narwhal.Consensus.OrderDag
import Mango.Narwhal.Consensus.OrderDagComplete
import Mango.Narwhal.Consensus.LeaderSchedule
import Mango.Narwhal.Consensus.Store
import Mango.Narwhal.Consensus.Bullshark
import Mango.Narwhal.Consensus.Task
import Mango.Narwhal.Consensus.CommitStep
import Mango.Narwhal.Consensus.Run
import Mango.Narwhal.Consensus.Invariants
import Mango.Narwhal.Consensus.Reputation
import Mango.Narwhal.Consensus.Recovery
import Mango.Narwhal.Primary.Vote
import Mango.Narwhal.Primary.Proposer
import Mango.Narwhal.Primary.ProposerDigests
import Mango.Narwhal.Primary.Synchronizer
import Mango.Core.ConsensusHandler
import Mango.Core.Object
import Mango.Core.Transaction
import Mango.Core.TransactionChecks
import Mango.Lib.VersionTable
import Mango.Lib.Tally
import Mango.Core.Effects
import Mango.Core.ObjectStore
import Mango.Core.StakeAggregator
import Mango.Core.Checkpoint
import Mango.Core.CausalOrder
import Mango.Core.CausalOrderSound
import Mango.Adapter.Context
import Mango.Adapter.Gas
import Mango.Adapter.TemporaryStore
import Mango.Adapter.GasCharger
import Mango.Adapter.Conservation
import Mango.Adapter.Effects
import Mango.Lib.Rounding
import Mango.Framework.StakingPool
import Mango.Framework.PoolLifecycle
import Mango.Framework.VotingPower
import Mango.Lib.BinaryHeap
import Mango.Framework.PriorityQueue
import Mango.Lib.WeightedQuantile
import Mango.Framework.ValidatorSet
import Mango.Lib.VecMap
import Mango.Lib.SortedMap
import Mango.Framework.RewardDistribution
import Mango.Framework.ValidatorSetState
import Mango.Framework.PendingRemovals
import Mango.Framework.EpochChange
import Mango.Framework.ValidatorSetRuns
import Mango.Consensus.ThresholdClock
import Mango.Framework.LinkedTable
import Mango.Lib.SortedSet
import Mango.Consensus.Block
import Mango.Consensus.DagState
import Mango.Consensus.Core
import Mango.Consensus.CoreRuns
import Mango.Lib.Bitmap
import Mango.Types.MultiSig
import Mango.Types.MultiSigCorrect
import Mango.Framework.Kiosk
import Mango.Framework.KioskRuns
import Mango.Lib.VecSet
import Mango.Framework.TransferPolicy
import Mango.Framework.KioskExtension
import Mango.Framework.Coin
import Mango.Consensus.BaseCommitter
import Mango.Consensus.UniversalCommitter
import Mango.Consensus.CommitSafety
