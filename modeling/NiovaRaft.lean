import NiovaRaft.Model.Cluster
import NiovaRaft.Base.LeaderCompleteness
import NiovaRaft.Spec.Log
import NiovaRaft.Refinement.Cluster
import NiovaRaft.Spec.Leader
import NiovaRaft.Spec.Follower
import NiovaRaft.Spec.Writes
import NiovaRaft.Spec.Startup
import NiovaRaft.Leader.Independence
import NiovaRaft.Leader.Leaderships
import NiovaRaft.Follower.Prune
import NiovaRaft.Follower.StaleTerm
import NiovaRaft.Follower.Replica
import NiovaRaft.StateMachine.Inputs
import NiovaRaft.StateMachine.Checksums
import NiovaRaft.Recovery.ApplyBound
import NiovaRaft.Recovery.Checkpoint
import NiovaRaft.Recovery.Reaping
import NiovaRaft.Recovery.Votes
import NiovaRaft.Safety.Election
import NiovaRaft.Safety.LeaderCompleteness
import NiovaRaft.Safety.StateMachine
import NiovaRaft.Server.IndexOrder
import NiovaRaft.Leader.Acceptance
import NiovaRaft.Server.PreVote
import NiovaRaft.Server.SyncMutex
import NiovaRaft.Server.TermAdoption
import NiovaRaft.Server.Votability
import NiovaRaft.Server.ClientReplies
import NiovaRaft.Recovery.LogLoad
import NiovaRaft.Backend.PosixFile
import NiovaRaft.Backend.PosixHeader
import NiovaRaft.Backend.RocksLog
import NiovaRaft.Recovery.BulkRecovery
import NiovaRaft.Client.Cancellation
import NiovaRaft.Backend.RecoveryMarker
import NiovaRaft.Backend.CheckpointResults
import NiovaRaft.Recovery.Scrub
import NiovaRaft.Recovery.Retries
import NiovaRaft.Net.Selection
import NiovaRaft.Net.Supplements
import NiovaRaft.Net.UserId
import NiovaRaft.Backend.ColumnFamilies
import NiovaRaft.Leader.MajorityIndex
import NiovaRaft.Leader.Faithfulness
import NiovaRaft.Net.ReplyData
import NiovaRaft.Server.Timers
import NiovaRaft.Server.SyncHeaders
import NiovaRaft.Server.ReadCompaction
import NiovaRaft.Server.Permanence
import NiovaRaft.Leader.AppendOnly
import NiovaRaft.Client.LeaderTracking
import NiovaRaft.Backend.ServerKeys
import NiovaRaft.Refinement.LogRepair
import NiovaRaft.Server.Campaign
import NiovaRaft.Leader.Progress
