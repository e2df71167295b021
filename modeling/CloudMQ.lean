import CloudMQ.Properties
import CloudMQ.CommitLog
import CloudMQ.Append
import CloudMQ.Agreement
import CloudMQ.Replay
import CloudMQ.Recover
import CloudMQ.Records
import CloudMQ.ValidPrefix
import CloudMQ.Restart
import CloudMQ.SyncMaster
import CloudMQ.Tiling
import CloudMQ.Runs
import CloudMQ.Extents
import CloudMQ.Segment
import CloudMQ.Chain
import CloudMQ.Flush
import CloudMQ.ServiceThread
import CloudMQ.Memory
import CloudMQ.HAConnection
import CloudMQ.HATransfer
import CloudMQ.LogBytes
import CloudMQ.Replication
import CloudMQ.Reput
import CloudMQ.Units
import CloudMQ.SlaveStore
import CloudMQ.ConsumeQueues
import CloudMQ.TransactionState
import CloudMQ.Dispatch
import CloudMQ.Puts
import CloudMQ.MasterStore
import CloudMQ.Alignment
import CloudMQ.Tables
import CloudMQ.Topics
import CloudMQ.RouteInfo
import CloudMQ.RouteTables
import CloudMQ.RouteTopics
import CloudMQ.RouteRemovals
import CloudMQ.TopicManager
import CloudMQ.BrokerRegistration
import CloudMQ.Following
import CloudMQ.TopicPerms
import CloudMQ.SlaveSync
import CloudMQ.ClientInstance
import CloudMQ.ClientRoutes
import CloudMQ.TopicRoutes
import CloudMQ.Checkpoint
import CloudMQ.DelayedDelivery
import CloudMQ.IndexCompleteness
import CloudMQ.OrderlyConsume
import CloudMQ.ConsumerOffsets
import CloudMQ.OffsetTable
import CloudMQ.OffsetCommits
import CloudMQ.PullRequestHold
import CloudMQ.RebalanceLock
import CloudMQ.MembershipChanges
import CloudMQ.Allocation
import CloudMQ.ConsumerRegistration
import CloudMQ.ConcurrentConsume
import CloudMQ.StateTableRebuild
import CloudMQ.TagFilter
import CloudMQ.PullFromWhere
import CloudMQ.BroadcastOffsets
import CloudMQ.OfflineGroup
import CloudMQ.ProcessQueueTable
import CloudMQ.QueueRounds
import CloudMQ.OffsetReset
import CloudMQ.SendMessageBack
import CloudMQ.RetryChain
import CloudMQ.SendBackPaths
import CloudMQ.SlavePulls
import CloudMQ.OrderlyTasks
import CloudMQ.DroppedQueue
import CloudMQ.RecordSizes
import CloudMQ.ClientDecoder
import CloudMQ.ConfigFiles
import CloudMQ.KVConfig
import CloudMQ.AllocateMapedFile
import CloudMQ.RedoLogScan
import CloudMQ.TransactionOutcome
import CloudMQ.CheckTimer
import CloudMQ.AsyncCalls
import CloudMQ.PullScan
import CloudMQ.DelayDetour
import CloudMQ.Strategies
import CloudMQ.AdminOffsets
import CloudMQ.CorrectionOffsets
import CloudMQ.MessageIds
import CloudMQ.ExpiredEntries
import CloudMQ.OffsetByTime
import CloudMQ.QueryCompleteness
import CloudMQ.QueryMessage
import CloudMQ.QueueSelection
import CloudMQ.PagecacheTransfer
import CloudMQ.DiskProtection
import CloudMQ.FilterSyntax
import CloudMQ.ReferenceCount
import CloudMQ.CustomHeader
import CloudMQ.BrokerSettings
import CloudMQ.MessageEncoder
import CloudMQ.SendAttempts
import CloudMQ.IndexRecovery
import CloudMQ.FilterForward
import CloudMQ.PureJavaCrc32
import CloudMQ.Delivery
import CloudMQ.RemotingCommands
import CloudMQ.QueueLocks
import CloudMQ.Invocations
import CloudMQ.GroupProgress
