import Replicate.Lib.IntervalChain
import Replicate.Lib.Traversal
import Replicate.Lib.PageHistory
import Replicate.Lib.Pipe
import Replicate.Lib.Interleaving
import Replicate.Lib.EntryList
import Replicate.Lib.HexDigits
import Replicate.Lib.PagedFile
import Replicate.LTX.FileInfo
import Replicate.LTX.Store
import Replicate.LTX.Library
import Replicate.Compaction.Compact
import Replicate.Compaction.CompactFailure
import Replicate.Compaction.Retention
import Replicate.Compaction.RetentionSafety
import Replicate.Restore.Planner
import Replicate.Restore.PlannerLoop
import Replicate.Restore.PlannerInvariant
import Replicate.Restore.PlannerCorrectness
import Replicate.Restore.PointInTime
import Replicate.Restore.FormatV3
import Replicate.Restore.Restore
import Replicate.Restore.Replay
import Replicate.Restore.ColdStart
import Replicate.DB.Init
import Replicate.DB.ReplicaSync
import Replicate.DB.Agreement
import Replicate.DB.ReplicaOperations
import Replicate.DB.ReplicaSyncSafety
import Replicate.DB.WAL
import Replicate.DB.SQLite
import Replicate.DB.WALSync
import Replicate.DB.WALCoverage
import Replicate.DB.WALVerify
import Replicate.DB.WALCapture
import Replicate.DB.WALSafety
import Replicate.DB.LevelZeroApply
import Replicate.VFS.Index
import Replicate.VFS.PageFreshness
import Replicate.VFS.IndexFreshness
import Replicate.VFS.Connection
import Replicate.VFS.WriterConflict
import Replicate.VFS.ReplicaLayout
import Replicate.VFS.PollProgress
import Replicate.VFS.IndexCoverage
import Replicate.VFS.ConnectionRuns
import Replicate.VFS.ReadStability
import Replicate.VFS.TimeTravel
import Replicate.VFS.SnapshotLabel
import Replicate.VFS.HydratedCopy
import Replicate.VFS.OwnWrites
import Replicate.Lease.Leaser
import Replicate.Lease.S3Leaser
import Replicate.Lease.S3Consistency
import Replicate.Lease.S3Exclusion
import Replicate.Lease.FileLeaser
import Replicate.Lease.FileExclusion
import Replicate.Lease.Generations
import Replicate.Lib.TimedLock
import Replicate.Lib.ByteReader
import Replicate.Lib.LittleEndian
import Replicate.Peer.Wire
import Replicate.Peer.Replication
import Replicate.Encryption.Sealing
import Replicate.Encryption.Operations
import Replicate.Encryption.FailClosed
import Replicate.DB.WALBytes
import Replicate.DB.WALPageMap
import Replicate.DB.WALSnapshot
import Replicate.Compaction.Levels
import Replicate.Compaction.LevelInvariant
import Replicate.Compaction.LevelContiguity
import Replicate.Follow.Resume
import Replicate.Compaction.LevelZero
import Replicate.Lib.LayeredFile
import Replicate.Follow.Apply
import Replicate.Follow.PollInvariant
import Replicate.Follow.GapFill
import Replicate.Follow.Convergence
import Replicate.DB.WALResume
import Replicate.DB.WALPieces
import Replicate.DB.WALReaderSafety
import Replicate.DB.SnapshotHeader
import Replicate.DB.PositionCache
import Replicate.DB.PositionCacheSafety
import Replicate.DB.PositionCacheInvariant
import Replicate.Restore.ResumableReader
import Replicate.Lease.CrashRecovery
import Replicate.VFS.PlainFile
import Replicate.VFS.HandOver
import Replicate.VFS.WriteGate
import Replicate.LTX.PageIndex
import Replicate.Lib.SlashPath
import Replicate.Client.NATS
import Replicate.Config.ReplicaURL
import Replicate.Client.NATSSnapshots
import Replicate.Client.Isolation
import Replicate.DB.StoreCalls
import Replicate.Restore.NamesV3
import Replicate.Restore.SegmentsV3
import Replicate.Restore.FormatChoice
import Replicate.Config.DirectoryReplicas
