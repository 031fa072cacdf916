import SyncTool.Acknowledgement
import SyncTool.AsyncIOHandler
import SyncTool.AsyncWrites
import SyncTool.Base128
import SyncTool.BrokenReception
import SyncTool.ClientFailures
import SyncTool.ClientSession
import SyncTool.Connection
import SyncTool.CreateDirectory
import SyncTool.Descent
import SyncTool.DirectoryDelivered
import SyncTool.FileSyncChanges
import SyncTool.FileSyncLocal
import SyncTool.FileSyncProgress
import SyncTool.FileSyncRemote
import SyncTool.FileSyncTransfer
import SyncTool.FileView
import SyncTool.LinkedFiles
import SyncTool.LinkedReturn
import SyncTool.LinkedScan
import SyncTool.LinuxFileUtil
import SyncTool.LocalFootprint
import SyncTool.Machine
import SyncTool.MachineEffects
import SyncTool.ParallelCopy
import SyncTool.ParallelRecords
import SyncTool.PartialDigest
import SyncTool.PartialFile
import SyncTool.PosixCalls
import SyncTool.PosixFiles
import SyncTool.PosixPath
import SyncTool.Program
import SyncTool.ProgramCrew
import SyncTool.ProgramDelay
import SyncTool.ProgramLogic
import SyncTool.ProgramPair
import SyncTool.ProgramPool
import SyncTool.ProgramRuns
import SyncTool.ProgramTag
import SyncTool.ProgramTally
import SyncTool.ProgramThrow
import SyncTool.ProgramUphold
import SyncTool.ProgressRecord
import SyncTool.RateLimit
import SyncTool.ReceiveBuffer
import SyncTool.RecordReading
import SyncTool.RemoteChange
import SyncTool.RemoteDecision
import SyncTool.RemoteResume
import SyncTool.RemoteScan
import SyncTool.RemoteSession
import SyncTool.RemoteSync
import SyncTool.ResumeSync
import SyncTool.RpcAgreement
import SyncTool.RpcClient
import SyncTool.RpcExchange
import SyncTool.RpcFraming
import SyncTool.RpcListing
import SyncTool.RpcProtobuf
import SyncTool.RpcServer
import SyncTool.RpcSession
import SyncTool.RpcView
import SyncTool.SentProgress
import SyncTool.ServerConfined
import SyncTool.ServerCrowd
import SyncTool.ServerDisconnects
import SyncTool.ServerExceptions
import SyncTool.ServerOwed
import SyncTool.ServerProcess
import SyncTool.ServerSession
import SyncTool.ServerTasks
import SyncTool.ServerWrites
import SyncTool.SessionAnswers
import SyncTool.SessionStream
import SyncTool.SkipComplete
import SyncTool.SkipFrame
import SyncTool.SourceStream
import SyncTool.SyncAgreement
import SyncTool.SyncFile
import SyncTool.SyncFileConflict
import SyncTool.SyncFileCrash
import SyncTool.SyncFileFailure
import SyncTool.SyncFileOutcome
import SyncTool.SyncLocalTurn
import SyncTool.SyncManager
import SyncTool.SyncManagerPool
import SyncTool.SyncServer
import SyncTool.SyncService
import SyncTool.SyncServiceCodec
import SyncTool.TaskOrder
import SyncTool.TaskWords
import SyncTool.ThreadPool
import SyncTool.TransferChunks
import SyncTool.TransferFaults
import SyncTool.TransferFile
import SyncTool.TransferNotice
import SyncTool.TransferTimed
import SyncTool.TreeCompare
import SyncTool.TreeExecuted
import SyncTool.TreeGround
import SyncTool.TreePlan
import SyncTool.TreeScan
import SyncTool.TreeSettled
import SyncTool.TreeSidecars
import SyncTool.TreeTasks
import SyncTool.Wire
import SyncTool.WireFields
import SyncTool.WireFormat
import SyncTool.WorkerPool
import SyncTool.WorkerPoolStop
