import GreaseLog.BoundedFifo
import GreaseLog.SafeCircular
import GreaseLog.LittleEndian
import GreaseLog.Run
import GreaseLog.LockTrace
import GreaseLog.JsonString
import GreaseLog.Snprintf
import GreaseLog.OpenAddressing
import GreaseLog.LogMeta
import GreaseLog.FilterTable
import GreaseLog.FilterTableInvariant
import GreaseLog.JsonEscape
import GreaseLog.SingleLog
import GreaseLog.LogTarget
import GreaseLog.EntrySources
import GreaseLog.Dispatch
import GreaseLog.Logger
import GreaseLog.Intake
import GreaseLog.RoutingReference
import GreaseLog.Routing
import GreaseLog.FilterLaw
import GreaseLog.FilterSwitches
import GreaseLog.TargetSteps
import GreaseLog.BufferedOutput
import GreaseLog.FlushedBytes
import GreaseLog.BankCapacity
import GreaseLog.OverflowBytes
import GreaseLog.OverflowRefs
import GreaseLog.LoggerSteps
import GreaseLog.KeepAlive
import GreaseLog.KeepAliveRuns
import GreaseLog.Mutexes
import GreaseLog.MutexRuns
import GreaseLog.FilterCache
import GreaseLog.BankConservation
import GreaseLog.MessageOrder
import GreaseLog.ExactlyOnce
import GreaseLog.IgnoreLists
import GreaseLog.FileRotation
import GreaseLog.RotationSteps
import GreaseLog.RotatedFiles
import GreaseLog.RotationNames
import GreaseLog.FileOutput
import GreaseLog.Wire
import GreaseLog.UnixDgramSink
import GreaseLog.SinkRoundTrip
import GreaseLog.SinkDecoding
import GreaseLog.RawEncoder
import GreaseLog.UntrustedMeta
import GreaseLog.PoolSystem
import GreaseLog.PoolConservation
import GreaseLog.EntrySizes
import GreaseLog.KernelParsers
import GreaseLog.KernelRecords
import GreaseLog.KernelSplits
import GreaseLog.KlogBatches
import GreaseLog.KmsgListener
import GreaseLog.DispatchWalk
import GreaseLog.MessageLengths
import GreaseLog.SyslogSink
import GreaseLog.SinkStaging
import GreaseLog.EscapeRounds
import GreaseLog.EscapedText
import GreaseLog.EscapeLaws
import GreaseLog.LevelMasks
import GreaseLog.RotationLimits
import GreaseLog.Decorations
import GreaseLog.DecorationText
import GreaseLog.KHash
import GreaseLog.KHashCells
import GreaseLog.KHashSearch
import GreaseLog.KHashRehash
import GreaseLog.KHashTable
import GreaseLog.KHashRuns
import GreaseLog.HashedFilters
import GreaseLog.GreaseClient
import GreaseLog.ClientDelivery
import GreaseLog.ClientRuns
import GreaseLog.CondVar
import GreaseLog.CircularMonitor
import GreaseLog.CircularRuns
import GreaseLog.CircularWakeups
import GreaseLog.Redirectors
import GreaseLog.RedirectStreams
import GreaseLog.RedirectCloses
import GreaseLog.Labels
import GreaseLog.TargetStart
import GreaseLog.LibFilters
