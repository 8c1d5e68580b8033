import Irohsion.Client.CacheContents
import Irohsion.Client.CacheHistory
import Irohsion.Client.CachedPayloads
import Irohsion.Client.ChunkNumbering
import Irohsion.Client.Consistency
import Irohsion.Client.DoubtfulPaths
import Irohsion.Client.FecEncoder
import Irohsion.Client.FecFrameSizes
import Irohsion.Client.HealthRecorders
import Irohsion.Client.PacketCalls
import Irohsion.Client.PacketSizes
import Irohsion.Client.ParityGroups
import Irohsion.Client.PathStrategy
import Irohsion.Client.Preview
import Irohsion.Client.Progress
import Irohsion.Client.RationalWeights
import Irohsion.Client.RepairAnswers
import Irohsion.Client.RepairCache
import Irohsion.Client.SendCalls
import Irohsion.Client.SendFailures
import Irohsion.Client.SendLoop
import Irohsion.Client.SenderRuns
import Irohsion.Client.Shipments
import Irohsion.Client.SilentDrops
import Irohsion.Client.SplitRanges
import Irohsion.Client.SplitShares
import Irohsion.Client.StrategyLoop
import Irohsion.EndToEnd.ChatDelivery
import Irohsion.EndToEnd.FecRoundTrip
import Irohsion.EndToEnd.LossyStream
import Irohsion.EndToEnd.PreviewDelivery
import Irohsion.EndToEnd.RepairRoundTrip
import Irohsion.EndToEnd.RepairedStream
import Irohsion.EndToEnd.SplitReassembly
import Irohsion.EndToEnd.StreamDelivery
import Irohsion.Foundation.BreakLoop
import Irohsion.Foundation.ChunkedReading
import Irohsion.Foundation.Clock
import Irohsion.Foundation.CyclicPositions
import Irohsion.Foundation.GrowingLogs
import Irohsion.Foundation.InOrderDelivery
import Irohsion.Foundation.ListLoops
import Irohsion.Foundation.LittleEndian
import Irohsion.Foundation.NewestStamp
import Irohsion.Foundation.Numerals
import Irohsion.Foundation.OrderedMap
import Irohsion.Foundation.Parity
import Irohsion.Foundation.QueuedStore
import Irohsion.Foundation.RecencyQueue
import Irohsion.Foundation.RecordCutting
import Irohsion.Foundation.Rounding
import Irohsion.Foundation.Settling
import Irohsion.Foundation.SortedRuns
import Irohsion.Foundation.SpacedKeys
import Irohsion.Foundation.TextFields
import Irohsion.Foundation.Tiling
import Irohsion.Protocol.Content
import Irohsion.Protocol.FecFrame
import Irohsion.Protocol.Packet
import Irohsion.Protocol.RepairRequest
import Irohsion.Protocol.Sequence
import Irohsion.Protocol.SliceBounds
import Irohsion.Protocol.WireFormats
import Irohsion.Remote.PreviewTransfer
import Irohsion.Remote.StatusTransfer
import Irohsion.Server.AdvanceCalls
import Irohsion.Server.AdvanceWindow
import Irohsion.Server.Arrivals
import Irohsion.Server.AwaitedRepairs
import Irohsion.Server.Broadcast
import Irohsion.Server.CachedMembers
import Irohsion.Server.ChatReports
import Irohsion.Server.CheckedLoop
import Irohsion.Server.Delivery
import Irohsion.Server.ExpiryTimers
import Irohsion.Server.FecRecovery
import Irohsion.Server.FecState
import Irohsion.Server.FecStores
import Irohsion.Server.FlowIsolation
import Irohsion.Server.Forwarding
import Irohsion.Server.FragmentAssembly
import Irohsion.Server.GapExpiry
import Irohsion.Server.HeadOfLine
import Irohsion.Server.HealthReports
import Irohsion.Server.Integrity
import Irohsion.Server.LiveConnections
import Irohsion.Server.LoopBounds
import Irohsion.Server.LoopInvariant
import Irohsion.Server.LossyDelivery
import Irohsion.Server.NewerConnections
import Irohsion.Server.ParseFrame
import Irohsion.Server.PeeledFrames
import Irohsion.Server.Pending
import Irohsion.Server.Reassembly
import Irohsion.Server.RecoveringFlow
import Irohsion.Server.Registries
import Irohsion.Server.ReorderLoop
import Irohsion.Server.ReorderState
import Irohsion.Server.RepairNotes
import Irohsion.Server.RepairedDelivery
import Irohsion.Server.Representation
import Irohsion.Server.Responses
import Irohsion.Server.RestartDetector
import Irohsion.Server.RestartHistory
import Irohsion.Server.RestartRuns
import Irohsion.Server.SequenceReuse
import Irohsion.Server.SequenceWrap
import Irohsion.Server.Shelter
import Irohsion.Server.SilentRepairs
import Irohsion.Server.SpentFrames
import Irohsion.Server.Stragglers
import Irohsion.Server.StuckFrames
import Irohsion.Server.TimelyDelivery
import Irohsion.Server.TimelyRounds
import Irohsion.Server.UnreadPast
import Irohsion.Server.WellFormed
import Irohsion.Server.WindowMoves
import Irohsion.Transport.HealthReport
import Irohsion.Transport.HealthText
import Irohsion.Transport.PathConnection
import Irohsion.Transport.ReconnectRequests
