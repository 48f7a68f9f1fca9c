import TraCR.Lib.Run
import TraCR.Lib.SortedList
import TraCR.Lib.Interleaving
import TraCR.Lib.Pairs
import TraCR.Lib.Records
import TraCR.Lib.Ring
import TraCR.Lib.Decimal
import TraCR.Lib.Traversal
import TraCR.Lib.Extrema
import TraCR.Lib.Contents
import TraCR.Lib.Tally
import TraCR.Lib.Hex
import TraCR.Lib.Lines
import TraCR.Lib.JsonText
import TraCR.Engine.Payload
import TraCR.Engine.Json
import TraCR.Engine.Disk
import TraCR.Engine.Thread
import TraCR.Engine.Timer
import TraCR.Engine.Proc
import TraCR.Core.World
import TraCR.Core.Effects
import TraCR.Core.TraceStr
import TraCR.Postprocess.Channel
import TraCR.Postprocess.Merger
import TraCR.Postprocess.Load
import TraCR.Postprocess.Perfetto
import TraCR.Postprocess.PerfettoText
import TraCR.Postprocess.Paraver
import TraCR.Postprocess.Dump
import TraCR.Nlohmann.Serializer
import TraCR.Nlohmann.Lexer
import TraCR.Nlohmann.Parser
import TraCR.Nlohmann.Meaning
import TraCR.Postprocess.ParaverText
import TraCR.Proofs.Merger
import TraCR.Proofs.Paraver
import TraCR.Proofs.Perfetto
import TraCR.Proofs.Timeline
import TraCR.Proofs.Objects
import TraCR.Proofs.ProcOrder
import TraCR.Proofs.Tables
import TraCR.Proofs.Folder
import TraCR.Proofs.Overflow
import TraCR.Proofs.RoundTrip
import TraCR.Proofs.SameIntervals
import TraCR.Proofs.Reordering
import TraCR.Proofs.Metadata
import TraCR.Proofs.Registry
import TraCR.Proofs.EventValues
import TraCR.Proofs.LastEvents
import TraCR.Proofs.Slices
import TraCR.Proofs.ValueLabels
import TraCR.Proofs.Sessions
import TraCR.Proofs.Lifecycle
import TraCR.Proofs.Recording
import TraCR.Proofs.EndToEnd
import TraCR.Proofs.Flows
import TraCR.Proofs.PrvBody
import TraCR.Proofs.FlowPairs
import TraCR.Proofs.Dump
import TraCR.Proofs.DumpBalance
import TraCR.Proofs.HexDump
import TraCR.Proofs.Timer
import TraCR.Proofs.Builds
import TraCR.Proofs.Pausing
import TraCR.Proofs.Truncation
import TraCR.Proofs.ChannelNames
import TraCR.Proofs.Microseconds
import TraCR.Proofs.Document
import TraCR.Proofs.Lexer
import TraCR.Proofs.Parser
import TraCR.Proofs.CutText
import TraCR.Proofs.Serializer
import TraCR.Proofs.MetadataText
import TraCR.Proofs.ParaverText
import TraCR.Lib.Sharing
import TraCR.Engine.Folders
import TraCR.Proofs.Folders
import TraCR.Proofs.Processes
import TraCR.Proofs.FinishedSession
import TraCR.Proofs.Job
import TraCR.Proofs.JobTimeline
