import RecordingAgent.Foundation.Execution
import RecordingAgent.Foundation.FlagWord
import RecordingAgent.Foundation.CString
import RecordingAgent.Reagent.Config
import RecordingAgent.Reagent.State
import RecordingAgent.Reagent.Process
import RecordingAgent.Reagent.Recording
import RecordingAgent.Reagent.Messages
import RecordingAgent.Reagent.Timer
import RecordingAgent.Reagent.Step
import RecordingAgent.Reagent.Frame
import RecordingAgent.Reagent.Effect
import RecordingAgent.Reagent.Commands
import RecordingAgent.Reagent.StartPoints
import RecordingAgent.Reagent.UsableDrive
import RecordingAgent.Reagent.Drives
import RecordingAgent.Reagent.ShutdownFinal
import RecordingAgent.Reagent.PausePersists
import RecordingAgent.Foundation.Counting
import RecordingAgent.Reagent.RecordingCount
import RecordingAgent.Reagent.Reattach
import RecordingAgent.Reagent.SighupLeaks
import RecordingAgent.Foundation.RingBuffer
import RecordingAgent.Metarec.MetaQueue
import RecordingAgent.Foundation.Bytes
import RecordingAgent.Foundation.FieldMemory
import RecordingAgent.Foundation.FileStore
import RecordingAgent.Metarec.HandOff
import RecordingAgent.Foundation.Calendar
import RecordingAgent.Metarec.ChunkFormat
import RecordingAgent.Metarec.Chunk
import RecordingAgent.Metarec.Thread
import RecordingAgent.Metarec.Copies
import RecordingAgent.Metarec.Offsets
import RecordingAgent.Foundation.Growth
import RecordingAgent.Reagent.Evolution
import RecordingAgent.Reagent.Handled
import RecordingAgent.Reagent.StatusTruth
import RecordingAgent.Reagent.ReadyDrives
import RecordingAgent.Reagent.NonEssential
import RecordingAgent.Reagent.NoAudio
import RecordingAgent.Reagent.CameraFrame
import RecordingAgent.Reagent.StreamReset
import RecordingAgent.Reagent.Probe
import RecordingAgent.Reagent.ProbeTable
import RecordingAgent.Reagent.Hysteresis
import RecordingAgent.Reagent.RetryLimit
import RecordingAgent.Reagent.XmlUtil
import RecordingAgent.Reagent.CfgTags
import RecordingAgent.Reagent.NamePadding
import RecordingAgent.Foundation.Decimal
import RecordingAgent.Foundation.Mktime
import RecordingAgent.Metarec.ChunkName
import RecordingAgent.Foundation.Entries
import RecordingAgent.Reagent.UserConfig
import RecordingAgent.Reagent.Convergence
import RecordingAgent.Metarec.Filing
import RecordingAgent.Metarec.Archive
import RecordingAgent.Metarec.Rotation
import RecordingAgent.Foundation.Latch
import RecordingAgent.Reagent.UserCollect
import RecordingAgent.Foundation.FileTree
import RecordingAgent.SpaceMonitor.OldestFile
import RecordingAgent.SpaceMonitor.SpaceHandler
import RecordingAgent.Foundation.Getopt
import RecordingAgent.SpaceMonitor.Threshold
import RecordingAgent.Download.Segments
import RecordingAgent.Download.SegmentText
import RecordingAgent.Download.PerformDownload
import RecordingAgent.Download.HeaderOffset
import RecordingAgent.Download.Playback
import RecordingAgent.Download.Maindata
import RecordingAgent.Foundation.ReadStream
import RecordingAgent.Foundation.FaultyRead
import RecordingAgent.RtspPlay.Reader
import RecordingAgent.RtspPlay.Delivery
import RecordingAgent.RtspPlay.Source
import RecordingAgent.RtspPlay.Fetching
import RecordingAgent.RtspPlay.SeekLanding
import RecordingAgent.Foundation.Shell
import RecordingAgent.RtspPlay.Server
import RecordingAgent.RtspPlay.CleanUp
import RecordingAgent.Metarec.Gathering
import RecordingAgent.Metacollector.BodyReads
import RecordingAgent.Metacollector.DigitalNames
import RecordingAgent.Metacollector.Reader
import RecordingAgent.Metacollector.RoundTrip
import RecordingAgent.Metarec.DigitalInputs
import RecordingAgent.RtspPlay.ReadDir
import RecordingAgent.Metarec.Enqueue
import RecordingAgent.SpaceMonitor.Grooming
import RecordingAgent.Reagent.WorkerCommand
import RecordingAgent.Reagent.TimeInfo
import RecordingAgent.Foundation.XmlContent
import RecordingAgent.Metacollector.XmlWriter
import RecordingAgent.SpaceMonitor.OldestFound
import RecordingAgent.SpaceMonitor.GroomingAges
import RecordingAgent.SpaceMonitor.Walks
import RecordingAgent.SpaceMonitor.AgeGrooming
import RecordingAgent.Reagent.UsercamXml
import RecordingAgent.Foundation.XmlDom
import RecordingAgent.Foundation.XmlWords
import RecordingAgent.Reagent.DomUtil
import RecordingAgent.Reagent.AcceptOutcomes
import RecordingAgent.Reagent.DomWrites
import RecordingAgent.Reagent.AcceptTwice
import RecordingAgent.Download.CopyFile
import RecordingAgent.Download.CollectorOutput
import RecordingAgent.Download.DataTimes
import RecordingAgent.Reagent.AddressUpdate
import RecordingAgent.Reagent.ReplaceIp
import RecordingAgent.Reagent.CameraTable
import RecordingAgent.RtspPlay.SeekPosition
import RecordingAgent.RtspPlay.ScaleSafety
import RecordingAgent.RtspPlay.SeekReturns
import RecordingAgent.Foundation.ExchangeSort
import RecordingAgent.RtspPlay.SortChunks
import RecordingAgent.RtspPlay.SourceDirectory
import RecordingAgent.Foundation.ByteOrder
import RecordingAgent.RtspPlay.Stamping
import RecordingAgent.RtspPlay.Replay
import RecordingAgent.RtspPlay.SequenceNumbers
import RecordingAgent.RtspPlay.Timestamps
import RecordingAgent.Foundation.MaximalRuns
import RecordingAgent.Foundation.Qsort
import RecordingAgent.RecordingList.CameraRecordings
import RecordingAgent.RecordingList.Segments
import RecordingAgent.RecordingList.Tables
import RecordingAgent.RecordingList.TableBounds
import RecordingAgent.RecordingList.CameraFiles
import RecordingAgent.Foundation.LatestTrigger
import RecordingAgent.Foundation.LoggedRun
import RecordingAgent.VideoRec.EventControl
import RecordingAgent.VideoRec.DelayedActions
import RecordingAgent.Foundation.Changes
import RecordingAgent.VideoRec.InputEdges
import RecordingAgent.RecordingList.Comparator
import RecordingAgent.RtspPlay.PacketBounds
import RecordingAgent.Foundation.ByteScan
import RecordingAgent.Reagent.BlankText
import RecordingAgent.Reagent.WordExpansion
import RecordingAgent.Reagent.StatusStatements
import RecordingAgent.Foundation.LuaLexer
import RecordingAgent.Foundation.LuaChunk
import RecordingAgent.Reagent.LuaStatus
import RecordingAgent.Foundation.LuaSplice
import RecordingAgent.Reagent.StatusRange
import RecordingAgent.Metarec.ChunkOrder
import RecordingAgent.Metarec.Messages
import RecordingAgent.RtspPlay.ExactlyOnce
import RecordingAgent.Metarec.Recorder
import RecordingAgent.Foundation.XmlTree
import RecordingAgent.Metacollector.Document
import RecordingAgent.Foundation.Strptime
import RecordingAgent.Metacollector.Main
import RecordingAgent.Download.CollectorCommand
import RecordingAgent.Download.MetadataXml
