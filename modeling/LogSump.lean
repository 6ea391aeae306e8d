import LogSump.Foundation.Machine
import LogSump.Foundation.Paging
import LogSump.Foundation.Loop
import LogSump.Foundation.Dict
import LogSump.Foundation.Program
import LogSump.Foundation.Serving
import LogSump.Foundation.Simulation
import LogSump.Foundation.Ledger
import LogSump.Posix.Shell
import LogSump.Python.Codec
import LogSump.Python.Float
import LogSump.Python.Text
import LogSump.Python.Numerals
import LogSump.Python.Fields
import LogSump.Python.Datetime
import LogSump.Python.Sort
import LogSump.Redis.Stream
import LogSump.Redis.Store
import LogSump.Common.Value
import LogSump.Transport.Command
import LogSump.Transport.MergeStreams
import LogSump.Transport.Interleaving
import LogSump.Transport.Subprocess
import LogSump.Common.Schema
import LogSump.Common.RedisKeys
import LogSump.Common.Config
import LogSump.Server.Queries
import LogSump.Server.Filters
import LogSump.Server.Inspection
import LogSump.Server.LenientPaging
import LogSump.Server.StablePaging
import LogSump.Server.Records
import LogSump.Server.TwoKindPaging
import LogSump.Server.Api
import LogSump.Server.Consumer
import LogSump.Server.Isolation
import LogSump.Server.Routing
import LogSump.Server.Trimmer
import LogSump.Server.Process
import LogSump.Server.Archive
import LogSump.Server.Delivery
import LogSump.Server.Restarts
import LogSump.Server.Requests
import LogSump.Server.Visibility
import LogSump.Server.LivePaging
import LogSump.Server.MixedOffsets
import LogSump.Server.RecordOrder
import LogSump.Server.RangeArguments
import LogSump.Listener.Records
import LogSump.Listener.Units
import LogSump.Listener.SizeGrammar
import LogSump.Listener.Registry
import LogSump.Listener.Daemon
import LogSump.Listener.Books
import LogSump.Listener.Respawn
import LogSump.Listener.Sweep
import LogSump.Listener.StaleMisses
import LogSump.Listener.TrackerEnds
import LogSump.Listener.Shutdown
import LogSump.Listener.Startups
import LogSump.Listener.App
import LogSump.Listener.ContainersListing
import LogSump.Listener.ContainerStats
import LogSump.Listener.ProcFiles
import LogSump.Listener.ProcSections
import LogSump.Listener.ProcTotals
import LogSump.Listener.SystemStats
import LogSump.Listener.CpuPercent
import LogSump.Listener.CpuTime
import LogSump.Listener.HostFiles
import LogSump.Listener.HostRuns
import LogSump.Listener.StatsAgreement
import LogSump.Listener.ContainerListener
import LogSump.Listener.Shipping
