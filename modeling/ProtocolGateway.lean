import ProtocolGateway.ReadPlan
import ProtocolGateway.Reload
import ProtocolGateway.Connection
import ProtocolGateway.Lib.Outbox
import ProtocolGateway.Notices
import ProtocolGateway.Shutdown
import ProtocolGateway.BusLocking
import ProtocolGateway.LockProgress
import ProtocolGateway.WriteRouting
import ProtocolGateway.Lib.Retained
import ProtocolGateway.HaMetadata
import ProtocolGateway.MqttDiscovery
import ProtocolGateway.DiscoveryRuns
import ProtocolGateway.MqttTelemetry
import ProtocolGateway.Interleaved
import ProtocolGateway.DecodeAgreement
import ProtocolGateway.Scheduler
import ProtocolGateway.MemberFilter
import ProtocolGateway.Forwarding
import ProtocolGateway.ContextPass
import ProtocolGateway.ReadCycle
import ProtocolGateway.DecodeFailures
import ProtocolGateway.NonInterference
import ProtocolGateway.GroupRead
import ProtocolGateway.GroupReadIter
import ProtocolGateway.Staging.ConfigRoundTrip
import ProtocolGateway.Staging.Rescan
import ProtocolGateway.Staging.DiffRuns
import ProtocolGateway.Staging.Registers
import ProtocolGateway.Staging.CommitRescan
import ProtocolGateway.Staging.Toggle
import ProtocolGateway.Staging.Commit
import ProtocolGateway.Staging.SelectionRules
import ProtocolGateway.Staging.SelectionRuns
import ProtocolGateway.Staging.Discard
import ProtocolGateway.Lib.Search
import ProtocolGateway.SerialFrame
import ProtocolGateway.Lib.Hex
import ProtocolGateway.SerialPylon
import ProtocolGateway.SerialPairing
import ProtocolGateway.Lib.IdTable
import ProtocolGateway.Timescale.DateTime
import ProtocolGateway.Timescale.Payload
import ProtocolGateway.Timescale.Backlog
import ProtocolGateway.Timescale.BacklogRuns
import ProtocolGateway.Timescale.HandOver
import ProtocolGateway.Timescale.RawMetrics
import ProtocolGateway.Timescale.Flush
import ProtocolGateway.Timescale.FlushRuns
import ProtocolGateway.Timescale.Reconnect
import ProtocolGateway.Timescale.MigrationGate
import ProtocolGateway.Lib.SnapshotCommit
import ProtocolGateway.Staging.BridgeEdits
import ProtocolGateway.Influx.Points
import ProtocolGateway.Influx.PointRuns
import ProtocolGateway.MissingRegisters
import ProtocolGateway.DecodedRange
import ProtocolGateway.WriteVariable
import ProtocolGateway.FieldWords
import ProtocolGateway.FlagWrites
import ProtocolGateway.ExactArithmetic
import ProtocolGateway.WriteBack
import ProtocolGateway.WriteReadBack
import ProtocolGateway.TemplateRows
import ProtocolGateway.DynamicMaps
import ProtocolGateway.Lib.Holes
import ProtocolGateway.LogRedaction
import ProtocolGateway.LogSecrecy
import ProtocolGateway.FailureTracker
import ProtocolGateway.ReadLoop
import ProtocolGateway.CodeTables
import ProtocolGateway.Validation
import ProtocolGateway.Lib.Tally
import ProtocolGateway.Lib.Expression
import ProtocolGateway.Lib.Substitution
import ProtocolGateway.Formula.Reading
import ProtocolGateway.Formula.Ranges
import ProtocolGateway.ValidationScore
import ProtocolGateway.CellGrammar
import ProtocolGateway.MergedPairs
import ProtocolGateway.ReadFootprint
import ProtocolGateway.Lib.Crc
import ProtocolGateway.Pace.Crc
import ProtocolGateway.Pace.Response
import ProtocolGateway.WriteAcknowledgement
import ProtocolGateway.CanBus
import ProtocolGateway.Lib.Numbering
import ProtocolGateway.SunSpec
import ProtocolGateway.Eg4Identification
import ProtocolGateway.MqttReconnect
import ProtocolGateway.Prometheus
import ProtocolGateway.Lib.Placeholders
import ProtocolGateway.Expressions.Evaluate
import ProtocolGateway.Expressions.Expansion
import ProtocolGateway.Expressions.NamedValues
import ProtocolGateway.Expressions.Faithful
import ProtocolGateway.Lib.Buckets
import ProtocolGateway.Timescale.RollupViews
import ProtocolGateway.Timescale.RollupRefresh
import ProtocolGateway.Lib.CollisionNames
import ProtocolGateway.Timescale.Identifiers
import ProtocolGateway.Timescale.RollupAliases
import ProtocolGateway.Timescale.RollupNames
import ProtocolGateway.Lib.UniqueDict
import ProtocolGateway.Timescale.EnsureColumns
import ProtocolGateway.Timescale.ColumnNames
import ProtocolGateway.Timescale.ColumnTypes
import ProtocolGateway.Timescale.Readings
import ProtocolGateway.Timescale.Represented
import ProtocolGateway.Lib.Throttle
import ProtocolGateway.Staleness
import ProtocolGateway.Influx.StaleDetection
import ProtocolGateway.Lib.Reports
import ProtocolGateway.Timescale.StaleDetection
import ProtocolGateway.Lib.Timers
import ProtocolGateway.WebServer.FileWatcher
import ProtocolGateway.Timescale.Retune
import ProtocolGateway.WebServer.Timeshift.FieldValues
import ProtocolGateway.WebServer.Timeshift.BuildPoints
import ProtocolGateway.WebServer.Timeshift.WritePoints
import ProtocolGateway.WebServer.Timeshift.WritePoints
import ProtocolGateway.Lib.Bisect
import ProtocolGateway.WebServer.Timeshift.TimeSlices
import ProtocolGateway.Timescale.IntegerColumns
import ProtocolGateway.Lib.FirstWins
import ProtocolGateway.WebServer.Timeshift.Sheets
import ProtocolGateway.WordCodec
import ProtocolGateway.BlockLoop
import ProtocolGateway.SerialBuffer
import ProtocolGateway.ReloadErrors
import ProtocolGateway.Influx.MetricEdit
import ProtocolGateway.Lib.Meter
import ProtocolGateway.Lib.Transactions
import ProtocolGateway.Timescale.Compression
import ProtocolGateway.Timescale.RebuildCompression
import ProtocolGateway.Timescale.RebuildJobs
import ProtocolGateway.Timescale.RebuildInventory
import ProtocolGateway.Lib.LockOrder
