import Pgxsinkit.Lib.Checked
import Pgxsinkit.Lib.OrdMap
import Pgxsinkit.Lib.RootedTree
import Pgxsinkit.Lib.Bytes
import Pgxsinkit.Lib.Layout
import Pgxsinkit.Lib.Reader
import Pgxsinkit.Lib.Unicode
import Pgxsinkit.Lib.Runs
import Pgxsinkit.Lib.SharedMap
import Pgxsinkit.Lib.Connection
import Pgxsinkit.Opfs.Limits
import Pgxsinkit.Opfs.Path
import Pgxsinkit.Opfs.State
import Pgxsinkit.Opfs.Sizes
import Pgxsinkit.Opfs.Plan
import Pgxsinkit.Opfs.Apply
import Pgxsinkit.Opfs.Validate
import Pgxsinkit.Opfs.Invariant
import Pgxsinkit.Opfs.ValidateIff
import Pgxsinkit.Opfs.RenameSpec
import Pgxsinkit.Opfs.NewPaths
import Pgxsinkit.Opfs.Txn
import Pgxsinkit.Opfs.Planned
import Pgxsinkit.Opfs.Repack
import Pgxsinkit.Opfs.MetadataRun
import Pgxsinkit.Opfs.Text
import Pgxsinkit.Opfs.Binary
import Pgxsinkit.Opfs.Checksum
import Pgxsinkit.Opfs.TxnCodec
import Pgxsinkit.Opfs.TxnCodecSpec
import Pgxsinkit.Opfs.Headers
import Pgxsinkit.Opfs.HeadersSpec
import Pgxsinkit.Opfs.FrameRoundTrip
import Pgxsinkit.Opfs.SameState
import Pgxsinkit.Opfs.BaseCodec
import Pgxsinkit.Circuits.Change
import Pgxsinkit.Circuits.FoldSpec
import Pgxsinkit.Circuits.FoldLocal
import Pgxsinkit.Circuits.FoldExchange
import Pgxsinkit.Circuits.StreamInbox
import Pgxsinkit.Circuits.SyncEngine
import Pgxsinkit.Circuits.CommitSpec
import Pgxsinkit.Circuits.Delivery
import Pgxsinkit.Circuits.SoleOccupant
import Pgxsinkit.Circuits.ScopeStream
import Pgxsinkit.Circuits.CoTenant
import Pgxsinkit.Mutation.Isolation
import Pgxsinkit.Mutation.Journal
import Pgxsinkit.Mutation.Runtime
import Pgxsinkit.Mutation.Steps
import Pgxsinkit.Mutation.Coherent
import Pgxsinkit.Mutation.Held
import Pgxsinkit.Mutation.RecoveryMarker
import Pgxsinkit.Mutation.BootRecovery
import Pgxsinkit.Mutation.Custody
import Pgxsinkit.Mutation.StatusRun
import Pgxsinkit.Lib.Json
import Pgxsinkit.Events.Ingest
import Pgxsinkit.Events.Verdicts
import Pgxsinkit.ControlPlane.Subscribe
import Pgxsinkit.ControlPlane.Claims
import Pgxsinkit.ControlPlane.Stranded
import Pgxsinkit.Events.Outbox
import Pgxsinkit.Events.OutboxRun
import Pgxsinkit.Lib.Groups
import Pgxsinkit.Mutation.Enqueue
import Pgxsinkit.Mutation.RequestOrder
import Pgxsinkit.Lib.JsonText
import Pgxsinkit.Lib.Keyed
import Pgxsinkit.Registry.Canonical
import Pgxsinkit.Registry.Diff
import Pgxsinkit.Registry.Noticed
import Pgxsinkit.Registry.Reorder
import Pgxsinkit.Registry.Gate
import Pgxsinkit.ControlPlane.Edge
import Pgxsinkit.Placement.Control
import Pgxsinkit.Placement.Router
import Pgxsinkit.Placement.Pipes
import Pgxsinkit.Placement.Coordinator
import Pgxsinkit.Placement.ClaimsInStep
import Pgxsinkit.Placement.OneEngine
import Pgxsinkit.Placement.Network
import Pgxsinkit.Placement.Acks
import Pgxsinkit.Stores.Authority
import Pgxsinkit.LiveQueries.Diff
import Pgxsinkit.LiveQueries.Manager
import Pgxsinkit.Lib.JsNumber
import Pgxsinkit.Circuits.StreamKey
import Pgxsinkit.Lib.LossyText
import Pgxsinkit.Tar.Codec
import Pgxsinkit.Tar.Image
import Pgxsinkit.Tar.RoundTrip
import Pgxsinkit.Tar.Names
import Pgxsinkit.Circuits.LocalTable
import Pgxsinkit.LiveQueries.Incremental
import Pgxsinkit.LiveQueries.IncrementalRun
import Pgxsinkit.LiveQueries.IncrementalExact
import Pgxsinkit.Lib.JsonRead
import Pgxsinkit.Copy.Serialize
import Pgxsinkit.Copy.Reader
import Pgxsinkit.Copy.Framing
import Pgxsinkit.Copy.ArrayLiteral
import Pgxsinkit.Copy.Values
import Pgxsinkit.Lib.Crc
import Pgxsinkit.Lib.JsInt
import Pgxsinkit.Opfs.ChecksumLoops
import Pgxsinkit.Lib.Digits
import Pgxsinkit.Lib.JsArith
import Pgxsinkit.Registry.Fingerprint
import Pgxsinkit.Lib.Growable
import Pgxsinkit.Opfs.MemoryPort
import Pgxsinkit.Opfs.MemoryImages
import Pgxsinkit.Opfs.MemoryRun
import Pgxsinkit.Lib.Cursor
import Pgxsinkit.Wire.Messages
import Pgxsinkit.Wire.Parser
import Pgxsinkit.Wire.Packets
import Pgxsinkit.Wire.Stream
import Pgxsinkit.Wire.Delivered
import Pgxsinkit.Arrays.Literal
import Pgxsinkit.Arrays.Parser
import Pgxsinkit.Arrays.Parsed
import Pgxsinkit.Arrays.Sent
import Pgxsinkit.ControlPlane.Canonical
import Pgxsinkit.ControlPlane.CanonicalTexts
import Pgxsinkit.ControlPlane.Fingerprints
import Pgxsinkit.Lib.KeyedDiff
import Pgxsinkit.LiveQueries.RowObjects
import Pgxsinkit.LiveQueries.RowRun
import Pgxsinkit.Circuits.LongPoll
import Pgxsinkit.Circuits.StreamDelivery
import Pgxsinkit.ControlPlane.CompileShape
import Pgxsinkit.ControlPlane.NarrowedKeys
import Pgxsinkit.Copy.RoundTrip
import Pgxsinkit.Mutation.Export
import Pgxsinkit.Mutation.ExportRun
import Pgxsinkit.Lib.DurableFile
import Pgxsinkit.Lib.DurableLog
import Pgxsinkit.Lib.ErrorKinds
import Pgxsinkit.Opfs.CommitLog
import Pgxsinkit.Opfs.LogCommit
import Pgxsinkit.Opfs.LogRun
