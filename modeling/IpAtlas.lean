import IpAtlas.Address
import IpAtlas.Address.Text
import IpAtlas.Binary64
import IpAtlas.Bounds
import IpAtlas.Builder
import IpAtlas.Bytes
import IpAtlas.Cache
import IpAtlas.Catalog
import IpAtlas.Codec
import IpAtlas.Config
import IpAtlas.Csv
import IpAtlas.Database
import IpAtlas.Disk
import IpAtlas.Error
import IpAtlas.Form.Location
import IpAtlas.Form.Settings
import IpAtlas.Gzip
import IpAtlas.Gzip.Checksum
import IpAtlas.Gzip.Inflate
import IpAtlas.Index.Image
import IpAtlas.Index.Reader
import IpAtlas.Index.Writer
import IpAtlas.Ingest
import IpAtlas.IoError
import IpAtlas.Journal
import IpAtlas.Json
import IpAtlas.Json.Decode
import IpAtlas.Json.Draft
import IpAtlas.Layout
import IpAtlas.LineSource
import IpAtlas.Lines
import IpAtlas.Listener
import IpAtlas.Location
import IpAtlas.Overlay
import IpAtlas.Overlay.Sweep
import IpAtlas.Overlay.Track
import IpAtlas.Overlay.VpnTable
import IpAtlas.Path
import IpAtlas.Proofs.Ascending
import IpAtlas.Proofs.Builder
import IpAtlas.Proofs.Codec
import IpAtlas.Proofs.Codec.Canonical
import IpAtlas.Proofs.Codec.Checked
import IpAtlas.Proofs.Database
import IpAtlas.Proofs.Disk
import IpAtlas.Proofs.Index.Image
import IpAtlas.Proofs.Index.Lookup
import IpAtlas.Proofs.Ingest
import IpAtlas.Proofs.Intake
import IpAtlas.Proofs.Intake.Run
import IpAtlas.Proofs.Lines
import IpAtlas.Proofs.Lines.Batches
import IpAtlas.Proofs.Lookup
import IpAtlas.Proofs.Order
import IpAtlas.Proofs.Overlay.Marks
import IpAtlas.Proofs.Overlay.Sweep
import IpAtlas.Proofs.Overlay.Track
import IpAtlas.Proofs.Overlay.Walk
import IpAtlas.Proofs.Search
import IpAtlas.Proofs.Storage
import IpAtlas.Proofs.Tiling
import IpAtlas.Proofs.Utf8
import IpAtlas.Range
import IpAtlas.Record
import IpAtlas.Search
import IpAtlas.Settings
import IpAtlas.SourceFile
import IpAtlas.Storage
import IpAtlas.Stream
import IpAtlas.Text.Blank
import IpAtlas.Text.Decimal
import IpAtlas.Text.Hidden
import IpAtlas.Text.Quoted
import IpAtlas.Text.Utf8
import IpAtlas.Proofs.Index.Cached
import IpAtlas.Proofs.Path
import IpAtlas.Proofs.Catalog
import IpAtlas.Proofs.Intake.InOrder
import IpAtlas.Proofs.Intake.PrivateNetwork
import IpAtlas.Proofs.Disk.Frame
import IpAtlas.Proofs.Disk.Volume
import IpAtlas.Proofs.Disk.Volume.Spares
import IpAtlas.Proofs.Temporary
import IpAtlas.Proofs.Index.Session
import IpAtlas.Proofs.Index.Session.Calls
import IpAtlas.Proofs.Index.Mapping
import IpAtlas.Proofs.Index.World
import IpAtlas.Proofs.Index.World.Isolation
import IpAtlas.Proofs.Index.Assembly
import IpAtlas.Proofs.Index.Records
import IpAtlas.Proofs.Index.Damaged
import IpAtlas.Proofs.Index.Checked
import IpAtlas.Proofs.Index.Alone
import IpAtlas.Proofs.Builder.LifeCycle
import IpAtlas.Proofs.Builder.Acceptance
import IpAtlas.Proofs.LineSource
import IpAtlas.Proofs.Pipeline
import IpAtlas.Proofs.Pipeline.Invariants
import IpAtlas.Proofs.Pipeline.Places
import IpAtlas.Proofs.Pipeline.Progress
import IpAtlas.Proofs.Pipeline.Outcome
import IpAtlas.Proofs.Pipeline.Termination
import IpAtlas.Proofs.Overlay.Remainder
import IpAtlas.Proofs.Overlay.AnyOrder
import IpAtlas.Proofs.Overlay.Refusal
import IpAtlas.Proofs.Overlay.Merge
import IpAtlas.Proofs.Overlay.Reading
import IpAtlas.Proofs.Ingest.Invariant
import IpAtlas.Proofs.Ingest.Interruptions
import IpAtlas.Proofs.Catalog.Answers
import IpAtlas.Proofs.Catalog.Failures
import IpAtlas.Proofs.Catalog.Outcome
import IpAtlas.Proofs.Result
import IpAtlas.Proofs.Text
import IpAtlas.Proofs.Address.Bytes
import IpAtlas.Proofs.Address.Text
import IpAtlas.Proofs.Bounds
import IpAtlas.Proofs.Json.Draft
import IpAtlas.Proofs.Form.Address
import IpAtlas.Proofs.Layout
