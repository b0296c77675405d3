import PackIndex.Catalog.Build
import PackIndex.Catalog.Query
import PackIndex.Catalog.Session
import PackIndex.Config.Environment
import PackIndex.Config.File
import PackIndex.Json.Reader
import PackIndex.Json.Writer
import PackIndex.Listing.Command
import PackIndex.Lock
import PackIndex.Log.Output
import PackIndex.Main
import PackIndex.Metrics.Exporter
import PackIndex.Proofs.Catalog.Coherence
import PackIndex.Proofs.Catalog.Growth
import PackIndex.Proofs.Catalog.History
import PackIndex.Proofs.Lock.Safety
import PackIndex.Proofs.Registry.Cells
import PackIndex.Proofs.Registry.Conflict
import PackIndex.Proofs.Resource.Deconfliction
import PackIndex.Tree.Change
import PackIndex.Tree.Snapshot
import PackIndex.Proofs.Catalog.Abandoned
import PackIndex.Proofs.Catalog.Faults
import PackIndex.Proofs.Catalog.Outcome
import PackIndex.Proofs.Package.Scanning
import PackIndex.Proofs.Registry.Repetition
import PackIndex.Proofs.Catalog.Repetition
import PackIndex.Catalog.Shared
import PackIndex.Proofs.Catalog.Steps
import PackIndex.Proofs.Lock.Stages
import PackIndex.Proofs.Catalog.Settled
import PackIndex.Proofs.Catalog.Isolation
import PackIndex.Proofs.Resource.Failure
import PackIndex.Proofs.Resource.Reading
import PackIndex.Proofs.Archive.MemberPath
import PackIndex.Proofs.Catalog.Lifetime
import PackIndex.Proofs.Catalog.SymbolPack
import PackIndex.Proofs.Resource.Unreadable
import PackIndex.Proofs.Catalog.Unreadable
import PackIndex.Proofs.Archive.CanonicalName
import PackIndex.Proofs.Resource.Addresses
import PackIndex.Proofs.Catalog.Stock
import PackIndex.Proofs.Listing.Rows
import PackIndex.Proofs.Metrics.Scans
import PackIndex.Proofs.Metrics.Tally
import PackIndex.Proofs.Version.Spelling
import PackIndex.Proofs.Registry.Remembered
import PackIndex.Proofs.Registry.FirstCopies
import PackIndex.Resource.Metered
import PackIndex.Proofs.Resource.Accounting
import PackIndex.Proofs.Catalog.Selectors
import PackIndex.Proofs.Manifest.AliasForms
import PackIndex.Proofs.Metrics.Export
import PackIndex.Proofs.Package.Lifecycle
import PackIndex.Proofs.Path.Home
import PackIndex.Proofs.Config.Fields
import PackIndex.Proofs.Config.Merging
import PackIndex.Proofs.Config.Anchoring
import PackIndex.Proofs.Number.Decimal
import PackIndex.Proofs.Number.Rounding
import PackIndex.Proofs.Version.Text
import PackIndex.Proofs.Log.Home
import PackIndex.Proofs.Log.Summary
import PackIndex.Proofs.Log.Format
