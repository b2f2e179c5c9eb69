import Daryl.Py.Datetime
import Daryl.Py.Eq
import Daryl.Lib.HashChain
import Daryl.Lib.Run
import Daryl.Dsm.Tamper
import Daryl.Dsm.Entry
import Daryl.Py.Name
import Daryl.Dsm.Segments
import Daryl.Dsm.Reconcile
import Daryl.Dsm.Signing
import Daryl.Lib.Dict
import Daryl.Lib.Register
import Daryl.Dsm.Authority
import Daryl.Dsm.Orchestrator
import Daryl.Dsm.Collective
import Daryl.Rr.Index
import Daryl.Rr.Query
import Daryl.Rr.Helpers
import Daryl.Lib.StableSort
import Daryl.Prl.Types
import Daryl.Rr.Navigator
import Daryl.Prl.Standing
import Daryl.Lib.Walk
import Daryl.Prl.Replay
import Daryl.Prl.Supersession
import Daryl.Prl.Interleaving
import Daryl.Rr.Relay
import Daryl.Dsm.Disk
import Daryl.Dsm.Isolation
import Daryl.Recall.Search
import Daryl.Recall.Provenance
import Daryl.Dsm.Tidy
import Daryl.Prl.Commit
import Daryl.Dsm.Instances
import Daryl.Dsm.Lifecycle
import Daryl.Dsm.Session
import Daryl.Dsm.Sync
import Daryl.Dsm.Pull
import Daryl.Lib.Grid
import Daryl.Dsm.Digest
import Daryl.Dsm.Causal
import Daryl.Dsm.Exchange
import Daryl.Dsm.Seal
import Daryl.Hexa.Store
import Daryl.Hexa.Authority
import Daryl.Hexa.Verbatim
import Daryl.Hexa.Pins
import Daryl.Hexa.Context
import Daryl.Hexa.Project
import Daryl.Hexa.Ledger
import Daryl.Hexa.Adapter
import Daryl.Dsm.Witness
import Daryl.Dsm.ColdStorage
import Daryl.Lib.BigEndian
import Daryl.Lib.Validated
import Daryl.Mvx.Schemas
import Daryl.Mvx.Payload
import Daryl.Mvx.StateMachine
import Daryl.Mvx.Watcher
import Daryl.Json.Model
import Daryl.Prl.Models
import Daryl.Prl.Records
import Daryl.Prl.Shards
import Daryl.Prl.Ingest
import Daryl.Prl.Projections
import Daryl.Rr.IndexFiles
import Daryl.Dsm.Audit
import Daryl.Dsm.Security
import Daryl.Mesh.Events
import Daryl.Mesh.Server
import Daryl.Mesh.Results
import Daryl.Mesh.Journal
import Daryl.Mesh.Refusals
import Daryl.Mesh.Worker
import Daryl.Dsm.Attestation
import Daryl.Dsm.Distiller
import Daryl.Dsm.Budget
import Daryl.Dsm.DeepVerify
import Daryl.Dsm.KeyChain
import Daryl.Dsm.Lanes
import Daryl.Dsm.Pagination
import Daryl.Dsm.Rotation
import Daryl.Dsm.Enumeration
import Daryl.Dsm.PinLag
import Daryl.Mesh.Lifecycle
import Daryl.Dsm.Tracing
import Daryl.Hexa.Assemble
import Daryl.Hexa.Budget
import Daryl.Hexa.Retrieval
import Daryl.Dsm.Anchor
import Daryl.Dsm.Archives
import Daryl.Dsm.Coverage
import Daryl.Hexa.Map
import Daryl.Hexa.Retriever
import Daryl.Lib.Ranking
import Daryl.Mvx.Regime
import Daryl.Prl.ChunkIndex
import Daryl.Prl.Decoders
import Daryl.Prl.Discovery
import Daryl.Prl.Foreign
import Daryl.Prl.Normalize
import Daryl.Prl.ImportRun
import Daryl.Lib.Grouped
import Daryl.Lib.Shedding
import Daryl.Prl.Fusion
import Daryl.Recall.Context
import Daryl.Recall.Status
import Daryl.Rr.Actions
import Daryl.Rr.Resolve
import Daryl.Lib.Batched
import Daryl.Rr.Blocks
import Daryl.Json.Finite
import Daryl.Tools.Extract
import Daryl.Tools.Gateway
import Daryl.Mesh.Writer
import Daryl.Dsm.Artifacts
import Daryl.Mesh.Dashboard
