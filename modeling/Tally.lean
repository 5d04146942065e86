import Tally.Lib.Dict
import Tally.Lib.Effect
import Tally.Lib.Result
import Tally.Lib.Lines
import Tally.Lib.Json
import Tally.Lib.JsonSize
import Tally.Lib.JsonStrings
import Tally.Lib.Digits
import Tally.Lib.Chain
import Tally.Lib.Table
import Tally.Lib.RoundRobin
import Tally.Lib.Log
import Tally.Lib.Walk
import Tally.Lib.Numbered
import Tally.Lib.Decode
import Tally.Poolset
import Tally.Poolset.Encoded
import Tally.Uuid
import Tally.Lease.Basic
import Tally.Lease.Calls
import Tally.Lease.Rebuild
import Tally.Lease.Tickets
import Tally.Lease.Holders
import Tally.Lease.HardPreempt
import Tally.Lease.Braid
import Tally.Lease.Fairness
import Tally.Lease.Accounts
import Tally.Lease.World
import Tally.Lease.Ledger
import Tally.Lease.Windows
import Tally.Lease.Readmission
import Tally.Lease.Conservation
import Tally.Recovery.Basic
import Tally.Recovery.Recover
import Tally.Recovery.Plan
import Tally.Recovery.Sound
import Tally.Recovery.RebuildAgrees
import Tally.Retention.Safe
import Tally.Witness.Record
import Tally.Witness.Verify
import Tally.Witness.Ledger
import Tally.Witness.Attestation
import Tally.Pagination.Basic
import Tally.Pagination.Walk
import Tally.Wire.Client
import Tally.Wire.Frames
import Tally.Flow.Membership
import Tally.Flow.Compaction
import Tally.Flow.Lexical
import Tally.Flow.Lineage
import Tally.Daemon.BarrierRuns
import Tally.Watch.Store
import Tally.Watch.Feed
import Tally.Flow.Spec
import Tally.Flow.Catalog
import Tally.Flow.ReaderCalls
import Tally.Lib.Canonical
import Tally.Lib.Schedule
import Tally.Campaign.Contract
import Tally.Campaign.Domains
import Tally.Campaign.Identity
import Tally.Campaign.Lease
import Tally.Campaign.Refs
import Tally.Campaign.RegistrySafe
import Tally.Evidence.Gate
import Tally.Executor.Excerpt
import Tally.Journal.ReadBack
import Tally.Storage.Consistent
import Tally.Executor.CaptureCalls
import Tally.Lib.Ascii
import Tally.Lib.JsonGrammar
import Tally.Driver.JsonCodec
import Tally.Adapter.Placing
import Tally.Lease.YieldAdmission
import Tally.Flow.ObservationOrder
import Tally.Witness.View
import Tally.Lease.Places
