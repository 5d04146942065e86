import Tally.Recovery.Plan
import Tally.Witness.Record
import Tally.Lib.Digits
import Tally.Lib.Table
import Mathlib.Data.Finset.Card

/-!
# Garbage collection

`run_gc` of `retention.rs`: it links the store paths of recent witnesses as roots, removes the links of
expired witnesses, and sweeps the stores of briefs (`brief.rs`). A sweep reads the durable facts of
a start, the files that wait to be ingested, and the two stores; what it changes is a `GcWorld`. The
other directories of the state, which `sweep_state_directory` prunes, hold neither roots nor briefs
and are left out, as are the locks, and the errors of single file operations: such an error ends a
sweep, and what is said here is about sweeps that return.
-/

namespace Tally.Retention

open UuidText
open Recovery (DurableRecoveryFacts DurableEnqueueEvent)
open Witness (isNixStorePath)
open Lib (Table Bytes)

variable {Uuid : Type} [LinearOrder Uuid] [UuidText Uuid]

/-! ## What a sweep reads -/

inductive RetentionError
  | invalidHorizon (value reason : String)
  | invalidLedger
  | producer (path : String)
  | unsafeRoot (path reason : String)
  | collect (reason : String)
  | liveRootRegistration (sequence : Nat) (target reason : String)
  deriving DecidableEq

/-- A record of the ledger. `drv` is the path of its derivation. -/
structure LedgerRecord extends Recovery.WitnessRecord where
  transitionTimestamp : String
  /-- The paths of the outputs of the derivation. -/
  outputs : List String
  deriving DecidableEq

/-- The store paths of a record, each once and in order. -/
def referencedStorePaths (record : LedgerRecord) : List String :=
  let derivation := match record.drv with
    | none => []
    | some drvPath => drvPath :: record.outputs
  ((record.storePaths.getD [] ++ derivation).dedup).insertionSort (· ≤ ·)

/-- A file of `events` or `events/processing` that waits to be ingested. -/
inductive IngressFile
  /-- It cannot be read. -/
  | io (path : String)
  /-- It is not a regular file, or it is too large. -/
  | unfit
  | content (bytes : Bytes)
  deriving DecidableEq

/-- What a sweep reads and leaves as it is. The ledger is verified, so its store paths have the shape
that the ledger requires. -/
structure GcFacts (Uuid : Type) [LinearOrder Uuid] where
  durable : DurableRecoveryFacts Uuid
  records : List LedgerRecord
  records_eq : records.map (·.toWitnessRecord) = durable.witness
  storePaths_valid : ∀ record ∈ records, ∀ path ∈ referencedStorePaths record,
    isNixStorePath path = true
  ingress : List IngressFile
  /-- The regular files that producers may have named as briefs. -/
  files : String → Option Bytes

/-! ## Roots -/

inductive LinkEntry
  | symlink (target : String)
  | other
  deriving DecidableEq

inductive RootEntry
  | dir (links : Table String LinkEntry)
  | other
  deriving DecidableEq

/-- The directory of the roots, by name. -/
abbrev Roots := Table String RootEntry

/-- A directory holds a link. -/
def HoldsLink (roots : Roots) (directory link target : String) : Prop :=
  ∃ links, roots.get? directory = some (.dir links) ∧ links.get? link = some (.symlink target)

/-- What was there stays where one link was made. -/
structure RootAdded (before : Roots) (directory link target : String) (after : Roots) : Prop where
  holds : HoldsLink after directory link target
  other : ∀ name, name ≠ directory → after.get? name = before.get? name
  kept : ∀ links, before.get? directory = some (.dir links) →
    ∃ held, after.get? directory = some (.dir held) ∧ ∀ key, key ≠ link → held.get? key = links.get? key

/-- What a sweep takes from libraries and tools. -/
class GcHost where
  /-- `parse_horizon`, in nanoseconds. It sums floating point numbers. -/
  parseHorizon : String → Except RetentionError Nat
  /-- `DateTime::checked_sub_signed`. -/
  checkedSub : Int → Nat → Option Int
  /-- `DateTime::parse_from_rfc3339`. -/
  parseTimestamp : String → Option Int
  /-- `serde_json::from_slice` followed by `serde_json::to_vec`: the canonical bytes of a document. -/
  canonicalJson : Bytes → Option Bytes
  /-- The digest of SHA-256 in lower-case hex. -/
  sha256 : Bytes → String
  /-- The brief path of an `EnqueuePayload`, if the bytes are one. -/
  payloadBriefPath : Bytes → Option (Option String)
  /-- `nix-store --realise PATH`: what a root of the path points to. -/
  realise : String → Except String String
  /-- `GcRootBackend::add_root`, with the directory and the name of the link. -/
  addRoot : Option Roots → String → String → String → Except String Roots
  addRoot_added : ∀ {roots directory link target after}, addRoot roots directory link target = .ok after →
    ∃ resolved, realise target = .ok resolved ∧ RootAdded (roots.getD ∅) directory link resolved after
  /-- `nix store gc`. -/
  collectGarbage : Except String Unit

variable [GcHost]

/-! ## Briefs -/

def maxBriefBytes : Nat := 16 * 1024 * 1024

/-- `PreparedBrief::from_value`, on the bytes of the document: its canonical bytes and its hash. -/
def prepareBrief (bytes : Bytes) : Option (Bytes × String) := do
  guard (bytes.length ≤ maxBriefBytes)
  let canonical ← GcHost.canonicalJson bytes
  guard (canonical.length ≤ maxBriefBytes)
  return (canonical, "sha256:" ++ GcHost.sha256 canonical)

/-- `PreparedBrief::from_path`, the hash only. -/
def briefHashAt (facts : GcFacts Uuid) (path : String) : Option String := do
  guard (path.toList.head? = some '/')
  let bytes ← facts.files path
  let (_, hash) ← prepareBrief bytes
  return hash

def isLowerHexDigit (c : Char) : Bool := c.isDigit || ('a' ≤ c && c ≤ 'f')

/-- The name of a brief in a store, without `sha256:`. -/
def briefName (digest : List Char) : String := String.ofList (digest ++ ".json".toList)

structure BriefFile where
  /-- A regular file, and no symbolic link. -/
  regular : Bool
  bytes : Bytes
  modified : Int
  deriving DecidableEq

/-- The `briefs` directory under a root, by name; a directory that does not exist is empty. -/
abbrev BriefStore := Table String BriefFile

/-- The files that wait to be ingested name these briefs. -/
def pendingIngressBriefPaths : List IngressFile → Except RetentionError (List String)
  | [] => .ok []
  | .io path :: _ => .error (.producer path)
  | .unfit :: rest => pendingIngressBriefPaths rest
  | .content bytes :: rest =>
    match GcHost.payloadBriefPath bytes with
    | some (some path) => do
      let paths ← pendingIngressBriefPaths rest
      return path :: paths
    | _ => pendingIngressBriefPaths rest

/-- The record is at or after the cutoff. -/
def isRecent (cutoff : Int) (record : LedgerRecord) : Bool :=
  (GcHost.parseTimestamp record.transitionTimestamp).any fun timestamp => decide (cutoff ≤ timestamp)

/-- The newest attempt that was acknowledged for a row. -/
def currentAttempt (event : DurableEnqueueEvent Uuid) : Nat :=
  (event.retries.map (·.attempt)).max?.getD event.row.attempt

/-- No record witnesses the newest attempt of a row. -/
def isUnwitnessed (records : List LedgerRecord) (event : DurableEnqueueEvent Uuid) : Bool :=
  !records.any fun record =>
    record.taskUuid = some (render event.row.uuid) && record.attempt = currentAttempt event

/-- The hashes of the briefs that are kept. -/
def retainedHashes (facts : GcFacts Uuid) (cutoff : Int) (pending : List String) : Finset String :=
  (((facts.records.filter (isRecent cutoff)).filterMap (·.briefHash)) ++
    ((facts.durable.events.filter (isUnwitnessed facts.records)).filterMap (·.row.briefHash)) ++
    pending.filterMap (briefHashAt facts)).toFinset

/-- What a sweep may change. -/
structure GcWorld where
  /-- `gcroots`, if it exists. -/
  gcroots : Option Roots
  dataBriefs : BriefStore
  stateBriefs : BriefStore
  deriving DecidableEq

structure GcRequest where
  dataDir : String
  stateDir : Option String
  horizonText : String
  now : Int
  dryRun : Bool
  collect : Bool
  deriving DecidableEq

end Tally.Retention
