import Tally.Lib.Dict
import Tally.Lib.Lines
import Tally.Uuid
import Mathlib.Data.Finset.Insert

/-!
# Recovery: data model

The durable facts that a start of the daemon finds (`taskdb.rs`, `witness.rs`), the units that it
still sees (`executor/types.rs`) and the plan that `recover` makes of them (`recovery.rs`). Rows and
records are kept to the fields that recovery and reuse read. Attempts are `u32` and sequence numbers
and epochs are `u64` in the source; they are natural numbers here, and additions are checked where
the source checks them.
-/

namespace Tally.Recovery

open Lib (debugText)

/-- `u32::MAX`. -/
def u32Max : Nat := 2 ^ 32 - 1

/-- `u32::checked_add(1)`. -/
def checkedSucc (attempt : Nat) : Option Nat :=
  if attempt + 1 ≤ u32Max then some (attempt + 1) else none

/-- `u32::saturating_add(1)`. -/
def saturatingSucc (attempt : Nat) : Nat := min (attempt + 1) u32Max

/-! ## Witness records -/

inductive Verdict
  | pass
  | cleanExitNoArtifact
  | failed
  | cancelled
  | reused
  | poolVanished
  | preempted
  | runtimeExceeded
  | substituted
  deriving DecidableEq

inductive LaborClass
  | fresh
  | recovered
  | reused
  | substituted
  deriving DecidableEq

inductive RetryTrigger
  | poolReturn
  | resourceReturn
  | boundedRequeue
  deriving DecidableEq

structure RetryPolicy where
  autoPoolReturn : Bool
  autoResourceReturn : Bool
  autoBoundedRequeue : Bool
  deriving DecidableEq

inductive RetryDisposition
  | ineligible
  | manual (trigger : RetryTrigger)
  | automatic (trigger : RetryTrigger)
  deriving DecidableEq

def retryTrigger : Verdict → Option RetryTrigger
  | .poolVanished => some .poolReturn
  | .preempted => some .resourceReturn
  | .runtimeExceeded => some .boundedRequeue
  | .pass | .cleanExitNoArtifact | .failed | .cancelled | .reused | .substituted => none

def retryDisposition (verdict : Verdict) (policy : RetryPolicy) : RetryDisposition :=
  match retryTrigger verdict with
  | none => .ineligible
  | some trigger =>
    let automatic := match trigger with
      | .poolReturn => policy.autoPoolReturn
      | .resourceReturn => policy.autoResourceReturn
      | .boundedRequeue => policy.autoBoundedRequeue
    if automatic then .automatic trigger else .manual trigger

structure TaskRef where
  campaign : String
  taskId : String
  deriving DecidableEq

/-- An orchestration capsule: its JSON text, and the run and the task reference that it carries. -/
structure Orchestration where
  capsule : String
  flowRunId : String
  taskRef : Option TaskRef
  deriving DecidableEq

structure WitnessRecord where
  taskUuid : Option String
  verdict : Verdict
  exitCode : Int
  artifactContentHash : Option String
  storePaths : Option (List String)
  drv : Option String
  attempt : Nat
  leaseEpoch : Nat
  dedupKey : Option String
  payloadHash : Option String
  briefHash : Option String
  orchestration : Option Orchestration
  laborClass : LaborClass
  pools : List String
  executor : Option String
  seq : Nat
  deriving DecidableEq

/-! ## Durable rows and events -/

structure UsagePredecessor where
  taskUuid : String
  attempt : Nat
  leaseEpoch : Nat
  deriving DecidableEq

structure RowSeed (Uuid : Type) where
  uuid : Uuid
  pools : List String
  executor : Option String
  resumedFrom : Option String
  dedupKey : Option String
  payloadHash : Option String
  briefHash : Option String
  orchestration : Option Orchestration
  usagePredecessor : Option UsagePredecessor
  leaseEpoch : Nat
  attempt : Nat
  drv : Option String
  deriving DecidableEq

structure DurableReuse where
  matchedWitnessSeq : Nat
  artifactContentHash : Option String
  storePaths : Option (List String)
  deriving DecidableEq

structure DurableRetry where
  attempt : Nat
  previousWitnessSeq : Nat
  deriving DecidableEq

structure DurableEnqueueEvent (Uuid : Type) where
  eventId : Uuid
  guardrailDepth : Nat
  reuse : Option DurableReuse
  retries : List DurableRetry
  row : RowSeed Uuid
  deriving DecidableEq

/-- What `DurableRecoveryFacts::from_verified` has established: the events are sorted by the UUID of
their row, which occurs once, and the witness records are numbered from 1 without a gap. -/
structure DurableRecoveryFacts (Uuid : Type) [LinearOrder Uuid] where
  events : List (DurableEnqueueEvent Uuid)
  witness : List WitnessRecord
  sorted : (events.map (·.row.uuid)).Pairwise (· < ·)
  numbered : ∀ index record, witness[index]? = some record → record.seq = index + 1

/-- The sequence number of the last record. -/
def DurableRecoveryFacts.witnessLsn {Uuid : Type} [LinearOrder Uuid]
    (durable : DurableRecoveryFacts Uuid) : Nat :=
  (durable.witness.getLast?).elim 0 (·.seq)

/-! ## Units -/

inductive LocalUnitState
  | absent
  | running
  | exited
  | inactiveWithoutRecord
  deriving DecidableEq

structure UnitExitRecord where
  schemaVersion : Nat
  unit : String
  invocationId : String
  attempt : Nat
  leaseEpoch : Nat
  serviceResult : String
  exitCode : Option String
  exitStatus : Option String
  deriving DecidableEq

inductive ExecutorError
  | invalidExitRecord (message : String)
  | exitRecordUnitMismatch (recorded expected : String)
  | unitProbe (unit detail : String)
  deriving DecidableEq

def unitExitSchemaVersion : Nat := 2

/-- `str::parse::<u8>`. -/
def parseU8 (text : String) : Option Nat :=
  let digits := match text.toList with
    | '+' :: rest => rest
    | chars => chars
  if digits.isEmpty || !digits.all Char.isDigit then none
  else
    let value := digits.foldl (fun value c => value * 10 + (c.toNat - 48)) 0
    if value ≤ 255 then some value else none

def serviceResults : List String :=
  ["success", "protocol", "timeout", "exit-code", "signal", "core-dump", "watchdog",
    "exec-condition", "oom-kill", "start-limit-hit", "resources"]

/-- The exit metadata has the shape that its own fields require. -/
def UnitExitRecord.validateExit (record : UnitExitRecord) : Except ExecutorError Unit :=
  match record.exitCode, record.exitStatus with
  | none, none =>
    if record.serviceResult ∈ ["protocol", "start-limit-hit", "resources"] then .ok ()
    else .error (.invalidExitRecord
      ("serviceResult " ++ debugText record.serviceResult ++ " requires exit metadata"))
  | some code, some status =>
    if status.isEmpty then
      .error (.invalidExitRecord "exitStatus must not be empty when present")
    else if code = "exited" then
      match parseU8 status with
      | none => .error (.invalidExitRecord
          ("exitStatus " ++ debugText status ++ " is not an exit code in 0..=255"))
      | some value =>
        if record.serviceResult = "exit-code" ∧ value = 0 then
          .error (.invalidExitRecord "serviceResult exit-code cannot carry exitStatus 0")
        else .ok ()
    else if code = "killed" ∨ code = "dumped" then
      if status.toList.all fun c => c.isUpper || c.isDigit || c == '_' || c == '+' || c == '-' then
        .ok ()
      else .error (.invalidExitRecord
        ("signal exitStatus " ++ debugText status ++ " has invalid characters"))
    else .error (.invalidExitRecord ("unknown exitCode " ++ debugText code))
  | _, _ => .error (.invalidExitRecord
      "exitCode and exitStatus must both be present or both be null")

/-- The service result agrees with the exit metadata. -/
def UnitExitRecord.combinationIsValid (record : UnitExitRecord) : Bool :=
  let code := record.exitCode
  let status := record.exitStatus
  match record.serviceResult with
  | "success" => (code == some "exited" && status == some "0") || code == some "killed"
  | "protocol" =>
    (code.isNone && status.isNone) || (code == some "exited" && status == some "0")
  | "timeout" => code == some "exited" || code == some "killed"
  | "exit-code" => code == some "exited"
  | "signal" => code == some "killed"
  | "core-dump" => code == some "dumped"
  | "watchdog" => code == some "exited" || code == some "killed" || code == some "dumped"
  | "exec-condition" => code == some "exited" &&
      ((status.bind parseU8).any fun value => decide (1 ≤ value ∧ value ≤ 254))
  | "oom-kill" => code == some "killed"
  | "start-limit-hit" => code.isNone
  | _ => true

def debugOption (value : Option String) : String :=
  match value with
  | none => "None"
  | some text => "Some(" ++ debugText text ++ ")"

def UnitExitRecord.validate (record : UnitExitRecord) (expectedUnit : String) :
    Except ExecutorError Unit :=
  if record.schemaVersion ≠ unitExitSchemaVersion then
    .error (.invalidExitRecord ("unsupported schema version " ++ record.schemaVersion.repr))
  else if record.unit ≠ expectedUnit then
    .error (.exitRecordUnitMismatch record.unit expectedUnit)
  else if record.attempt = 0 then
    .error (.invalidExitRecord "attempt must be positive")
  else if record.leaseEpoch = 0 then
    .error (.invalidExitRecord "leaseEpoch must be positive")
  else if record.invocationId.isEmpty then
    .error (.invalidExitRecord "invocationId must not be empty")
  else if record.serviceResult.isEmpty then
    .error (.invalidExitRecord "serviceResult must not be empty")
  else if record.serviceResult ∉ serviceResults then
    .error (.invalidExitRecord ("unknown serviceResult " ++ debugText record.serviceResult))
  else match record.validateExit with
    | .error error => .error error
    | .ok () =>
      if record.combinationIsValid then .ok ()
      else .error (.invalidExitRecord ("serviceResult " ++ debugText record.serviceResult ++
        " is inconsistent with exitCode " ++ debugOption record.exitCode ++ " and exitStatus " ++
        debugOption record.exitStatus))

structure LocalUnitFact where
  unit : String
  loaded : Bool
  state : LocalUnitState
  invocationId : Option String
  attempt : Option Nat
  leaseEpoch : Option Nat
  exitRecord : Option UnitExitRecord
  deriving DecidableEq

def LocalUnitFact.absent (unit : String) : LocalUnitFact :=
  { unit, loaded := false, state := .absent, invocationId := none, attempt := none
    leaseEpoch := none, exitRecord := none }

/-! ## Facts, policy and plan -/

structure RecoveryTriggers (Uuid : Type) where
  confirmedPoolReturns : Finset String
  resourceReturns : Finset String
  boundedRequeues : Finset Uuid

structure AdvisoryReturnAttestation where
  pool : String
  payload : String
  deriving DecidableEq

structure RecoveryFacts (Uuid : Type) [LinearOrder Uuid] where
  durable : DurableRecoveryFacts Uuid
  currentLeaseEpoch : Nat
  units : Dict Uuid LocalUnitFact
  rowlessUnits : Dict Uuid LocalUnitFact
  triggers : RecoveryTriggers Uuid
  advisoryReturnAttestations : List AdvisoryReturnAttestation

structure RecoveryPolicy where
  retry : RetryPolicy
  maxAttempts : Nat
  deriving DecidableEq

inductive RecoveryRowState
  | pending
  | completed
  | deleted
  | adoptedRunning
  | awaitingReconciliation
  deriving DecidableEq

structure RecoveryRow (Uuid : Type) where
  row : RowSeed Uuid
  state : RecoveryRowState
  laborClass : LaborClass
  guardrailDepth : Nat
  deriving DecidableEq

inductive RecoveryIdentity (Uuid : Type)
  | task (uuid : Uuid)
  | job (uuid : Uuid)
  deriving DecidableEq

structure LeaseEpochFence (Uuid : Type) where
  identity : RecoveryIdentity Uuid
  staleEpoch : Nat
  currentEpoch : Nat
  deriving DecidableEq

inductive RecoveryAction (Uuid : Type)
  | queueExisting (taskUuid : Uuid) (attempt leaseEpoch : Nat)
  | adoptRunning (identity : RecoveryIdentity Uuid) (unit invocationId : String)
    (attempt leaseEpoch : Nat) (laborClass : Option LaborClass)
  | reconcileExit (identity : RecoveryIdentity Uuid) (record : UnitExitRecord)
    (laborClass : Option LaborClass)
  | awaitUnitCollection (identity : RecoveryIdentity Uuid) (unit : String)
  | rePresent (row : RowSeed Uuid) (trigger : RetryTrigger) (previousWitnessSeq previousAttempt
    previousLeaseEpoch : Nat) (previousUsagePredecessor : Option UsagePredecessor)
  | awaitRetry (taskUuid : Uuid) (disposition : RetryDisposition) (triggerObserved : Bool)
  | retryExhausted (taskUuid : Uuid) (lastAttempt maxAttempts : Nat)
  deriving DecidableEq

/-- The identity that an action is about. -/
def RecoveryAction.identity {Uuid : Type} : RecoveryAction Uuid → RecoveryIdentity Uuid
  | queueExisting taskUuid _ _ => .task taskUuid
  | adoptRunning identity _ _ _ _ _ => identity
  | reconcileExit identity _ _ => identity
  | awaitUnitCollection identity _ => identity
  | rePresent row _ _ _ _ _ => .task row.uuid
  | awaitRetry taskUuid _ _ => .task taskUuid
  | retryExhausted taskUuid _ _ => .task taskUuid

structure RecoveryPlan (Uuid : Type) where
  witnessLsn : Nat
  rows : List (RecoveryRow Uuid)
  actions : List (RecoveryAction Uuid)
  leaseEpochFences : Finset (LeaseEpochFence Uuid)
  advisoryReturnAttestations : List AdvisoryReturnAttestation

inductive RecoveryError
  | executor (error : ExecutorError)
  | invalidFacts (message : String)
  | invalidPolicy (message : String)
  /-- A failed `expect`. -/
  | panicked (message : String)
  deriving DecidableEq

end Tally.Recovery
