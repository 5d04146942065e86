import Tally.Recovery.Sound
import Tally.Flow.Membership

/-!
# Rebuilding a run without the daemon

`durable_view.rs` answers what the daemon would say about a run from the durable facts and the units
of that run: `collectRebuildUnitFacts` looks at the units, `rebuiltRowDetails` classifies the rows and
`rebuiltLiveJobs` lists what is being worked on. None of it calls `recover`. The sampling of
attestations that fills in the usage and the session of a row is left out: it changes neither the
status of a row, nor its attempt, nor its labor class.
-/

namespace Tally.Recovery

open UuidText
open Lib (Table)

variable {Uuid : Type} [LinearOrder Uuid] [UuidText Uuid]

/-! ## The units of the run -/

structure ExecutionIdentity (Uuid : Type) where
  jobId : Uuid
  taskUuid : Option Uuid
  taskRef : Option TaskRef
  deriving DecidableEq

inductive DurableViewError
  | unitLiveness (taskUuid : String) (source : ExecutorError)
  /-- A failed `expect`. -/
  | panicked (message : String)
  deriving DecidableEq

/-- A unit that is live work. The source unwraps the attempt and the epoch where it reads them; here
the fact is known to carry both. -/
structure RebuildUnitFact where
  fact : LocalUnitFact
  laborClass : LaborClass
  attempt : Nat
  leaseEpoch : Nat
  fact_attempt : fact.attempt = some attempt
  fact_leaseEpoch : fact.leaseEpoch = some leaseEpoch
  deriving DecidableEq

def RebuildUnitFact.ofFact (fact : LocalUnitFact) (laborClass : LaborClass) :
    Except DurableViewError RebuildUnitFact :=
  match hattempt : fact.attempt, hepoch : fact.leaseEpoch with
  | none, _ => .error (.panicked "validated present unit has an attempt")
  | some _, none => .error (.panicked "validated present unit has a lease epoch")
  | some attempt, some leaseEpoch => .ok
      { fact, laborClass, attempt, leaseEpoch, fact_attempt := hattempt, fact_leaseEpoch := hepoch }

/-- The executor, as the rebuild asks it: the name of a remote executor, if any, and whose unit. -/
abbrev Inspect (Uuid : Type) :=
  Option String → ExecutionIdentity Uuid → Except ExecutorError LocalUnitFact

def rowExecutionIdentity (row : RowSeed Uuid) : ExecutionIdentity Uuid where
  jobId := row.uuid
  taskUuid := some row.uuid
  taskRef := row.orchestration.bind (·.taskRef)

/-- The rows whose units are looked at. -/
def relevantRows (durable : DurableRecoveryFacts Uuid) (membership : Flow.FlowMembership)
    (flowRun : String) : Finset Uuid :=
  ((membership.tasks flowRun).filterMap parseStr).toFinset ∪
    ((durable.events.filter fun event => render event.row.uuid = flowRun ∨
      event.row.orchestration.any fun orchestration => orchestration.flowRunId = flowRun).map
        (·.row.uuid)).toFinset

def invalidUnitLiveness (taskUuid : Uuid) (unit detail : String) : DurableViewError :=
  .unitLiveness (render taskUuid) (.unitProbe unit detail)

/-- `attempt:epoch`. -/
def generation (attempt leaseEpoch : Nat) : String := attempt.repr ++ ":" ++ leaseEpoch.repr

/-- The labor of a unit that is there, or `none` if it is not live work. -/
def rebuildLabor (event : DurableEnqueueEvent Uuid) (latest : Option WitnessRecord)
    (fact : LocalUnitFact) (attempt leaseEpoch : Nat) :
    Except DurableViewError (Option LaborClass) :=
  match latest with
  | none => do
    ensure (attempt = event.row.attempt ∧ event.row.leaseEpoch ≤ leaseEpoch)
      (invalidUnitLiveness event.row.uuid fact.unit ("first execution generation " ++
        generation attempt leaseEpoch ++ " does not match durable row generation " ++
        generation event.row.attempt event.row.leaseEpoch))
    return some .fresh
  | some record =>
    -- a collected unit that lingers, and whose attempt is witnessed
    if attempt ≤ record.attempt then return none
    else do
      ensure (attempt = saturatingSucc record.attempt ∧
          ((retryTrigger record.verdict).isSome ∨ hasExplicitRetry event latest) ∧
          record.leaseEpoch ≤ leaseEpoch)
        (invalidUnitLiveness event.row.uuid fact.unit ("execution generation " ++
          generation attempt leaseEpoch ++ " is not an eligible replay after witness " ++
          record.seq.repr ++ " generation " ++ generation record.attempt record.leaseEpoch))
      return some .recovered

/-- One round of the loop over the relevant events: the unit of the row, if it is live work. -/
def rebuildUnit (inspect : Inspect Uuid) (witness : List WitnessRecord)
    (event : DurableEnqueueEvent Uuid) : Except DurableViewError (Option RebuildUnitFact) := do
  let latest := (historyOf witness event.row.uuid).getLast?
  let pendingExplicitRetry := hasExplicitRetry event latest
  -- a terminal remote row does not depend on its worker
  if event.row.executor.isSome ∧ (latest.any fun record => (retryTrigger record.verdict).isNone) ∧
      pendingExplicitRetry = false then
    return none
  let fact ← (inspect event.row.executor (rowExecutionIdentity event.row)).mapError
    (.unitLiveness (render event.row.uuid))
  match fact.state with
  | .absent => return none
  | .inactiveWithoutRecord => throw (invalidUnitLiveness event.row.uuid fact.unit
      "unit is inactive but its durable exit record is absent")
  | .running | .exited => do
    let attempt ← orError fact.attempt (.panicked "validated present unit has an attempt")
    let leaseEpoch ← orError fact.leaseEpoch
      (.panicked "validated present unit has a lease epoch")
    match ← rebuildLabor event latest fact attempt leaseEpoch with
    | none => return none
    | some laborClass =>
      let unit ← RebuildUnitFact.ofFact fact laborClass
      return some unit

def collectRebuildUnit (inspect : Inspect Uuid) (witness : List WitnessRecord)
    (units : Table Uuid RebuildUnitFact) (event : DurableEnqueueEvent Uuid) :
    Except DurableViewError (Table Uuid RebuildUnitFact) := do
  match ← rebuildUnit inspect witness event with
  | none => return units
  | some unit => return units.insert event.row.uuid unit

/-- The unit of the run itself, if the run has no row. -/
def collectRunUnit (inspect : Inspect Uuid) (durable : DurableRecoveryFacts Uuid) (flowRun : String)
    (units : Table Uuid RebuildUnitFact) :
    Except DurableViewError (Table Uuid RebuildUnitFact) :=
  match (parseStr flowRun : Option Uuid) with
  | none => .ok units
  | some jobUuid =>
    if durable.events.any fun event => event.row.uuid = jobUuid then .ok units
    else do
      let fact ← (inspect none { jobId := jobUuid, taskUuid := none, taskRef := none }).mapError
        (.unitLiveness flowRun)
      match fact.state with
      | .absent => return units
      | .running | .exited =>
        let unit ← RebuildUnitFact.ofFact fact .fresh
        return units.insert jobUuid unit
      | .inactiveWithoutRecord => throw (invalidUnitLiveness jobUuid fact.unit
          "unit is inactive but its durable exit record is absent")

def collectRebuildUnitFacts (durable : DurableRecoveryFacts Uuid)
    (membership : Flow.FlowMembership) (flowRun : String) (inspect : Inspect Uuid) :
    Except DurableViewError (Table Uuid RebuildUnitFact) := do
  let relevant := relevantRows durable membership flowRun
  let units ← (durable.events.filter fun event => event.row.uuid ∈ relevant).foldlM
    (collectRebuildUnit inspect durable.witness) ∅
  collectRunUnit inspect durable flowRun units

/-! ## Rows and live jobs -/

inductive RowStatus
  | pending
  | completed
  | deleted
  | recurring
  | unknown
  deriving DecidableEq

structure RowDetailFact where
  taskUuid : String
  rowStatus : RowStatus
  attempt : Nat
  leaseEpoch : Nat
  laborClass : LaborClass
  deriving DecidableEq

def RowDetailFact.fromSeed (row : RowSeed Uuid) (rowStatus : RowStatus) (laborClass : LaborClass) :
    RowDetailFact where
  taskUuid := render row.uuid
  rowStatus
  attempt := row.attempt
  leaseEpoch := row.leaseEpoch
  laborClass

/-- The acknowledged retry that follows a record. -/
def followingRetry (event : DurableEnqueueEvent Uuid) (record : WitnessRecord) :
    Option DurableRetry :=
  event.retries.find? fun retry =>
    retry.previousWitnessSeq = record.seq ∧ retry.attempt = saturatingSucc record.attempt

def rebuiltRowDetail (event : DurableEnqueueEvent Uuid) (terminal : Option WitnessRecord)
    (unit : Option RebuildUnitFact) : RowDetailFact :=
  let row := event.row
  match unit with
  | some unit =>
    .fromSeed { row with attempt := unit.attempt, leaseEpoch := unit.leaseEpoch } .pending
      unit.laborClass
  | none =>
    match terminal with
    | none => .fromSeed row .pending .fresh
    | some record =>
      match followingRetry event record with
      | some retry => .fromSeed { row with attempt := retry.attempt } .pending .recovered
      | none =>
        .fromSeed { row with attempt := record.attempt, leaseEpoch := record.leaseEpoch }
          (if record.verdict = .cancelled then .deleted else .completed) record.laborClass

def rebuiltRowDetails (durable : DurableRecoveryFacts Uuid) (units : Table Uuid RebuildUnitFact) :
    List RowDetailFact :=
  durable.events.map fun event =>
    rebuiltRowDetail event (historyOf durable.witness event.row.uuid).getLast?
      (units.get? event.row.uuid)

structure LiveJobFact where
  anchor : String
  jobId : String
  liveState : String
  attempt : Nat
  leaseEpoch : Nat
  unit : String
  laborClass : LaborClass
  deriving DecidableEq

/-- An exited unit whose exit record has not been consumed is still live work. -/
def liveJob (uuid : Uuid) (unit : RebuildUnitFact) : LiveJobFact where
  anchor := render uuid
  jobId := render uuid
  liveState := "running"
  attempt := unit.attempt
  leaseEpoch := unit.leaseEpoch
  unit := unit.fact.unit
  laborClass := unit.laborClass

def rebuiltLiveJobs (durable : DurableRecoveryFacts Uuid) (units : Table Uuid RebuildUnitFact) :
    List LiveJobFact :=
  let rowed := durable.events.map (·.row.uuid)
  let live := durable.events.filterMap fun event =>
    (units.get? event.row.uuid).map (liveJob event.row.uuid)
  let rowless := (units.entries.filter fun entry => !rowed.contains entry.1).map fun entry =>
    liveJob entry.1 entry.2
  (live ++ rowless).insertionSort fun left right => left.anchor ≤ right.anchor

end Tally.Recovery
