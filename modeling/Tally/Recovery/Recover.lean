import Tally.Recovery.Basic
import Tally.Lib.Result

/-!
# The recovery planner

`recover` of `recovery.rs` and the functions it calls. The rows and actions that the source pushes
to its vectors go to a `Planner`. Where a fact that has been checked is unwrapped again, the `expect`
of the source is an error here.
-/

namespace Tally.Recovery

open UuidText
open Lib (debugText)

variable {Uuid : Type} [LinearOrder Uuid] [UuidText Uuid]

/-! ## Names of units -/

def unitStem (uuid : Uuid) (taskRef : Option TaskRef) : String :=
  match taskRef with
  | none => "tally-job-" ++ render uuid
  | some taskRef => "tally-job-" ++ taskRef.campaign ++ "-" ++ taskRef.taskId ++ "-" ++ render uuid

def unitName (uuid : Uuid) (taskRef : Option TaskRef) : String :=
  unitStem uuid taskRef ++ ".service"

/-- The unit that a durable row is expected to own. -/
def RowSeed.unitName (row : RowSeed Uuid) : String :=
  Recovery.unitName row.uuid (row.orchestration.bind (·.taskRef))

/-! ## Witness history -/

/-- The variables of the loop over a history. -/
structure HistoryState where
  expectedAttempt : Nat
  previousEpoch : Nat
  previousRecord : Option WitnessRecord

/-- An acknowledged retry leads from one record to the next. -/
def isExplicitRetry (retries : List DurableRetry) (previous record : WitnessRecord) : Bool :=
  retries.any fun retry => decide (retry.attempt = record.attempt ∧
    retry.previousWitnessSeq = previous.seq ∧ record.attempt = saturatingSucc previous.attempt)

def validateRecord (row : RowSeed Uuid) (retries : List DurableRetry) (currentEpoch : Nat)
    (state : HistoryState) (record : WitnessRecord) : Except RecoveryError HistoryState := do
  let explicitRetry := state.previousRecord.any fun previous =>
    isExplicitRetry retries previous record
  ensure (¬ (state.previousRecord.any fun previous => (retryTrigger previous.verdict).isNone) ∨
      explicitRetry)
    (.invalidFacts ("witness seq " ++ record.seq.repr ++ " replays row " ++ render row.uuid ++
      " after a terminal outcome"))
  ensure (record.attempt = state.expectedAttempt)
    (.invalidFacts ("witness seq " ++ record.seq.repr ++ " for row " ++ render row.uuid ++
      " has attempt " ++ record.attempt.repr ++ ", expected " ++ state.expectedAttempt.repr))
  let expectedAttempt ← orError (checkedSucc state.expectedAttempt)
    (.invalidFacts ("attempt overflow for row " ++ render row.uuid))
  ensure (record.leaseEpoch ≠ 0 ∧ record.leaseEpoch ≤ currentEpoch)
    (.invalidFacts ("witness seq " ++ record.seq.repr ++ " for row " ++ render row.uuid ++
      " has impossible lease epoch " ++ record.leaseEpoch.repr ++ " at current epoch " ++
      currentEpoch.repr))
  ensure (state.previousEpoch ≤ record.leaseEpoch)
    (.invalidFacts ("witness lease epoch regressed for row " ++ render row.uuid))
  ensure (state.previousRecord = none ∨ record.laborClass = .recovered)
    (.invalidFacts ("witness seq " ++ record.seq.repr ++ " for re-presented row " ++
      render row.uuid ++ " is not recovered labor"))
  ensure (record.pools = row.pools)
    (.invalidFacts ("witness seq " ++ record.seq.repr ++ " pool does not match durable row " ++
      render row.uuid))
  ensure (record.executor = row.executor)
    (.invalidFacts ("witness seq " ++ record.seq.repr ++ " executor does not match durable row " ++
      render row.uuid))
  ensure (record.payloadHash = row.payloadHash)
    (.invalidFacts ("witness seq " ++ record.seq.repr ++
      " payload hash does not match durable row " ++ render row.uuid))
  ensure (record.briefHash = row.briefHash)
    (.invalidFacts ("witness seq " ++ record.seq.repr ++
      " brief hash does not match durable row " ++ render row.uuid))
  ensure (record.orchestration = row.orchestration)
    (.invalidFacts ("witness seq " ++ record.seq.repr ++
      " orchestration does not match durable row " ++ render row.uuid))
  return { expectedAttempt, previousEpoch := record.leaseEpoch, previousRecord := some record }

def validateRetry (row : RowSeed Uuid) (history : List WitnessRecord) (retry : DurableRetry) :
    Except RecoveryError Unit := do
  let previous ← orError (history.find? fun record => record.seq = retry.previousWitnessSeq)
    (.invalidFacts ("retry attempt " ++ retry.attempt.repr ++ " for row " ++ render row.uuid ++
      " references missing witness seq " ++ retry.previousWitnessSeq.repr))
  ensure (previous.verdict ≠ .pass)
    (.invalidFacts ("retry attempt " ++ retry.attempt.repr ++ " for row " ++ render row.uuid ++
      " follows a pass verdict"))
  ensure (checkedSucc previous.attempt = some retry.attempt)
    (.invalidFacts ("retry attempt " ++ retry.attempt.repr ++ " for row " ++ render row.uuid ++
      " does not follow witness attempt " ++ previous.attempt.repr))
  let hasResult := history.any fun record => record.attempt = retry.attempt
  let isPendingLatest := history.getLast?.any fun latest =>
    decide (latest.seq = previous.seq ∧ saturatingSucc latest.attempt = retry.attempt)
  ensure (hasResult ∨ isPendingLatest)
    (.invalidFacts ("retry attempt " ++ retry.attempt.repr ++ " for row " ++ render row.uuid ++
      " has no terminal result and is not the live frontier"))

def validateHistory (row : RowSeed Uuid) (history : List WitnessRecord)
    (retries : List DurableRetry) (currentEpoch : Nat) : Except RecoveryError Unit := do
  let _ ← history.foldlM (validateRecord row retries currentEpoch)
    { expectedAttempt := row.attempt, previousEpoch := row.leaseEpoch, previousRecord := none }
  retries.forM (validateRetry row history)

/-! ## Unit facts -/

def debugEpoch (epoch : Option Nat) : String :=
  match epoch with
  | none => "None"
  | some epoch => "Some(" ++ epoch.repr ++ ")"

def validateUnitFactNamed (uuid : Uuid) (expectedUnit : String) (fact : LocalUnitFact)
    (currentEpoch : Nat) : Except RecoveryError Unit := do
  ensure (fact.unit = expectedUnit)
    (.invalidFacts ("unit fact " ++ debugText fact.unit ++ " does not match durable row " ++
      render uuid))
  ensure (¬ fact.leaseEpoch.any fun epoch => currentEpoch < epoch)
    (.invalidFacts ("unit " ++ fact.unit ++ " carries future lease epoch " ++
      debugEpoch fact.leaseEpoch ++ " at current epoch " ++ currentEpoch.repr))
  match fact.state with
  | .absent =>
    ensure (fact.loaded = false ∧ fact.invocationId = none ∧ fact.attempt = none ∧
        fact.leaseEpoch = none ∧ fact.exitRecord = none)
      (.invalidFacts ("absent unit " ++ fact.unit ++ " carries execution metadata"))
  | .running =>
    ensure (fact.loaded ∧ (fact.invocationId.any fun id => !id.isEmpty) ∧ fact.attempt.isSome ∧
        fact.leaseEpoch.isSome ∧ fact.exitRecord = none)
      (.invalidFacts ("running unit " ++ fact.unit ++
        " has incomplete or contradictory metadata"))
  | .exited => do
    let record ← orError fact.exitRecord
      (.invalidFacts ("exited unit " ++ fact.unit ++ " has no durable exit record"))
    match record.validate fact.unit with
    | .error error => throw (.executor error)
    | .ok () =>
      ensure (fact.invocationId = some record.invocationId ∧ fact.attempt = some record.attempt ∧
          fact.leaseEpoch = some record.leaseEpoch ∧ record.unit = fact.unit)
        (.invalidFacts ("exited unit " ++ fact.unit ++
          " metadata does not match its durable record"))
  | .inactiveWithoutRecord =>
    ensure (fact.loaded ∧ fact.exitRecord = none)
      (.invalidFacts ("inactive unit " ++ fact.unit ++ " has contradictory metadata"))

def validateUnitFact (row : RowSeed Uuid) (fact : LocalUnitFact) (currentEpoch : Nat) :
    Except RecoveryError Unit :=
  validateUnitFactNamed row.uuid row.unitName fact currentEpoch

def validateUnitFactForUuid (uuid : Uuid) (fact : LocalUnitFact) (currentEpoch : Nat) :
    Except RecoveryError Unit :=
  validateUnitFactNamed uuid ("tally-job-" ++ render uuid ++ ".service") fact currentEpoch

/-! ## Planning -/

/-- What the planner has come up with so far. -/
structure Planner (Uuid : Type) where
  rows : List (RecoveryRow Uuid) := []
  actions : List (RecoveryAction Uuid) := []
  fences : Finset (LeaseEpochFence Uuid) := ∅

namespace Planner

def pushRow (planner : Planner Uuid) (row : RecoveryRow Uuid) : Planner Uuid :=
  { planner with rows := planner.rows ++ [row] }

def pushAction (planner : Planner Uuid) (action : RecoveryAction Uuid) : Planner Uuid :=
  { planner with actions := planner.actions ++ [action] }

def rememberStaleEpoch (planner : Planner Uuid) (identity : RecoveryIdentity Uuid)
    (epoch currentEpoch : Nat) : Planner Uuid :=
  if epoch < currentEpoch then
    { planner with fences := insert { identity, staleEpoch := epoch, currentEpoch } planner.fences }
  else planner

def rememberStaleEpoch? (planner : Planner Uuid) (identity : RecoveryIdentity Uuid)
    (epoch : Option Nat) (currentEpoch : Nat) : Planner Uuid :=
  match epoch with
  | none => planner
  | some epoch => planner.rememberStaleEpoch identity epoch currentEpoch

end Planner

/-- The labor of a unit that is still there, or `none` if the witness covers its attempt. -/
def presentLabor (row : RowSeed Uuid) (latest : Option WitnessRecord) (explicitRetry : Bool)
    (unit : LocalUnitFact) (attempt leaseEpoch : Nat) :
    Except RecoveryError (LaborClass ⊕ WitnessRecord) :=
  match latest with
  | none => do
    ensure (attempt = row.attempt ∧ row.leaseEpoch ≤ leaseEpoch)
      (.invalidFacts ("first execution unit " ++ unit.unit ++
        " does not match durable attempt and epoch"))
    return .inl .fresh
  | some record =>
    if attempt ≤ record.attempt then do
      ensure (unit.state ≠ .running)
        (.invalidFacts ("running unit " ++ unit.unit ++ " is already covered by witness seq " ++
          record.seq.repr))
      ensure (record.attempt ≤ attempt)
        (.invalidFacts ("unit " ++ unit.unit ++ " durable exit attempt " ++ attempt.repr ++
          " predates latest witness attempt " ++ record.attempt.repr))
      return .inr record
    else do
      let expectedAttempt ← orError (checkedSucc record.attempt)
        (.invalidFacts ("attempt overflow for row " ++ render row.uuid))
      ensure (attempt = expectedAttempt ∧
          ((retryTrigger record.verdict).isSome ∨ explicitRetry))
        (.invalidFacts ("unit " ++ unit.unit ++ " attempt " ++ attempt.repr ++
          " is not the next eligible presentation after witness seq " ++ record.seq.repr))
      ensure (record.leaseEpoch ≤ leaseEpoch)
        (.invalidFacts ("unit " ++ unit.unit ++ " regressed lease epoch from " ++
          record.leaseEpoch.repr ++ " to " ++ leaseEpoch.repr))
      return .inl .recovered

/-- The row of a unit that is still there. -/
def presentRow (row : RowSeed Uuid) (latest : Option WitnessRecord) (explicitRetry : Bool)
    (laborClass : LaborClass) (attempt leaseEpoch : Nat) : RowSeed Uuid :=
  { row with
    usagePredecessor :=
      if laborClass = .recovered then
        if !explicitRetry || row.resumedFrom.isSome then
          latest.map fun record => {
            taskUuid := render row.uuid
            attempt := record.attempt
            leaseEpoch := record.leaseEpoch }
        else none
      else row.usagePredecessor
    attempt, leaseEpoch }

/-- Plan for the unit of a row, if it is still there. The flag says whether that settles the row. -/
def handlePresentUnit (row : RowSeed Uuid) (guardrailDepth : Nat) (latest : Option WitnessRecord)
    (explicitRetry : Bool) (unit : LocalUnitFact) (planner : Planner Uuid) :
    Except RecoveryError (Bool × Planner Uuid) := do
  ensure (unit.state ≠ .inactiveWithoutRecord)
    (.invalidFacts ("unit " ++ unit.unit ++ " is inactive but its durable exit record is absent"))
  if unit.state = .absent then return (false, planner)
  let attempt ← orError unit.attempt (.panicked "validated present unit has an attempt")
  let leaseEpoch ← orError unit.leaseEpoch
    (.panicked "validated present unit has a lease epoch")
  match ← presentLabor row latest explicitRetry unit attempt leaseEpoch with
  | .inr record =>
    if unit.loaded then
      let row := { row with attempt := record.attempt, leaseEpoch := record.leaseEpoch }
      return (true,
        (planner.pushAction (.awaitUnitCollection (.task row.uuid) unit.unit)).pushRow
          { row, state := .completed, laborClass := record.laborClass, guardrailDepth })
    else return (false, planner)
  | .inl laborClass =>
    let row := presentRow row latest explicitRetry laborClass attempt leaseEpoch
    match unit.state with
    | .running => do
      let invocationId ← orError unit.invocationId
        (.panicked "validated running unit has an invocation ID")
      return (true,
        (planner.pushAction (.adoptRunning (.task row.uuid) unit.unit invocationId attempt
          leaseEpoch (some laborClass))).pushRow
            { row, state := .adoptedRunning, laborClass, guardrailDepth })
    | .exited => do
      let record ← orError unit.exitRecord (.panicked "validated exited unit has a record")
      return (true,
        (planner.pushAction (.reconcileExit (.task row.uuid) record (some laborClass))).pushRow
          { row, state := .awaitingReconciliation, laborClass, guardrailDepth })
    | _ => throw (.panicked "absent and inactive units returned before reconciliation")

/-- What brings a row back was observed. -/
def triggerObserved (row : RowSeed Uuid) (triggers : RecoveryTriggers Uuid) : RetryTrigger → Bool
  | .poolReturn => row.pools.any fun pool => decide (pool ∈ triggers.confirmedPoolReturns)
  | .resourceReturn => row.pools.any fun pool => decide (pool ∈ triggers.resourceReturns)
  | .boundedRequeue => decide (row.uuid ∈ triggers.boundedRequeues)

def planWitnessedRow (row : RowSeed Uuid) (record : WitnessRecord)
    (triggers : RecoveryTriggers Uuid) (currentEpoch : Nat) (policy : RecoveryPolicy)
    (guardrailDepth : Nat) (planner : Planner Uuid) : Except RecoveryError (Planner Uuid) :=
  let row := { row with attempt := record.attempt, leaseEpoch := record.leaseEpoch }
  match retryTrigger record.verdict with
  | none =>
    let state := if record.verdict = .cancelled then .deleted else .completed
    .ok (planner.pushRow { row, state, laborClass := record.laborClass, guardrailDepth })
  | some trigger => do
    let nextAttempt ← orError (checkedSucc record.attempt)
      (.invalidFacts ("attempt overflow for row " ++ render row.uuid))
    let disposition := retryDisposition record.verdict policy.retry
    let observed := triggerObserved row triggers trigger
    if policy.maxAttempts < nextAttempt then
      return (planner.pushAction
        (.retryExhausted row.uuid record.attempt policy.maxAttempts)).pushRow
          { row, state := .completed, laborClass := record.laborClass, guardrailDepth }
    else if disposition ≠ .automatic trigger ∨ !observed then
      return (planner.pushAction (.awaitRetry row.uuid disposition observed)).pushRow
        { row, state := .completed, laborClass := record.laborClass, guardrailDepth }
    else
      let next := { row with
        attempt := nextAttempt
        leaseEpoch := currentEpoch
        usagePredecessor := some {
          taskUuid := render row.uuid
          attempt := record.attempt
          leaseEpoch := record.leaseEpoch } }
      return (planner.pushAction (.rePresent next trigger record.seq record.attempt
        record.leaseEpoch row.usagePredecessor)).pushRow
          { row := next, state := .pending, laborClass := .recovered, guardrailDepth }

/-- The records of a row, in the order of the ledger. -/
def historyOf (witness : List WitnessRecord) (uuid : Uuid) : List WitnessRecord :=
  witness.filter fun record => (record.taskUuid.bind parseStr) = some uuid

/-- An acknowledged retry follows the latest record. -/
def hasExplicitRetry (event : DurableEnqueueEvent Uuid) (latest : Option WitnessRecord) : Bool :=
  latest.any fun record => event.retries.any fun retry =>
    decide (retry.attempt = saturatingSucc record.attempt ∧ retry.previousWitnessSeq = record.seq)

/-- The row of an explicit retry, or of a row that has not been witnessed yet. -/
def queueExisting (row : RowSeed Uuid) (laborClass : LaborClass) (guardrailDepth : Nat)
    (planner : Planner Uuid) : Planner Uuid :=
  (planner.pushAction (.queueExisting row.uuid row.attempt row.leaseEpoch)).pushRow
    { row, state := .pending, laborClass, guardrailDepth }

/-- One round of the loop over the durable events. -/
def recoverEvent (facts : RecoveryFacts Uuid) (policy : RecoveryPolicy) (planner : Planner Uuid)
    (event : DurableEnqueueEvent Uuid) : Except RecoveryError (Planner Uuid) := do
  let row := event.row
  let identity := RecoveryIdentity.task row.uuid
  let currentEpoch := facts.currentLeaseEpoch
  ensure (row.leaseEpoch ≤ currentEpoch)
    (.invalidFacts ("durable row " ++ render row.uuid ++ " carries future lease epoch " ++
      row.leaseEpoch.repr ++ " at current epoch " ++ currentEpoch.repr))
  let history := historyOf facts.durable.witness row.uuid
  validateHistory row history event.retries currentEpoch
  let latest := history.getLast?
  let explicitRetry := hasExplicitRetry event latest
  let unit ← orError (facts.units.get? row.uuid)
    (.invalidFacts ("local unit fact is missing for durable row " ++ render row.uuid))
  validateUnitFact row unit currentEpoch
  let planner := planner.rememberStaleEpoch identity row.leaseEpoch currentEpoch
  let planner := planner.rememberStaleEpoch? identity (latest.map (·.leaseEpoch)) currentEpoch
  let planner := planner.rememberStaleEpoch? identity unit.leaseEpoch currentEpoch
  let (settled, planner) ← handlePresentUnit row event.guardrailDepth latest explicitRetry unit planner
  if settled then return planner
  match latest with
  | none => return queueExisting { row with leaseEpoch := currentEpoch } .fresh event.guardrailDepth planner
  | some record =>
    if explicitRetry then do
      let attempt ← orError (checkedSucc record.attempt)
        (.invalidFacts ("attempt overflow for row " ++ render row.uuid))
      return queueExisting { row with
        attempt
        leaseEpoch := currentEpoch
        usagePredecessor := if row.resumedFrom.isSome then some {
          taskUuid := render row.uuid
          attempt := record.attempt
          leaseEpoch := record.leaseEpoch } else none } .recovered event.guardrailDepth planner
    else
      planWitnessedRow row record facts.triggers currentEpoch policy event.guardrailDepth planner

def planRowlessUnit (currentEpoch : Nat) (planner : Planner Uuid) (entry : Uuid × LocalUnitFact) :
    Except RecoveryError (Planner Uuid) := do
  let (jobUuid, unit) := entry
  validateUnitFactForUuid jobUuid unit currentEpoch
  let identity := RecoveryIdentity.job jobUuid
  let planner := planner.rememberStaleEpoch? identity unit.leaseEpoch currentEpoch
  match unit.state with
  | .absent => return planner
  | .running => do
    let invocationId ← orError unit.invocationId
      (.panicked "validated running rowless unit has an invocation ID")
    let attempt ← orError unit.attempt
      (.panicked "validated running rowless unit has an attempt")
    let leaseEpoch ← orError unit.leaseEpoch
      (.panicked "validated running rowless unit has a lease epoch")
    return planner.pushAction
      (.adoptRunning identity unit.unit invocationId attempt leaseEpoch none)
  | .exited => do
    let record ← orError unit.exitRecord (.panicked "validated exited rowless unit has a record")
    return planner.pushAction (.reconcileExit identity record none)
  | .inactiveWithoutRecord =>
    throw (.invalidFacts ("rowless unit " ++ unit.unit ++
      " is inactive but its durable exit record is absent"))

def recover (facts : RecoveryFacts Uuid) (policy : RecoveryPolicy) :
    Except RecoveryError (RecoveryPlan Uuid) := do
  ensure (facts.currentLeaseEpoch ≠ 0) (.invalidFacts "current lease epoch must be positive")
  ensure (policy.maxAttempts ≠ 0) (.invalidPolicy "maxAttempts must be positive")
  let durableUuids := facts.durable.events.map (·.row.uuid)
  match facts.units.keys.find? fun uuid => uuid ∉ durableUuids with
  | some extra => throw (.invalidFacts ("rowed unit fact " ++ render extra ++
      " has no acknowledged durable row"))
  | none =>
  match facts.rowlessUnits.keys.find? fun uuid => uuid ∈ durableUuids with
  | some collision => throw (.invalidFacts ("rowless job " ++ render collision ++
      " collides with a durable task identity"))
  | none =>
  match facts.durable.witness.find? fun record =>
      record.taskUuid.any fun text => (parseStr text : Option Uuid).isNone with
  | some record => throw (.invalidFacts ("witness seq " ++ record.seq.repr ++
      " has invalid task UUID " ++ debugText (record.taskUuid.getD "")))
  | none =>
  let planner ← facts.durable.events.foldlM (recoverEvent facts policy) {}
  let planner ← facts.rowlessUnits.entries.foldlM (planRowlessUnit facts.currentLeaseEpoch) planner
  return {
    witnessLsn := facts.durable.witnessLsn
    rows := planner.rows
    actions := planner.actions
    leaseEpochFences := planner.fences
    advisoryReturnAttestations := facts.advisoryReturnAttestations.filter fun advisory =>
      decide (advisory.pool ∈ facts.triggers.confirmedPoolReturns) }

end Tally.Recovery
