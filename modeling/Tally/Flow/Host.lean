import Mathlib.Data.Prod.Lex
import Tally.Flow.Spec
import Tally.Lib.Dict
import Tally.Lib.Keeps

/-!
# The host of a flow run

What stands between a script and the daemon (`engine/host.rs`): nodes are prepared one after the other
(`prepareSubmission`), each accepted node gets an ordinal, its dedup key and a future
(`execute_submission`), which waits for its turn, submits the node, waits for its terminal result and
then to be observed. A future is what it waits for next (`Execution`), and `poll` takes it as far as the
answers that are there allow. Wakers only say when a future is polled again and are left out.
-/

namespace Tally.Flow

open Tally.Lib
open Tally.Witness (natValue present asStr asObject strings)

/-! ## Data -/

inductive Disposition
  | created
  | attached
  | reused
  | substituted
  | terminal
  deriving DecidableEq

namespace Disposition

def asStr : Disposition → String
  | created => "created"
  | attached => "attached"
  | reused => "reused"
  | substituted => "substituted"
  | terminal => "terminal"

/-- The name in the source, as `{:?}` writes it. -/
def debug : Disposition → String
  | created => "Created"
  | attached => "Attached"
  | reused => "Reused"
  | substituted => "Substituted"
  | terminal => "Terminal"

end Disposition

inductive Verdict
  | pass
  | substituted
  | cleanExitNoArtifact
  | failed
  | skipped
  | cancelled
  | poolVanished
  | preempted
  | runtimeExceeded
  deriving DecidableEq

namespace Verdict

def asStr : Verdict → String
  | pass => "pass"
  | substituted => "substituted"
  | cleanExitNoArtifact => "clean-exit-no-artifact"
  | failed => "failed"
  | skipped => "skipped"
  | cancelled => "cancelled"
  | poolVanished => "pool-vanished"
  | preempted => "preempted"
  | runtimeExceeded => "runtime-exceeded"

/-- The name in the source, as `{:?}` writes it. -/
def debug : Verdict → String
  | pass => "Pass"
  | substituted => "Substituted"
  | cleanExitNoArtifact => "CleanExitNoArtifact"
  | failed => "Failed"
  | skipped => "Skipped"
  | cancelled => "Cancelled"
  | poolVanished => "PoolVanished"
  | preempted => "Preempted"
  | runtimeExceeded => "RuntimeExceeded"

def isPass : Verdict → Bool
  | pass | substituted => true
  | _ => false

end Verdict

structure NodeFailure where
  code : String
  message : String
  details : Option Value

structure NodeResult where
  taskUuid : String
  taskRef : Option String
  verdict : Verdict
  exitCode : Option Int
  stderrExcerpt : Option String
  stderrTruncated : Option Bool
  witnessSeq : Nat
  disposition : Disposition
  model : Option String
  result : Option Value
  gates : Option Value
  error : Option NodeFailure

structure Admission where
  schemaVersion : UInt32
  disposition : Disposition
  taskUuid : String
  taskRef : Option String
  payloadHash : String
  attempt : UInt32
  terminal : Option NodeResult
  recordedLabel : Option String
  reusedRejected : Option String

def intValue (n : Int) : Value := .number (.ofInt n)

/-! ### What errors tell of a node -/

/-- `serde_json::to_value`. -/
def NodeFailure.toValue (failure : NodeFailure) : Value :=
  .object (present [("code", some (.string failure.code)), ("message", some (.string failure.message)),
    ("details", failure.details)])

/-- `serde_json::to_value`. -/
def NodeResult.toValue (result : NodeResult) : Value :=
  .object (present [("taskUuid", some (.string result.taskUuid)),
    ("taskRef", result.taskRef.map .string),
    ("verdict", some (.string result.verdict.asStr)),
    ("exitCode", result.exitCode.map intValue),
    ("stderrExcerpt", result.stderrExcerpt.map .string),
    ("stderrTruncated", result.stderrTruncated.map .bool),
    ("witnessSeq", some (natValue result.witnessSeq)),
    ("disposition", some (.string result.disposition.asStr)),
    ("model", result.model.map .string),
    ("result", result.result),
    ("gates", result.gates),
    ("error", result.error.map NodeFailure.toValue)])

structure ClientError where
  code : String
  message : String
  details : Option Value

/-- What the client adds to an error: members of the details, where they have a shape, or one. -/
def ClientError.addTo (error : ClientError) (flowError : FlowError) : FlowError :=
  match error.details with
  | none => flowError
  | some details =>
    let shaped := isSupersessionCode error.code || error.code == "flow-lineage-unusable"
    match asObject details with
    | some members => if shaped then flowError.extend members else flowError.detail "client" details
    | none => flowError.detail "client" details

/-- `ClientError::into_flow`. -/
def ClientError.intoFlow (error : ClientError) (location : SourceLocation) (ordinal : Nat) : FlowError :=
  let name := match error.code with
    | "dedup-key-conflict" => "FlowDedupKeyConflict"
    | "admission-denied" => "FlowAdmissionDenied"
    | "flow-node-cap" => "FlowNodeCapError"
    | "replay-divergence" | "script-history-conflict" | "args-history-conflict"
    | "catalog-history-conflict" | "script-changed-mid-run" | "args-changed-mid-run"
    | "catalog-changed-mid-run" | "flow-run-superseded" => "FlowReplayError"
    | "flow-lineage-unusable" | "flow-lineage-conflict" => "FlowLineageError"
    | _ => "FlowClientError"
  withRecoveryFacts
    (error.addTo (((FlowError.new name error.code error.message).at location).withOrdinal ordinal))

structure Orchestration where
  flowName : String
  flowRunId : String
  scriptHash : String
  argsHash : String
  catalogHash : Option String
  nodeOrdinal : Nat
  nodeLabel : Option String
  taskRef : Option String
  maxNodes : UInt32
  promptRevision : Option String
  skillRevision : Option String
  selection : Option SelectionProvenance

structure FlowSubmission where
  mode : String
  dedupKey : String
  payloadHash : String
  taskUuid : Option String
  credentials : Table String PathBuf
  spec : NodeSpec
  orchestration : Orchestration

structure SubmissionPlan where
  submission : FlowSubmission
  settle : Bool
  resultSchema : Option Value
  location : SourceLocation
  ordinal : Nat

structure NodeRevisions where
  promptRevision : Option String
  skillRevision : Option String

/-- `HostShared`, without its state. -/
structure HostShared where
  «meta» : Meta
  flowRunId : String
  scriptHash : String
  argsHash : String
  effectiveMaxNodes : UInt32
  catalogHash : Option String
  poolCredentials : Table String (Table String PathBuf)

/-- The part of the state that `prepare_submission` reads and writes. -/
structure Prepared where
  nextOrdinal : Nat := 0
  explicitKeys : Dict String (Nat × SourceLocation) := ∅
  ordinalKeys : List String := []
  iterationCounts : Dict SourceLocation UInt32 := ∅

/-- `HostState`; the last two fields are what the sink and the client have been given. -/
structure HostState extends Prepared where
  admissionFrontier : Nat := 0
  pendingLogs : Dict Nat (List Value) := ∅
  fatal : Option FlowError := none
  readyObservations : Table (Nat ×ₗ Nat) Nat := ∅
  grantedObservations : List Nat := []
  nextObservationToken : Nat := 0
  observationOrder : List Nat := []
  events : List Value := []
  submits : List FlowSubmission := []

/-! ## Preparing a node -/

section Prepare

variable [Schemas] [Witness.Libraries] (host : HostShared) (location : SourceLocation)

/-- What is checked before the call is counted. -/
def normalizeSpec (spec : NodeSpec) : Except FlowError NodeSpec := do
  validateNodeSpecShape location spec
  let spec ← normalizePrompt location spec
  let spec := { spec with adapter := some (spec.adapter.getD "shell") }
  let spec ← normalizeWorkspace location spec
  let spec ← normalizePools location host.«meta» spec
  let spec ← normalizeAdapterOptions location spec
  match spec.resultSchema with
  | none => return spec
  | some schema => do
    (validatorFor schema).mapError fun error =>
      (FlowError.new "FlowSchemaError" "result-schema-invalid"
        ("resultSchema is not a valid JSON Schema: " ++ error)).at location
    return spec

def countCall : Eff FlowError Prepared Unit := do
  let prepared ← get
  let count := (prepared.iterationCounts.get? location).getD 0 + 1
  set { prepared with iterationCounts := prepared.iterationCounts.insert location count }
  .require (count ≤ host.«meta».cap) ((((FlowError.new "FlowLoopError" "iteration-cap"
    ("job call at line " ++ toString location.line ++ ", column " ++ toString location.column ++
      " was invoked " ++ toString count ++ " times (cap " ++ toString host.«meta».cap ++ ")")).at
    location).detail "count" (natValue count.toNat)).detail "cap" (natValue host.«meta».cap.toNat))

def keyError (code message : String) (ordinal : Nat) : FlowError :=
  ((FlowError.new "FlowKeyError" code message).at location).withOrdinal ordinal

/-- `flow:<run>:k:<key>`. -/
def localKey (flowRunId key : String) : String := "flow:" ++ flowRunId ++ ":k:" ++ key

/-- `flow:<run>:<ordinal>`. -/
def ordinalKey (flowRunId : String) (ordinal : Nat) : String :=
  "flow:" ++ flowRunId ++ ":" ++ toString ordinal

/-- The dedup key of the node. A flow-local key is claimed. -/
def claimKey (spec : NodeSpec) : Eff FlowError Prepared String := do
  let prepared ← get
  let ordinal := prepared.nextOrdinal
  .require (spec.key = none ∨ spec.dedupKey = none)
    (keyError location "key-conflict" "spec.key and spec.dedupKey are mutually exclusive" ordinal)
  match spec.key, spec.dedupKey with
  | some key, _ =>
    match prepared.explicitKeys.get? key with
    | some (firstOrdinal, first) =>
      throw ((((keyError location "duplicate-key" ("flow-local key " ++ debugText key ++
        " was already claimed by node " ++ toString firstOrdinal ++ " at line " ++ toString first.line ++
        ", column " ++ toString first.column ++ "; derive the key from what varies per node")
        ordinal).detail "key" (.string key)).detail "firstOrdinal" (natValue firstOrdinal)).detail
        "firstLocation" (.object [("line", natValue first.line.toNat),
          ("column", natValue first.column.toNat)]))
    | none =>
      set { prepared with explicitKeys := prepared.explicitKeys.insert key (ordinal, location) }
      return localKey host.flowRunId key
  | none, some key => return key
  | none, none => return ordinalKey host.flowRunId ordinal

def prepareSubmission (spec : NodeSpec) (revisions : NodeRevisions) (settle : Bool) :
    Eff FlowError Prepared SubmissionPlan := do
  let spec ← Eff.ofExcept (normalizeSpec host location spec)
  countCall host location
  let dedupKey ← claimKey host location spec
  let credentials := resolvePoolCredentials spec.pools host.poolCredentials
  let payloadHash ← Eff.ofExcept (canonicalPayloadHash spec credentials)
  let prepared ← get
  let ordinal := prepared.nextOrdinal
  let orchestration : Orchestration := {
    flowName := host.«meta».name
    flowRunId := host.flowRunId
    scriptHash := host.scriptHash
    argsHash := host.argsHash
    catalogHash := host.catalogHash
    nodeOrdinal := ordinal
    nodeLabel := spec.label
    taskRef := spec.taskRef
    maxNodes := host.effectiveMaxNodes
    promptRevision := revisions.promptRevision
    skillRevision := revisions.skillRevision
    selection := spec.selection }
  let submission : FlowSubmission := {
    mode := "full"
    dedupKey := dedupKey
    payloadHash := payloadHash
    taskUuid := spec.drv.map fun _ => stableDrvTaskUuid host.flowRunId ordinal
    credentials := credentials
    spec := spec
    orchestration := orchestration }
  set { prepared with
    nextOrdinal := ordinal + 1
    ordinalKeys := prepared.ordinalKeys ++ [dedupKey] }
  return {
    submission := submission
    settle := settle
    resultSchema := spec.resultSchema
    location := location
    ordinal := ordinal }

end Prepare

/-! ## The sink and the frontier -/

/-- What a poll is given: the answers of the client that are there, and whether the sink takes an event
after those that it has been given. -/
structure Answers where
  submit : FlowSubmission → Option (Except ClientError Admission)
  awaitTerminal : String → UInt32 → Option (Except ClientError NodeResult)
  sink : List Value → Value → Except FlowError Unit

abbrev HostM := Eff FlowError HostState

section Host

variable (host : HostShared) (answers : Answers)

def emit (event : Value) : HostM Unit := do
  let state ← get
  set { state with events := state.events ++ [event] }
  Eff.ofExcept (answers.sink state.events event)

/-- `queue_log`. -/
def queueLog (message : Value) (location : SourceLocation) (state : HostState) : HostState :=
  let frontier := state.nextOrdinal
  let event : Value := .object [("type", .string "log"), ("flowRunId", .string host.flowRunId),
    ("frontier", natValue frontier), ("message", message), ("line", natValue location.line.toNat),
    ("column", natValue location.column.toNat)]
  { state with
    pendingLogs := state.pendingLogs.insert frontier
      (((state.pendingLogs.get? frontier).getD []) ++ [event]) }

def setFatal (error : FlowError) (state : HostState) : HostState :=
  { state with fatal := some (state.fatal.getD error) }

def orderCorrupt (ordinal frontier : Nat) : FlowError :=
  (FlowError.new "FlowReplayError" "admission-order-corrupt" ("admission ordinal " ++ toString ordinal ++
    " completed while frontier was " ++ toString frontier)).withOrdinal ordinal

def finishAdmission (ordinal : Nat) (disposition : Option Disposition) : HostM Unit := do
  let state ← get
  .require (state.admissionFrontier = ordinal) (orderCorrupt ordinal state.admissionFrontier)
  set { state with
    pendingLogs := state.pendingLogs.erase ordinal
    admissionFrontier := state.admissionFrontier + 1 }
  if disposition = some .created then
    ((state.pendingLogs.get? ordinal).getD []).forM (emit answers)
  else
    return ()

/-- Optional members, after the others and in this order. -/
def eventWith (members : Fields) (more : List (String × Option Value)) : Value :=
  .object (members ++ present more)

def nodeSubmitted (ordinal : Nat) (dedupKey : String) (label : Option String) (admission : Admission) :
    Value :=
  eventWith [("type", .string "node-submitted"), ("flowRunId", .string host.flowRunId),
      ("ordinal", natValue ordinal), ("dedupKey", .string dedupKey),
      ("disposition", .string admission.disposition.asStr), ("taskUuid", .string admission.taskUuid),
      ("payloadHash", .string admission.payloadHash), ("attempt", natValue admission.attempt.toNat)]
    [("label", label.map .string), ("taskRef", admission.taskRef.map .string)]

def nodeTerminal (ordinal : Nat) (dedupKey : String) (result : NodeResult) : Value :=
  eventWith [("type", .string "node-terminal"), ("flowRunId", .string host.flowRunId),
      ("ordinal", natValue ordinal), ("dedupKey", .string dedupKey),
      ("disposition", .string result.disposition.asStr), ("taskUuid", .string result.taskUuid),
      ("verdict", .string result.verdict.asStr), ("witnessSeq", natValue result.witnessSeq)]
    [("exitCode", result.exitCode.map intValue), ("taskRef", result.taskRef.map .string),
      ("stderrExcerpt", result.stderrExcerpt.map .string),
      ("stderrTruncated", result.stderrTruncated.map .bool),
      ("errorCode", result.error.map fun error => .string error.code)]

/-! ## Results -/

def executorValidationFailureCode : String := "executor-validation-failed"

def retryableProjectionCode : String := "retryable-projection"

def resultProjectionTimeoutCode : String := "result-projection-timeout"

def nodeError (plan : SubmissionPlan) (name code message : String) : FlowError :=
  ((FlowError.new name code message).at plan.location).withOrdinal plan.ordinal

def validateTerminalResult (plan : SubmissionPlan) (result : NodeResult) (admission : Admission) :
    Except FlowError Unit := do
  ensure (result.taskUuid = admission.taskUuid)
    (nodeError plan "FlowProtocolError" "terminal-task-mismatch" ("terminal result names task " ++
      result.taskUuid ++ " but admission named " ++ admission.taskUuid))
  ensure (result.witnessSeq ≠ 0)
    (nodeError plan "FlowProtocolError" "terminal-witness-invalid"
      "terminal result witnessSeq must be positive")

/-- What the library for JSON schemas finds wrong with a value, each with its place. -/
class Validators extends Schemas where
  iterErrors : Value → Value → List (String × String)

export Validators (iterErrors)

variable [Validators]

def validateInstance (schema value : Value) (name code message : String) (location : SourceLocation) :
    Except FlowError Unit := do
  (validatorFor schema).mapError fun error =>
    (FlowError.new "FlowSchemaError" "json-schema-invalid" ("invalid JSON Schema: " ++ error)).at location
  let errors := (iterErrors schema value).map fun (path, error) => path ++ ": " ++ error
  ensure (errors = [])
    (((FlowError.new name code (message ++ ": " ++ "; ".intercalate errors)).at location).detail
      "errors" (strings errors))

/-- The check of a result against the schema of its node. -/
def validateResult (plan : SubmissionPlan) (schema : Value) (result : NodeResult) : Except FlowError Unit :=
  match result.result with
  | some value =>
    (validateInstance schema value "FlowResultError" "result-schema-mismatch"
      "node result does not match resultSchema" plan.location).mapError (·.withOrdinal plan.ordinal)
  | none =>
    match result.error.filter fun error => error.code = retryableProjectionCode with
    | some error =>
      throw ((nodeError plan "FlowResultError" retryableProjectionCode error.message).detail
        "projection" error.toValue)
    | none =>
      match result.error.filter fun error => error.code = resultProjectionTimeoutCode with
      | none =>
        throw (nodeError plan "FlowResultError" "result-schema-mismatch"
          "node returned no structured result")
      | some error =>
        throw ((nodeError plan "FlowResultError" "result-schema-mismatch" error.message).detail
          "projection" error.toValue)

/-- A result that waits to be observed: the one that the event names, and what the future ends with. -/
structure Settled where
  result : NodeResult
  outcome : Except FlowError NodeResult

/-- Fail with the error, or hand the result over if the script asked for that. -/
def orSettle (plan : SubmissionPlan) (result : NodeResult) (error : FlowError) : Settled where
  result := result
  outcome := if plan.settle then .ok result else .error error

def settleVerdict (plan : SubmissionPlan) (result : NodeResult) : Settled :=
  if result.verdict = .cancelled then
    orSettle plan result (((nodeError plan "FlowCancelledError" "flow-cancelled"
      ("node " ++ result.taskUuid ++ " was cancelled")).detail
        "taskUuid" (.string result.taskUuid)).detail "node" result.toValue)
  else if result.verdict.isPass then
    ⟨result, .ok result⟩
  else
    orSettle plan result ((((nodeError plan "FlowTerminalError" "terminal-failure"
      ("node " ++ result.taskUuid ++ " completed with verdict " ++ result.verdict.debug)).detail
        "taskUuid" (.string result.taskUuid)).detail
        "verdict" (.string result.verdict.asStr)).detail "node" result.toValue)

/-- What a result that passed `validate_terminal_result` comes to. -/
def settleResult (plan : SubmissionPlan) (result : NodeResult) : Settled :=
  match result.error.filter fun error => error.code = executorValidationFailureCode with
  | some error =>
    orSettle plan result (((nodeError plan "FlowExecutionError" executorValidationFailureCode
      error.message).detail "executor" error.toValue).detail "node" result.toValue)
  | none =>
    match plan.resultSchema with
    | none =>
      let projection := result.error.any fun error =>
        error.code = resultProjectionTimeoutCode ∨ error.code = retryableProjectionCode
      settleVerdict plan (if projection then { result with error := none } else result)
    | some schema =>
      match validateResult plan schema result with
      | .ok () => settleVerdict plan result
      | .error error =>
        orSettle plan
          { result with error := some ⟨error.code, error.message, some (.object error.details)⟩ } error

/-! ## Futures -/

/-- What a future of `execute_submission` waits for. -/
inductive Execution
  | admission (plan : SubmissionPlan)
  | submit (plan : SubmissionPlan)
  | terminal (plan : SubmissionPlan) (admission : Admission)
  | observation (plan : SubmissionPlan) (settled : Settled) (token : Nat)
  | finished (plan : SubmissionPlan) (outcome : Except FlowError NodeResult)

def Execution.plan : Execution → SubmissionPlan
  | admission plan | submit plan | terminal plan _ | observation plan _ _ | finished plan _ => plan

/-- `observe`, up to where it waits. -/
def registerObservation (witnessSeq ordinal : Nat) : HostM Nat := do
  let state ← get
  let token := state.nextObservationToken
  set { state with
    nextObservationToken := token + 1
    readyObservations := state.readyObservations.insert (toLex (witnessSeq, ordinal)) token }
  return token

def pollObservation (plan : SubmissionPlan) (settled : Settled) (token : Nat) : HostM Execution := do
  let state ← get
  match state.fatal with
  | some error => throw error
  | none =>
    if token ∈ state.grantedObservations then
      set { state with grantedObservations := state.grantedObservations.erase token }
      emit answers (nodeTerminal host plan.ordinal plan.submission.dedupKey settled.result)
      return .finished plan settled.outcome
    else
      return .observation plan settled token

/-- What follows the terminal result. -/
def observeResult (plan : SubmissionPlan) (admission : Admission) (result : NodeResult) :
    HostM Execution := do
  let result := { result with disposition := admission.disposition }
  Eff.ofExcept (validateTerminalResult plan result admission)
  let settled := settleResult plan result
  let token ← registerObservation settled.result.witnessSeq plan.ordinal
  pollObservation host answers plan settled token

def pollTerminal (plan : SubmissionPlan) (admission : Admission) : HostM Execution :=
  match answers.awaitTerminal admission.taskUuid admission.attempt with
  | none => return .terminal plan admission
  | some (.error error) => throw (error.intoFlow plan.location plan.ordinal)
  | some (.ok result) => observeResult host answers plan admission result

/-- What follows an admission that the frontier has passed. -/
def terminalResult (plan : SubmissionPlan) (admission : Admission) : HostM Execution :=
  match admission.terminal, admission.disposition with
  | some result, _ => observeResult host answers plan admission result
  | none, .created | none, .attached => pollTerminal host answers plan admission
  | none, disposition =>
    throw (nodeError plan "FlowProtocolError" "terminal-result-missing" (disposition.debug ++
      " admission for ordinal " ++ toString plan.ordinal ++ " omitted its terminal result"))

/-- The error codes that end a run. -/
def fatalReplay : List String :=
  ["replay-divergence", "script-changed-mid-run", "args-changed-mid-run", "catalog-changed-mid-run"]

def hashMismatch (plan : SubmissionPlan) (admission : Admission) : FlowError :=
  let label := plan.submission.spec.label
  withRecoveryFacts (if admission.disposition = .created then
    (((nodeError plan "FlowContractError" "payload-hash-contract-drift" ("ordinal " ++
      toString plan.ordinal ++ " (" ++ label.getD "<unlabelled>" ++ ") hashed to " ++
      plan.submission.payloadHash ++ " in the flow runner but " ++ admission.payloadHash ++
      " in the daemon")).detail "expectedHash" (.string plan.submission.payloadHash)).detail
      "recordedHash" (.string admission.payloadHash)).detail "label" (.string (label.getD ""))
  else
    ((supersessionError "replay-divergence" ("ordinal " ++ toString plan.ordinal ++
      " re-derived payload " ++ plan.submission.payloadHash ++ " but the ledger recorded " ++
      admission.payloadHash) {
        flowRunId := host.flowRunId
        recordedHash := some admission.payloadHash
        currentHash := some plan.submission.payloadHash
        recordedLabel := some (admission.recordedLabel.getD "")
        currentLabel := some (label.getD "")
        taskUuid := some admission.taskUuid }).at plan.location).withOrdinal plan.ordinal)

/-- What follows the answer to a submission. -/
def admitted (plan : SubmissionPlan) : Except ClientError Admission → HostM Execution
  | .error error => do
    let flowError := error.intoFlow plan.location plan.ordinal
    if error.code ∈ fatalReplay then modify (setFatal flowError)
    else finishAdmission answers plan.ordinal none
    throw flowError
  | .ok admission =>
    if admission.schemaVersion ≠ 1 then do
      finishAdmission answers plan.ordinal (some admission.disposition)
      throw ((nodeError plan "FlowProtocolError" "enqueue-schema-unsupported"
        ("enqueue response schema version " ++ toString admission.schemaVersion ++
          " is unsupported")).detail "schemaVersion" (natValue admission.schemaVersion.toNat))
    else if admission.payloadHash ≠ plan.submission.payloadHash then do
      modify (setFatal (hashMismatch host plan admission))
      throw (hashMismatch host plan admission)
    else do
      finishAdmission answers plan.ordinal (some admission.disposition)
      emit answers (nodeSubmitted host plan.ordinal plan.submission.dedupKey plan.submission.spec.label
        admission)
      terminalResult host answers plan admission

def pollSubmit (plan : SubmissionPlan) : HostM Execution :=
  match answers.submit plan.submission with
  | none => return .submit plan
  | some answer => admitted host answers plan answer

def pollAdmission (plan : SubmissionPlan) : HostM Execution := do
  let state ← get
  match state.fatal with
  | some error => throw error
  | none =>
    if state.admissionFrontier = plan.ordinal then
      set { state with submits := state.submits ++ [plan.submission] }
      pollSubmit host answers plan
    else
      return .admission plan

def pollPhase : Execution → HostM Execution
  | .admission plan => pollAdmission host answers plan
  | .submit plan => pollSubmit host answers plan
  | .terminal plan admission => pollTerminal host answers plan admission
  | .observation plan settled token => pollObservation host answers plan settled token
  | .finished plan outcome => return .finished plan outcome

/-- One poll of a future. An error ends it. -/
def poll (execution : Execution) (state : HostState) : Execution × HostState :=
  match (pollPhase host answers execution).exec state with
  | (.ok next, state) => (next, state)
  | (.error error, state) => (.finished execution.plan (.error error), state)

end Host

/-! ## Releasing observations -/

def hasReadyObservation (state : HostState) : Bool :=
  state.admissionFrontier = state.nextOrdinal && !state.readyObservations.entries.isEmpty

def releaseReadyObservation (state : HostState) : HostState :=
  if state.admissionFrontier ≠ state.nextOrdinal then
    state
  else
    match state.readyObservations.entries with
    | [] => state
    | (key, token) :: _ =>
      { state with
        readyObservations := state.readyObservations.erase key
        grantedObservations := token :: state.grantedObservations
        observationOrder := state.observationOrder ++ [(ofLex key).1] }

end Tally.Flow
