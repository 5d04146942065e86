import Tally.Lib.JsonSize
import Tally.Lib.Result
import Tally.Poolset
import Tally.Uuid
import Tally.Lease.Basic
import Tally.Recovery.Basic
import Tally.Witness.Record

/-!
# Records of the journal

The fields of a lifecycle record (`journal.rs`), their check, and the two forms in which a record is
sent: one line of JSON, in which text is escaped, and a native packet, in which it is not.
-/

namespace Tally.Journal

open Tally.Lib
open Tally.Lease (Priority)
open Tally.Recovery (LaborClass)
open Tally.Witness (EnqueueSource F64)

def journalIdentifier : String := "tally"

def maxNativeRecordBytes : Nat := 64 * 1024

def maxStdoutRecordBytes : Nat := 48 * 1024

/-! ## Events -/

inductive TallyEvent
  | enqueued
  | dispatched
  | started
  | heartbeat
  | preempted
  | resumed
  | completed
  | failed
  | evidencePass
  | evidenceFail
  | witnessEmitted
  deriving DecidableEq

namespace TallyEvent

def asStr : TallyEvent → String
  | enqueued => "enqueued"
  | dispatched => "dispatched"
  | started => "started"
  | heartbeat => "heartbeat"
  | preempted => "preempted"
  | resumed => "resumed"
  | completed => "completed"
  | failed => "failed"
  | evidencePass => "evidence_pass"
  | evidenceFail => "evidence_fail"
  | witnessEmitted => "witness_emitted"

def rank : TallyEvent → Nat
  | enqueued => 0
  | dispatched => 1
  | started => 2
  | heartbeat => 3
  | preempted => 4
  | resumed => 5
  | completed => 6
  | failed => 7
  | evidencePass => 8
  | evidenceFail => 9
  | witnessEmitted => 10

def isEvidence (event : TallyEvent) : Bool := event = evidencePass ∨ event = evidenceFail

end TallyEvent

inductive JournalProjectionScope
  | attempt
  | task
  | pass
  | campaign
  deriving DecidableEq

def JournalProjectionScope.asStr : JournalProjectionScope → String
  | attempt => "attempt"
  | task => "task"
  | pass => "pass"
  | campaign => "campaign"

def priorityStr : Priority → String
  | .interrupt => "interrupt"
  | .high => "high"
  | .medium => "medium"
  | .low => "low"

def laborClassStr : LaborClass → String
  | .fresh => "fresh"
  | .recovered => "recovered"
  | .reused => "reused"
  | .substituted => "substituted"

/-! ## Fields -/

/-- The two texts of a double: the one of JSON, for numbers that are finite, and the one of
`Display`, which writes all digits out, at most a few hundred. -/
class FloatTexts where
  json : F64 → Number
  display : F64 → String
  display_le : ∀ x, (encode (display x).toList).length ≤ 400

structure TallyFields where
  syslogIdentifier : String
  event : TallyEvent
  taskUuid : String
  taskRef : Option String
  journalScope : Option String
  projectionScope : Option JournalProjectionScope
  priority : Priority
  source : EnqueueSource
  message : String
  agent : Option String
  sessionRef : Option String
  unit : Option String
  exitCode : Option Int
  stderrTail : Option String
  stderrTruncated : Option Bool
  gpuSeconds : Option F64
  contextTokens : Option Nat
  contextWindow : Option Nat
  artifactHash : Option String
  evidence : Option String
  attempt : Option Nat
  leaseEpoch : Option Nat
  laborClass : Option LaborClass
  jobId : Option String
  parent : Option String
  pools : Option (List String)
  executor : Option String

inductive FieldName
  | syslogIdentifier
  | event
  | taskUuid
  | taskRef
  | journalScope
  | projectionScope
  | priority
  | source
  | message
  | agent
  | attempt
  | leaseEpoch
  | unit
  | sessionRef
  | exitCode
  | stderrTail
  | stderrTruncated
  | gpuSeconds
  | contextTokens
  | contextWindow
  | laborClass
  | artifactHash
  | evidence
  | jobId
  | parent
  | pool
  | executor
  deriving DecidableEq

def FieldName.text : FieldName → String
  | syslogIdentifier => "SYSLOG_IDENTIFIER"
  | event => "TALLY_EVENT"
  | taskUuid => "TALLY_TASK_UUID"
  | taskRef => "TALLY_TASK_REF"
  | journalScope => "TALLY_JOURNAL_SCOPE"
  | projectionScope => "TALLY_PROJECTION_SCOPE"
  | priority => "TALLY_CLASS"
  | source => "TALLY_SOURCE"
  | message => "MESSAGE"
  | agent => "TALLY_AGENT"
  | attempt => "TALLY_ATTEMPT"
  | leaseEpoch => "TALLY_LEASE_EPOCH"
  | unit => "TALLY_UNIT"
  | sessionRef => "TALLY_SESSION_REF"
  | exitCode => "TALLY_EXIT_CODE"
  | stderrTail => "TALLY_STDERR_TAIL"
  | stderrTruncated => "TALLY_STDERR_TRUNCATED"
  | gpuSeconds => "TALLY_GPU_SECONDS"
  | contextTokens => "TALLY_CONTEXT_TOKENS"
  | contextWindow => "TALLY_CONTEXT_WINDOW"
  | laborClass => "TALLY_LABOR_CLASS"
  | artifactHash => "TALLY_ARTIFACT_HASH"
  | evidence => "TALLY_EVIDENCE"
  | jobId => "TALLY_JOB_ID"
  | parent => "TALLY_PARENT"
  | pool => "TALLY_POOL"
  | executor => "TALLY_EXECUTOR"

inductive FieldRequirement
  | always
  | atDispatch
  | atStart
  | atCompleted
  | atCompletedOrFailed
  | atEvidence
  | conditional
  deriving DecidableEq

def tallyFieldMatrix : List (FieldName × FieldRequirement) :=
  [(.syslogIdentifier, .always),
   (.event, .always),
   (.taskUuid, .always),
   (.taskRef, .conditional),
   (.journalScope, .conditional),
   (.projectionScope, .conditional),
   (.priority, .always),
   (.source, .always),
   (.message, .always),
   (.agent, .atDispatch),
   (.attempt, .atDispatch),
   (.leaseEpoch, .atDispatch),
   (.unit, .atStart),
   (.sessionRef, .conditional),
   (.exitCode, .atCompletedOrFailed),
   (.stderrTail, .conditional),
   (.stderrTruncated, .conditional),
   (.gpuSeconds, .conditional),
   (.contextTokens, .conditional),
   (.contextWindow, .conditional),
   (.laborClass, .atCompletedOrFailed),
   (.artifactHash, .atCompleted),
   (.evidence, .atEvidence),
   (.jobId, .conditional),
   (.parent, .conditional),
   (.pool, .conditional),
   (.executor, .conditional)]

def required (requirement : FieldRequirement) (event : TallyEvent) : Bool :=
  match requirement with
  | .always => true
  | .atDispatch => TallyEvent.dispatched.rank ≤ event.rank
  | .atStart => TallyEvent.started.rank ≤ event.rank
  | .atCompleted => event = .completed
  | .atCompletedOrFailed => event = .completed ∨ event = .failed
  | .atEvidence => event.isEvidence
  | .conditional => false

/-- `as_deref().is_some_and(|value| !value.is_empty())`. -/
def isSomeNonempty (value : Option String) : Bool := value.any fun value => value ≠ ""

def fieldPresent (fields : TallyFields) : FieldName → Bool
  | .syslogIdentifier => fields.syslogIdentifier ≠ ""
  | .event | .priority | .source => true
  | .taskUuid => fields.taskUuid ≠ ""
  | .taskRef => fields.taskRef.isSome
  | .journalScope => isSomeNonempty fields.journalScope
  | .projectionScope => fields.projectionScope.isSome
  | .message => fields.message ≠ ""
  | .agent => isSomeNonempty fields.agent
  | .sessionRef => isSomeNonempty fields.sessionRef
  | .unit => isSomeNonempty fields.unit
  | .exitCode => fields.exitCode.isSome
  | .stderrTail => fields.stderrTail.isSome
  | .stderrTruncated => fields.stderrTruncated.isSome
  | .gpuSeconds => fields.gpuSeconds.isSome
  | .contextTokens => fields.contextTokens.isSome
  | .contextWindow => fields.contextWindow.isSome
  | .artifactHash => isSomeNonempty fields.artifactHash
  | .evidence => isSomeNonempty fields.evidence
  | .attempt => fields.attempt.isSome
  | .leaseEpoch => fields.leaseEpoch.isSome
  | .laborClass => fields.laborClass.isSome
  | .jobId => isSomeNonempty fields.jobId
  | .parent => isSomeNonempty fields.parent
  | .pool => fields.pools.any fun pools => !pools.isEmpty
  | .executor => isSomeNonempty fields.executor

/-! ## The check -/

inductive JournalError
  | invalid (text : String)
  | json (text : String)
  | tooLarge (size limit : Nat)
  deriving DecidableEq

/-- The fields whose text is checked. -/
def stringFields (fields : TallyFields) : List (FieldName × String) :=
  let optional (name : FieldName) (value : Option String) : List (FieldName × String) :=
    value.toList.map fun value => (name, value)
  [(.syslogIdentifier, fields.syslogIdentifier), (.taskUuid, fields.taskUuid),
    (.message, fields.message)] ++
  optional .taskRef fields.taskRef ++
  optional .journalScope fields.journalScope ++
  optional .agent fields.agent ++
  optional .sessionRef fields.sessionRef ++
  optional .unit fields.unit ++
  optional .stderrTail fields.stderrTail ++
  optional .artifactHash fields.artifactHash ++
  optional .evidence fields.evidence ++
  optional .jobId fields.jobId ++
  optional .parent fields.parent ++
  optional .executor fields.executor ++
  (fields.pools.getD []).map fun pool => (.pool, pool)

def checkPresence (fields : TallyFields) : Except JournalError Unit :=
  tallyFieldMatrix.forM fun (name, requirement) =>
    ensure (required requirement fields.event → fieldPresent fields name)
      (.invalid ("event " ++ debugText fields.event.asStr ++ " requires " ++ name.text))

def checkPools (fields : TallyFields) : Except JournalError Unit :=
  match fields.pools with
  | none => return ()
  | some pools => do
    let canonical ← (Poolset.canonicalize pools).mapError fun error => .invalid error.message
    ensure (canonical = pools) (.invalid "TALLY_POOL set must be in canonical order")

def checkScope (fields : TallyFields) : Except JournalError Unit := do
  ensure (∀ scope ∈ fields.journalScope, (Nibbles.parseStr scope).isSome)
    (.invalid "TALLY_JOURNAL_SCOPE must be a UUID string")
  ensure (fields.projectionScope.isSome → fields.journalScope.isSome)
    (.invalid "TALLY_PROJECTION_SCOPE requires TALLY_JOURNAL_SCOPE")
  match fields.projectionScope with
  | some .attempt =>
    ensure (fields.taskRef.isSome ∧ fields.attempt.isSome)
      (.invalid "attempt-scoped journal projections require TALLY_TASK_REF and TALLY_ATTEMPT")
  | some .task =>
    ensure fields.taskRef.isSome
      (.invalid "task-scoped journal projections require TALLY_TASK_REF")
  | some .pass | some .campaign =>
    ensure fields.taskRef.isNone
      (.invalid "pass- and campaign-scoped journal projections must not carry TALLY_TASK_REF")
  | none => return ()

/-- Text in lines is sent in the message and in the tail of the capture only. -/
def checkText (name : FieldName) (value : String) : Except JournalError Unit := do
  ensure ('\x00' ∉ value.toList) (.invalid (name.text ++ " contains a NUL byte"))
  ensure (name = .message ∨ name = .stderrTail ∨ value.toList.any isControl = false)
    (.invalid (name.text ++ " contains a control character"))

def captureExcerptFramingMargin : Nat := 16 * 1024

def captureExcerptMaxBytes : Nat := maxStdoutRecordBytes - captureExcerptFramingMargin

def checkStderr (fields : TallyFields) : Except JournalError Unit :=
  match fields.stderrTail, fields.stderrTruncated with
  | some tail, some _ => do
    ensure (fields.event = .failed) (.invalid "TALLY_STDERR_TAIL is valid only on failed events")
    ensure ((encode tail.toList).length ≤ captureExcerptMaxBytes)
      (.invalid ("TALLY_STDERR_TAIL exceeds " ++ toString captureExcerptMaxBytes ++ " bytes"))
  | none, none => return ()
  | _, _ =>
    .error (.invalid "TALLY_STDERR_TAIL and TALLY_STDERR_TRUNCATED must appear together")

def checkNumbers (fields : TallyFields) : Except JournalError Unit := do
  ensure (∀ seconds ∈ fields.gpuSeconds, seconds.isFinite ∧ ¬seconds.isNegative)
    (.invalid "TALLY_GPU_SECONDS must be finite and non-negative")
  ensure (fields.attempt ≠ some 0) (.invalid "TALLY_ATTEMPT must be positive")
  ensure (fields.leaseEpoch ≠ some 0) (.invalid "TALLY_LEASE_EPOCH must be positive")

def validateFields (fields : TallyFields) : Except JournalError Unit := do
  ensure (fields.syslogIdentifier = journalIdentifier)
    (.invalid ("SYSLOG_IDENTIFIER must be " ++ debugText journalIdentifier))
  checkPresence fields
  checkPools fields
  checkScope fields
  (stringFields fields).forM fun (name, value) => checkText name value
  ensure (∀ code ∈ fields.exitCode, 0 ≤ code) (.invalid "TALLY_EXIT_CODE must be non-negative")
  checkStderr fields
  checkNumbers fields

/-! ## The line of JSON -/

/-- `poolset::encoded`. -/
def encodedPools : List String → String
  | [pool] => pool
  | pools => String.ofList (render (.array (pools.map .string)))

/-- A member that is left out where there is no value. -/
def optionalMember {α : Type} (name : FieldName) (value : Option α) (toValue : α → Value) : Fields :=
  value.toList.map fun value => (name.text, toValue value)

variable [FloatTexts]

/-- The members of a record in the order of its declaration. -/
def members (fields : TallyFields) : Fields :=
  [(FieldName.syslogIdentifier.text, .string fields.syslogIdentifier),
    (FieldName.event.text, .string fields.event.asStr),
    (FieldName.taskUuid.text, .string fields.taskUuid)] ++
  optionalMember .taskRef fields.taskRef .string ++
  optionalMember .journalScope fields.journalScope .string ++
  optionalMember .projectionScope fields.projectionScope (fun scope => .string scope.asStr) ++
  [(FieldName.priority.text, .string (priorityStr fields.priority)),
    (FieldName.source.text, .string fields.source.asStr),
    (FieldName.message.text, .string fields.message)] ++
  optionalMember .agent fields.agent .string ++
  optionalMember .sessionRef fields.sessionRef .string ++
  optionalMember .unit fields.unit .string ++
  optionalMember .exitCode fields.exitCode (fun code => .number (.ofInt code)) ++
  optionalMember .stderrTail fields.stderrTail .string ++
  optionalMember .stderrTruncated fields.stderrTruncated .bool ++
  optionalMember .gpuSeconds fields.gpuSeconds (fun seconds => .number (FloatTexts.json seconds)) ++
  optionalMember .contextTokens fields.contextTokens (fun n => .number (.ofNat n)) ++
  optionalMember .contextWindow fields.contextWindow (fun n => .number (.ofNat n)) ++
  optionalMember .artifactHash fields.artifactHash .string ++
  optionalMember .evidence fields.evidence .string ++
  optionalMember .attempt fields.attempt (fun n => .number (.ofNat n)) ++
  optionalMember .leaseEpoch fields.leaseEpoch (fun n => .number (.ofNat n)) ++
  optionalMember .laborClass fields.laborClass (fun labor => .string (laborClassStr labor)) ++
  optionalMember .jobId fields.jobId .string ++
  optionalMember .parent fields.parent .string ++
  optionalMember .pool fields.pools (fun pools => .string (encodedPools pools)) ++
  optionalMember .executor fields.executor .string

def carriageReturn : UInt8 := 13

def renderStdoutRecord (fields : TallyFields) : Except JournalError Bytes := do
  validateFields fields
  let bytes := encode (render (.object (members fields)))
  ensure (lf ∉ bytes ∧ carriageReturn ∉ bytes)
    (.invalid "stdout journal JSON contains a literal line break")
  let bytes := bytes ++ [lf]
  ensure (bytes.length ≤ maxStdoutRecordBytes) (.tooLarge bytes.length maxStdoutRecordBytes)
  return bytes

/-! ## The native packet -/

def pushOptional {α : Type} (name : FieldName) (value : Option α) (toText : α → String) :
    List (FieldName × String) :=
  value.toList.map fun value => (name, toText value)

def nativeFields (fields : TallyFields) : List (FieldName × String) :=
  [(.syslogIdentifier, fields.syslogIdentifier),
    (.event, fields.event.asStr),
    (.taskUuid, fields.taskUuid),
    (.priority, priorityStr fields.priority),
    (.source, fields.source.asStr),
    (.message, fields.message)] ++
  pushOptional .taskRef fields.taskRef id ++
  pushOptional .journalScope fields.journalScope id ++
  pushOptional .projectionScope fields.projectionScope (·.asStr) ++
  pushOptional .agent fields.agent id ++
  pushOptional .sessionRef fields.sessionRef id ++
  pushOptional .unit fields.unit id ++
  pushOptional .exitCode fields.exitCode (fun code => String.ofList (Number.ofInt code).chars) ++
  pushOptional .stderrTail fields.stderrTail id ++
  pushOptional .stderrTruncated fields.stderrTruncated (fun b => if b then "true" else "false") ++
  pushOptional .gpuSeconds fields.gpuSeconds FloatTexts.display ++
  pushOptional .contextTokens fields.contextTokens (fun n => String.ofList (Number.ofNat n).chars) ++
  pushOptional .contextWindow fields.contextWindow (fun n => String.ofList (Number.ofNat n).chars) ++
  pushOptional .artifactHash fields.artifactHash id ++
  pushOptional .evidence fields.evidence id ++
  pushOptional .attempt fields.attempt (fun n => String.ofList (Number.ofNat n).chars) ++
  pushOptional .leaseEpoch fields.leaseEpoch (fun n => String.ofList (Number.ofNat n).chars) ++
  pushOptional .laborClass fields.laborClass laborClassStr ++
  pushOptional .jobId fields.jobId id ++
  pushOptional .parent fields.parent id ++
  pushOptional .pool fields.pools encodedPools ++
  pushOptional .executor fields.executor id

omit [FloatTexts] in
/-- `(n as u64).to_le_bytes()`. -/
def toLeBytes (n : Nat) : Bytes := (List.range 8).map fun i => UInt8.ofNat (n / 256 ^ i)

omit [FloatTexts] in
/-- A field with a line feed is sent with its length. -/
def nativeField (name : FieldName) (value : String) : Bytes :=
  let bytes := encode value.toList
  if lf ∈ bytes then encode name.text.toList ++ [lf] ++ toLeBytes bytes.length ++ bytes ++ [lf]
  else encode name.text.toList ++ encode ['='] ++ bytes ++ [lf]

def encodeNativeRecord (fields : TallyFields) : Except JournalError Bytes := do
  validateFields fields
  let packet := (nativeFields fields).flatMap fun (name, value) => nativeField name value
  ensure (packet.length ≤ maxNativeRecordBytes) (.tooLarge packet.length maxNativeRecordBytes)
  return packet

end Tally.Journal
