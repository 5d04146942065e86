import Tally.Lib.Json
import Tally.Lib.Chain
import Tally.Lib.Result
import Tally.Poolset
import Tally.Recovery.Basic

/-!
# Witness records

The record of `witness.jsonl` (`witness.rs`), the checks that a line has to pass and the hash of a
line. What comes from libraries is a parameter, `Libraries`: the reader of JSON text, the derived
decoder of a record, SHA-256, the text of floating point numbers and time stamps. Text is counted in
bytes where the source counts bytes of text that need not be ASCII.
-/

namespace Tally.Witness

open Tally.Lib
open Tally.Recovery (Verdict LaborClass)

/-! ## Data -/

/-- An IEEE 754 double, by its bits. -/
structure F64 where
  bits : BitVec 64
  deriving DecidableEq

namespace F64

def exponent (x : F64) : BitVec 11 := x.bits.extractLsb' 52 11

def isFinite (x : F64) : Bool := x.exponent != BitVec.allOnes 11

def isZero (x : F64) : Bool := x.bits.extractLsb' 0 63 == 0

/-- Less than zero, for a number that is finite. -/
def isNegative (x : F64) : Bool := x.bits.msb && !x.isZero

end F64

structure Charge where
  unit : String
  amount : F64
  className : String
  deriving DecidableEq

structure DerivationOutput where
  name : String
  path : String
  deriving DecidableEq

structure Derivation where
  drvPath : String
  outputs : List DerivationOutput
  deriving DecidableEq

inductive AuthorshipStatus
  | bound
  | unavailable
  | missingNote
  | mismatch
  | error
  deriving DecidableEq

structure Authorship where
  provider : String
  providerVersion : String
  noteRef : String
  status : AuthorshipStatus
  notesRefTarget : Option String
  noteContentSha256 : Option String
  reason : Option String
  deriving DecidableEq

structure AuthorshipSession where
  tool : String
  id : String
  model : String
  deriving DecidableEq

structure TerminalError where
  code : String
  message : String
  details : Option Value
  deriving DecidableEq

inductive EnqueueSource
  | manual
  | orchestrator
  | calendar
  | eventsDir
  | gh
  deriving DecidableEq

namespace EnqueueSource

def asStr : EnqueueSource → String
  | manual => "manual"
  | orchestrator => "orchestrator"
  | calendar => "calendar"
  | eventsDir => "events-dir"
  | gh => "gh"

def isProducer : EnqueueSource → Bool
  | calendar | eventsDir | gh => true
  | manual | orchestrator => false

end EnqueueSource

structure ProducerOrigin where
  name : String
  kind : String
  deriving DecidableEq

structure AdmissionOrigin where
  schemaVersion : Nat
  source : EnqueueSource
  producer : Option ProducerOrigin
  deriving DecidableEq

/-- The facts of a terminal transition. An orchestration capsule is its JSON, and a semantic
completion is kept as the JSON that it is written as. -/
structure WitnessBody where
  taskUuid : Option String
  transitionTimestamp : String
  verdict : Verdict
  exitCode : Int
  artifactContentHash : Option String
  storePaths : Option (List String)
  drv : Option Derivation
  gpuSeconds : Option F64
  wallClock : F64
  attempt : Nat
  leaseEpoch : Nat
  dedupKey : Option String
  payloadHash : Option String
  briefHash : Option String
  origin : AdmissionOrigin
  orchestration : Option Value
  laborClass : LaborClass
  traceRef : Option String
  pools : List String
  executor : Option String
  hostId : Option String
  charge : Option Charge
  model : Option String
  evidenceClass : Option Value
  manifestHash : Option Value
  completion : Option Value
  error : Option TerminalError
  resultRevision : Option String
  deriving DecidableEq

/-- What a line carries besides its place in the chain. -/
structure RecordContent extends WitnessBody where
  schemaVersion : Nat
  authorship : Option Authorship
  authorshipSessions : Option (List AuthorshipSession)
  extensions : Fields
  deriving DecidableEq

structure WitnessRecord extends RecordContent where
  seq : Nat
  prevHash : String
  hash : String
  deriving DecidableEq

abbrev ChainHead := Head String

def genesisPrevHash : String :=
  "sha256:0000000000000000000000000000000000000000000000000000000000000000"

def witnessSchemaVersion : Nat := 2

/-- `ChainHead::default()`. -/
def genesis : ChainHead := ⟨0, genesisPrevHash⟩

/-- The record as a link of the chain. -/
def recordLinks : Links WitnessRecord String where
  seq := (·.seq)
  prev := (·.prevHash)
  hash := (·.hash)

inductive VerifyProblemKind
  | parseError
  | invalidRecord
  | schemaVersionInvalid
  | recordTypeInvalid
  | hashMismatch
  | prevHashMismatch
  | seqOrder
  | seqGap
  | seqDuplicate
  deriving DecidableEq, Repr

inductive WitnessError
  | io (source : String)
  | corrupt (reason : String)
  | oldFormat
  | json (reason : String)
  deriving DecidableEq, Repr

def WitnessError.message : WitnessError → String
  | io source => "I/O error: " ++ source
  | corrupt reason => "ledger is corrupt: " ++ reason
  | oldFormat => "old-format witness ledger; archive it aside before first boot"
  | json reason => "cannot serialize ledger record: " ++ reason

/-! ## Libraries -/

/-- What the program takes from libraries. -/
class Libraries where
  /-- `serde_json::from_str::<Value>`. -/
  fromStr : List Char → Except String Value
  /-- `serde_json::from_value::<Value>`, which spells a number that is a double anew. -/
  decodeValue : Value → Except String Value
  /-- The digest of SHA-256 in lower-case hex. -/
  sha256 : Bytes → String
  /-- The derived decoder of the fields of a record other than those of the chain. -/
  decodeContent : Fields → Except String RecordContent
  /-- `serde_json::to_value` of a double. -/
  f64ToValue : F64 → Value
  /-- The double that a lexeme is read as is finite. -/
  isFiniteLexeme : Number → Bool
  /-- The lexeme of the double that a lexeme is read as. -/
  legacyF64 : Number → Except String Number
  /-- A time stamp, parsed as RFC 3339 and rendered in UTC with milliseconds. -/
  rfc3339Millis : String → Option String
  /-- `Uuid::parse_str(..).is_ok()`. -/
  isUuid : String → Bool

export Libraries (fromStr decodeValue sha256 decodeContent f64ToValue isFiniteLexeme legacyF64 rfc3339Millis
  isUuid)

variable [Libraries]

/-! ## Derived encoders -/

/-- The members that are not left out, in their order. -/
def present (members : List (String × Option Value)) : Fields :=
  members.filterMap fun (key, value) => value.map (key, ·)

def natValue (n : Nat) : Value := .number (.ofNat n)

def strings (values : List String) : Value := .array (values.map .string)

def Charge.toValue (charge : Charge) : Value :=
  .object [("unit", .string charge.unit), ("amount", f64ToValue charge.amount),
    ("class", .string charge.className)]

def Derivation.toValue (drv : Derivation) : Value :=
  .object [("drvPath", .string drv.drvPath),
    ("outputs", .array (drv.outputs.map fun output =>
      .object [("name", .string output.name), ("path", .string output.path)]))]

def AuthorshipStatus.asStr : AuthorshipStatus → String
  | bound => "bound"
  | unavailable => "unavailable"
  | missingNote => "missing-note"
  | mismatch => "mismatch"
  | error => "error"

def Authorship.toValue (authorship : Authorship) : Value :=
  .object (present [("provider", some (.string authorship.provider)),
    ("providerVersion", some (.string authorship.providerVersion)),
    ("noteRef", some (.string authorship.noteRef)),
    ("status", some (.string authorship.status.asStr)),
    ("notesRefTarget", authorship.notesRefTarget.map .string),
    ("noteContentSha256", authorship.noteContentSha256.map .string),
    ("reason", authorship.reason.map .string)])

def AuthorshipSession.toValue (session : AuthorshipSession) : Value :=
  .object [("tool", .string session.tool), ("id", .string session.id),
    ("model", .string session.model)]

def TerminalError.toValue (error : TerminalError) : Value :=
  .object (present [("code", some (.string error.code)), ("message", some (.string error.message)),
    ("details", error.details)])

def ProducerOrigin.toValue (producer : ProducerOrigin) : Value :=
  .object [("name", .string producer.name), ("kind", .string producer.kind)]

def AdmissionOrigin.toValue (origin : AdmissionOrigin) : Value :=
  .object (present [("schemaVersion", some (natValue origin.schemaVersion)),
    ("source", some (.string origin.source.asStr)),
    ("producer", origin.producer.map ProducerOrigin.toValue)])

def verdictStr : Verdict → String
  | .pass => "pass"
  | .cleanExitNoArtifact => "clean-exit-no-artifact"
  | .failed => "failed"
  | .cancelled => "cancelled"
  | .reused => "reused"
  | .poolVanished => "pool-vanished"
  | .preempted => "preempted"
  | .runtimeExceeded => "runtime-exceeded"
  | .substituted => "substituted"

def laborClassStr : LaborClass → String
  | .fresh => "fresh"
  | .recovered => "recovered"
  | .reused => "reused"
  | .substituted => "substituted"

def RecordContent.toFields (content : RecordContent) : Fields :=
  present [("schemaVersion", some (natValue content.schemaVersion)),
    ("recordType", some (.string "verdict")),
    ("transitionTimestamp", some (.string content.transitionTimestamp)),
    ("taskUuid", content.taskUuid.map .string),
    ("verdict", some (.string (verdictStr content.verdict))),
    ("exitCode", some (.number (.ofInt content.exitCode))),
    ("artifactContentHash", content.artifactContentHash.map .string),
    ("storePaths", content.storePaths.map strings),
    ("drv", content.drv.map Derivation.toValue),
    ("gpuSeconds", content.gpuSeconds.map f64ToValue),
    ("wallClock", some (f64ToValue content.wallClock)),
    ("attempt", some (natValue content.attempt)),
    ("leaseEpoch", some (natValue content.leaseEpoch)),
    ("dedupKey", content.dedupKey.map .string),
    ("payloadHash", content.payloadHash.map .string),
    ("briefHash", content.briefHash.map .string),
    ("origin", some content.origin.toValue),
    ("orchestration", content.orchestration),
    ("laborClass", some (.string (laborClassStr content.laborClass))),
    ("traceRef", content.traceRef.map .string),
    ("pools", some (strings content.pools)),
    ("executor", content.executor.map .string),
    ("hostId", content.hostId.map .string),
    ("charge", content.charge.map Charge.toValue),
    ("model", content.model.map .string),
    ("evidenceClass", content.evidenceClass),
    ("manifestHash", content.manifestHash),
    ("completion", content.completion),
    ("error", content.error.map TerminalError.toValue),
    ("resultRevision", content.resultRevision.map .string),
    ("authorship", content.authorship.map Authorship.toValue),
    ("authorshipSessions", content.authorshipSessions.map fun sessions =>
      .array (sessions.map AuthorshipSession.toValue))] ++ content.extensions

def WitnessRecord.toFields (record : WitnessRecord) : Fields :=
  record.toRecordContent.toFields ++ [("seq", natValue record.seq),
    ("prevHash", .string record.prevHash), ("hash", .string record.hash)]

/-! ## Shapes of text -/

def isLowerHex (c : Char) : Bool := c.isDigit || ('a' ≤ c && c ≤ 'f')

def sha256Shape (value : String) : Bool :=
  value.length == 71 && "sha256:".toList.isPrefixOf value.toList &&
    (value.toList.drop 7).all isLowerHex

def gitOidShape (value : String) : Bool :=
  (value.length == 40 || value.length == 64) && value.toList.all isLowerHex

/-- `str::split_once`. -/
def splitOnce (sep : Char) (text : List Char) : Option (List Char × List Char) :=
  if sep ∈ text then some (text.takeWhile (· ≠ sep), (text.dropWhile (· ≠ sep)).tail) else none

def isAsciiAlphanumeric (c : Char) : Bool :=
  c.isDigit || ('a' ≤ c && c ≤ 'z') || ('A' ≤ c && c ≤ 'Z')

def isStoreHashChar (c : Char) : Bool :=
  c.isDigit || ('a' ≤ c && c ≤ 'd') || ('f' ≤ c && c ≤ 'n') || ('p' ≤ c && c ≤ 's') ||
    ('v' ≤ c && c ≤ 'z')

def isStoreNameChar (c : Char) : Bool :=
  isAsciiAlphanumeric c || c == '+' || c == '.' || c == '_' || c == '?' || c == '=' || c == '-'

def isNixStorePath (value : String) : Bool :=
  if "/nix/store/".toList.isPrefixOf value.toList then
    match splitOnce '-' (value.toList.drop 11) with
    | none => false
    | some (hash, name) =>
      hash.length == 32 && hash.all isStoreHashChar && !name.isEmpty && name.all isStoreNameChar
  else false

/-- A name that is safe as a component of a path. -/
def isComponent (limit : Nat) (value : List Char) : Bool :=
  decide (value.length ≤ limit) &&
    (value.head?.any fun c => isAsciiAlphanumeric c || c == '_') &&
    value.all fun c => isAsciiAlphanumeric c || c == '_' || c == '.' || c == '-'

def registryComponentShape (value : String) : Bool :=
  value != "" && value != "." && value != ".." && isComponent 96 value.toList

def validateHostId (value : String) : Except String Unit := do
  ensure (value ≠ "") "hostId must be non-empty"
  ensure (value.utf8ByteSize ≤ 96) "hostId must be at most 96 bytes"
  ensure (value.toList.any isControl = false) "hostId must contain no control characters"

/-! ## Checks of the parts -/

/-- The pairs of neighbours are in strict order. -/
def strictlyAscending : List String → Bool
  | a :: b :: rest => decide (a < b) && strictlyAscending (b :: rest)
  | _ => true

def Derivation.validate (drv : Derivation) : Except String Unit := do
  ensure (isNixStorePath drv.drvPath ∧ ".drv".toList.isSuffixOf drv.drvPath.toList)
    "drvPath must be a Nix store path ending in .drv"
  ensure (drv.outputs ≠ []) "drv outputs must be non-empty"
  ensure (drv.outputs.all fun output => isNixStorePath output.path)
    "drv output path is not a Nix store path"
  ensure (strictlyAscending (drv.outputs.map (·.name)))
    "drv outputs must be sorted by name and unique"

def Derivation.canonicalize (drv : Derivation) : Except String Derivation := do
  let drv := { drv with outputs := drv.outputs.insertionSort fun a b => a.name ≤ b.name }
  drv.validate
  return drv

def TerminalError.validate (error : TerminalError) : Except String Unit := do
  ensure (error.code ≠ "" ∧ error.code.length ≤ 64 ∧
      error.code.toList.all fun c => ('a' ≤ c && c ≤ 'z') || c.isDigit || c == '-')
    "error code must be a non-empty lowercase kebab-case scalar of at most 64 bytes"
  ensure (error.message ≠ "" ∧ error.message.utf8ByteSize ≤ 4096 ∧
      error.message.toList.any isControl = false)
    "error message must be non-empty, at most 4096 bytes, and contain no control characters"
  ensure (error.details.all fun details =>
      match details with
      | .object _ => (encode (render details)).length ≤ 16 * 1024
      | _ => false)
    "error details must be an object of at most 16384 encoded bytes"

def AdmissionOrigin.validate (origin : AdmissionOrigin) : Except String Unit := do
  ensure (origin.schemaVersion = 1)
    ("invalid durable row seed: origin has unsupported schema version " ++ origin.schemaVersion.repr)
  match origin.producer with
  | none => return
  | some producer =>
    ensure (registryComponentShape producer.name)
      "invalid durable row seed: origin producer name is not a safe registry component"
    ensure (origin.source.isProducer ∧ producer.kind = origin.source.asStr)
      "invalid durable row seed: origin producer kind does not match its admission source"

/-! ## Orchestration capsules -/

def asStr : Value → Option String
  | .string s => some s
  | _ => none

def asU64 : Value → Option Nat
  | .number n => n.asU64
  | _ => none

def asObject : Value → Option Fields
  | .object fields => some fields
  | _ => none

def specBuildRoles : List String :=
  ["agent", "checkpoint-record", "cleanup", "constraint", "continue", "diagnosis", "escalate", "gate",
    "merge", "ownership", "prep", "publish", "rebase", "reconcile", "retry", "steering", "sweep"]

def validateTaskRefComponent (label : String) (value : List Char) : Except String Unit :=
  ensure (isComponent 80 value)
    ("taskRef " ++ label ++ " must start with an ASCII letter, digit, or '_' and contain at most 80 " ++
      "ASCII letters, digits, '_', '.', or '-'")

/-- `TaskRef::new`, returning the task component. -/
def taskRefTask (value : String) : Except String String := do
  let (campaign, task) ← orError (splitOnce '/' value.toList)
    "taskRef must be formatted as <campaign>/<task-id>"
  ensure ('/' ∉ task) "taskRef must contain exactly one slash"
  validateTaskRefComponent "campaign" campaign
  validateTaskRefComponent "task id" task
  return String.ofList task

def validateSubjectTaskId (subject : String) : Except String Unit :=
  match taskRefTask ("spec-build/" ++ subject) with
  | .ok _ => .ok ()
  | .error _ => .error "orchestration subjectTaskId must be a valid task-ref component when set"

/-- A member that must be a string when it is set. -/
def stringMember (fields : Fields) (key error : String) : Except String (Option String) :=
  match fields.get? key with
  | none => .ok none
  | some value => (orError (asStr value) error).map some

def validateOrchestration (capsule : Value) : Except String Unit := do
  let fields ← orError (asObject capsule) "orchestration must be a JSON object"
  ensure (fields.get? "iterationPath" = none)
    "orchestration iterationPath does not exist in the flow model"
  let flowRunId ← orError ((fields.get? "flowRunId").bind asStr)
    "orchestration flowRunId must be a UUID string"
  ensure (isUuid flowRunId) "orchestration flowRunId must be a UUID string"
  ensure ((fields.get? "maxNodes").all fun value => (asU64 value).any (· ≠ 0))
    "orchestration maxNodes must be a positive integer when set"
  ensure ((fields.get? "nodeOrdinal").all fun value => (asU64 value).isSome)
    "orchestration nodeOrdinal must be a non-negative integer when set"
  ensure ((fields.get? "promptRevision").all fun value => (asStr value).any sha256Shape)
    "orchestration promptRevision must be lowercase sha256 hex when set"
  ensure ((fields.get? "skillRevision").all fun value => (asStr value).any fun revision =>
      revision != "" && decide (revision.utf8ByteSize ≤ 256) && !revision.toList.any isControl)
    ("orchestration skillRevision must be non-empty, at most 256 bytes, and contain no control " ++
      "characters when set")
  let taskRef ← stringMember fields "taskRef" "orchestration taskRef must be a string when set"
  let task ← match taskRef with
    | none => .ok none
    | some taskRef => match taskRefTask taskRef with
      | .ok task => .ok (some task)
      | .error error => .error ("orchestration " ++ error)
  let role ← stringMember fields "nodeRole" "orchestration nodeRole must be a string when set"
  ensure (role.all (· ∈ specBuildRoles)) "orchestration nodeRole is not a spec-build role"
  let subject ← stringMember fields "subjectTaskId"
    "orchestration subjectTaskId must be a string when set"
  match subject with
  | none => pure ()
  | some subject => validateSubjectTaskId subject
  ensure (subject = none ∨ role ≠ none) "orchestration subjectTaskId requires nodeRole when set"
  match task with
  | some task =>
    ensure (role = none ∨ subject ≠ none)
      "orchestration nodeRole requires subjectTaskId when taskRef is set"
    ensure (subject.all (· = task)) "orchestration subjectTaskId must match taskRef's task component"
  | none => ensure (subject = none) "orchestration subjectTaskId requires taskRef when set"

/-! ## Checks of a line -/

structure ValidationFailure where
  kind : VerifyProblemKind
  reason : String
  deriving DecidableEq

def ValidationFailure.invalid (reason : String) : ValidationFailure := ⟨.invalidRecord, reason⟩

/-- The failure of a part, as a failure of the record. -/
def invalid {α : Type} (result : Except String α) : Except ValidationFailure α :=
  result.mapError .invalid

/-- The names of the fields, in the order of a line. -/
def canonicalFields : List String :=
  ["schemaVersion", "recordType", "transitionTimestamp", "taskUuid", "verdict", "exitCode",
    "artifactContentHash", "storePaths", "drv", "gpuSeconds", "wallClock", "attempt", "leaseEpoch",
    "dedupKey", "payloadHash", "briefHash", "origin", "orchestration", "laborClass", "traceRef",
    "pools", "executor", "hostId", "charge", "model", "evidenceClass", "manifestHash", "completion",
    "error", "resultRevision", "authorship", "authorshipSessions", "seq", "prevHash", "hash"]

def canonicalFieldIndex (field : String) : Option Nat := canonicalFields.idxOf? field

/-- The first known field that is not behind the known fields before it. -/
def outOfOrder (lastKnown : Option Nat) : List String → Option String
  | [] => none
  | field :: rest =>
    match canonicalFieldIndex field with
    | none => outOfOrder lastKnown rest
    | some index =>
      if lastKnown.any (index ≤ ·) then some field else outOfOrder (some index) rest

/-- What a line has to be before it is decoded. -/
def checkShape (fields : Fields) : Except ValidationFailure Unit := do
  match ["parent", "parent_uuid", "parentUuid", "kind"].find? fun key => (fields.get? key).isSome with
  | some forbidden => .error (.invalid (forbidden ++ " is not a canonical witness field"))
  | none => pure ()
  match fields.find? fun (_, value) => value = .null with
  | some (field, _) =>
    .error (.invalid ("top-level field " ++ field ++ " must be omitted instead of null"))
  | none => pure ()
  ensure ((fields.get? "schemaVersion").bind asU64 = some witnessSchemaVersion)
    ⟨.schemaVersionInvalid, "schemaVersion must be the integer 2"⟩
  ensure ((fields.get? "recordType").bind asStr = some "verdict")
    ⟨.recordTypeInvalid, "recordType must be verdict"⟩
  match outOfOrder none (fields.map Prod.fst) with
  | some field => .error (.invalid ("field " ++ field ++ " is not in canonical witness order"))
  | none => pure ()

def decodeU64 (fields : Fields) (key : String) : Except String Nat := do
  let value ← orError (fields.get? key) ("missing field " ++ key)
  orError (asU64 value) ("invalid type or value for " ++ key)

def decodeString (fields : Fields) (key : String) : Except String String := do
  let value ← orError (fields.get? key) ("missing field " ++ key)
  orError (asStr value) ("invalid type for " ++ key)

/-- `serde_json::from_value::<WitnessRecord>`. -/
def decodeRecord (fields : Fields) : Except String WitnessRecord := do
  let content ← decodeContent fields
  let seq ← decodeU64 fields "seq"
  let prevHash ← decodeString fields "prevHash"
  let hash ← decodeString fields "hash"
  return { content with seq, prevHash, hash }

/-- The text of the field is the one that its decoded value is written as. -/
def validateCanonicalFieldValue (fields : Fields) (field : String) (canonical : Value) :
    Except ValidationFailure Unit := do
  let raw ← orError (fields.get? field) (.invalid ("missing field " ++ field))
  ensure (render raw = render canonical)
    (.invalid ("field " ++ field ++ " is not in canonical serialized form"))

def validateOptionalFieldValue (fields : Fields) (field : String) (canonical : Option Value) :
    Except ValidationFailure Unit :=
  match canonical with
  | none => .ok ()
  | some canonical => validateCanonicalFieldValue fields field canonical

def checkFieldValues (fields : Fields) (record : RecordContent) : Except ValidationFailure Unit := do
  validateCanonicalFieldValue fields "wallClock" (f64ToValue record.wallClock)
  validateOptionalFieldValue fields "gpuSeconds" (record.gpuSeconds.map f64ToValue)
  validateCanonicalFieldValue fields "origin" record.origin.toValue
  validateOptionalFieldValue fields "drv" (record.drv.map Derivation.toValue)
  validateOptionalFieldValue fields "orchestration" record.orchestration
  validateOptionalFieldValue fields "charge" (record.charge.map Charge.toValue)
  validateOptionalFieldValue fields "authorship" (record.authorship.map Authorship.toValue)
  match record.error with
  | none => pure ()
  | some error =>
    validateCanonicalFieldValue fields "error" error.toValue
    invalid error.validate
    ensure (record.verdict = .failed) (.invalid "error is permitted only on a failed verdict")
  validateOptionalFieldValue fields "authorshipSessions"
    (record.authorshipSessions.map fun sessions => .array (sessions.map AuthorshipSession.toValue))

def checkText (record : RecordContent) : Except ValidationFailure Unit := do
  let timestamp ← orError (rfc3339Millis record.transitionTimestamp)
    (.invalid "transitionTimestamp is not RFC3339 UTC millis")
  ensure (timestamp = record.transitionTimestamp)
    (.invalid "transitionTimestamp is not canonical RFC3339 UTC millis")
  ensure (record.taskUuid.all isUuid) (.invalid "taskUuid is not a UUID")
  ensure (record.artifactContentHash.all sha256Shape)
    (.invalid "artifactContentHash is not lowercase sha256 hex")
  ensure (record.payloadHash.all sha256Shape) (.invalid "payloadHash is not lowercase sha256 hex")
  ensure (record.briefHash.all sha256Shape) (.invalid "briefHash is not lowercase sha256 hex")
  match record.storePaths with
  | none => pure ()
  | some storePaths =>
    ensure (storePaths ≠ []) (.invalid "storePaths must be non-empty when present")
    ensure (storePaths.all isNixStorePath) (.invalid "storePaths contains an invalid Nix store path")
    ensure (strictlyAscending storePaths)
      (.invalid "storePaths must be byte-ascending sorted and unique")
  match record.drv with
  | none => pure ()
  | some drv => invalid drv.validate
  ensure (record.executor.all registryComponentShape)
    (.invalid "executor is not a safe registry component")
  match record.hostId with
  | none => pure ()
  | some hostId => invalid (validateHostId hostId)
  match record.orchestration with
  | none => pure ()
  | some orchestration => invalid (validateOrchestration orchestration)
  invalid record.origin.validate

def checkVerdict (record : RecordContent) : Except ValidationFailure Unit := do
  ensure (record.verdict = .reused ↔ record.laborClass = .reused)
    (.invalid "verdict reused and laborClass reused must appear together")
  ensure (record.verdict = .substituted ↔ record.laborClass = .substituted)
    (.invalid "verdict substituted and laborClass substituted must appear together")
  ensure (record.verdict ≠ .reused ∧ record.verdict ≠ .substituted ∨ record.exitCode = 0)
    (.invalid "reused and substituted verdicts require exitCode 0")
  if record.verdict = .substituted then
    let drv ← orError record.drv (.invalid "substituted verdict requires drv")
    ensure (record.taskUuid ≠ none ∧ record.storePaths ≠ none ∧ record.artifactContentHash = none ∧
        record.gpuSeconds = none ∧ record.charge = none ∧ record.wallClock.isZero ∧
        record.attempt = 1 ∧ record.leaseEpoch = 1 ∧ record.pools = ["build"] ∧
        record.dedupKey = some ("drv:" ++ drv.drvPath))
      (.invalid "substituted verdict does not satisfy the cheap drv witness invariants")

def checkChain (record : WitnessRecord) : Except ValidationFailure Unit := do
  ensure (record.seq ≠ 0) (.invalid "seq missing or not a positive integer")
  ensure (sha256Shape record.prevHash) (.invalid "prevHash missing or not a lowercase sha256 hash")
  ensure (sha256Shape record.hash) (.invalid "hash missing or not a lowercase sha256 hash")

def checkFigures (record : RecordContent) : Except ValidationFailure Unit := do
  ensure (record.wallClock.isFinite ∧ record.wallClock.isNegative = false ∧
      record.gpuSeconds.all F64.isFinite ∧ record.charge.all fun charge => charge.amount.isFinite)
    (.invalid "numeric fields must be finite and wallClock must be non-negative")
  ensure (record.attempt ≠ 0) (.invalid "attempt must be at least 1")
  ensure (record.leaseEpoch ≠ 0) (.invalid "leaseEpoch must be at least 1")
  let pools ← (Poolset.canonicalize record.pools).mapError fun error => .invalid error.message
  ensure (pools = record.pools) (.invalid "pools is not in canonical order")
  ensure (record.resultRevision.all gitOidShape)
    (.invalid "resultRevision must be a 40- or 64-character lowercase Git object ID")

def validateRecord (raw : Value) : Except ValidationFailure WitnessRecord := do
  let fields ← orError (asObject raw) (.invalid "line is not a JSON object")
  checkShape fields
  let record ← invalid (decodeRecord fields)
  ensure (record.schemaVersion = witnessSchemaVersion)
    ⟨.schemaVersionInvalid, "schemaVersion must be the integer 2"⟩
  checkFieldValues fields record.toRecordContent
  checkText record.toRecordContent
  checkVerdict record.toRecordContent
  checkChain record
  checkFigures record.toRecordContent
  return record

/-! ## The hash of a line -/

def canonicalHashInput (raw : Value) : Except WitnessError (List Char) := do
  let fields ← orError (asObject raw) (.corrupt "record is not a JSON object")
  ensure ((fields.get? "hash").isSome) (.corrupt "record has no hash field")
  return render (.object (fields.insert "hash" (.string "")))

def computeHashValue (raw : Value) : Except WitnessError String := do
  let input ← canonicalHashInput raw
  return "sha256:" ++ sha256 (encode input)

/-! ## What the checks leave -/

omit [Libraries] in
theorem decodeU64_eq_ok {fields : Fields} {key : String} {n : Nat} :
    decodeU64 fields key = .ok n ↔
      ∃ number : Number, fields.get? key = some (.number number) ∧ number.asU64 = some n := by
  unfold decodeU64
  rw [orError_bind_ok_iff]
  constructor
  · rintro ⟨value, hget, hvalue⟩
    rw [orError_eq_ok] at hvalue
    cases value with
    | number number => exact ⟨number, hget, hvalue⟩
    | _ => cases hvalue
  · rintro ⟨number, hget, hvalue⟩
    exact ⟨_, hget, orError_eq_ok.mpr hvalue⟩

omit [Libraries] in
theorem decodeString_eq_ok {fields : Fields} {key text : String} :
    decodeString fields key = .ok text ↔ fields.get? key = some (.string text) := by
  unfold decodeString
  rw [orError_bind_ok_iff]
  constructor
  · rintro ⟨value, hget, hvalue⟩
    rw [orError_eq_ok] at hvalue
    cases value with
    | string s =>
      cases hvalue
      exact hget
    | _ => cases hvalue
  · intro hget
    exact ⟨_, hget, rfl⟩

/-- The fields of the chain, as they stand in the line. -/
structure ChainFields (fields : Fields) (record : WitnessRecord) : Prop where
  seq : ∃ number : Number, fields.get? "seq" = some (.number number) ∧
    number.asU64 = some record.seq
  prevHash : fields.get? "prevHash" = some (.string record.prevHash)
  hash : fields.get? "hash" = some (.string record.hash)

theorem decodeRecord_chainFields {fields : Fields} {record : WitnessRecord}
    (h : decodeRecord fields = .ok record) : ChainFields fields record := by
  unfold decodeRecord at h
  obtain ⟨content, -, h⟩ := bind_ok_iff.mp h
  obtain ⟨seq, hseq, h⟩ := bind_ok_iff.mp h
  obtain ⟨prevHash, hprev, h⟩ := bind_ok_iff.mp h
  obtain ⟨hash, hhash, h⟩ := bind_ok_iff.mp h
  cases h
  exact ⟨decodeU64_eq_ok.mp hseq, decodeString_eq_ok.mp hprev, decodeString_eq_ok.mp hhash⟩

theorem validateRecord_fields {raw : Value} {record : WitnessRecord}
    (h : validateRecord raw = .ok record) : ∃ fields, raw = .object fields ∧
      ChainFields fields record := by
  unfold validateRecord at h
  obtain ⟨fields, hobject, h⟩ := orError_bind_ok_iff.mp h
  obtain ⟨-, -, h⟩ := bind_ok_iff.mp h
  obtain ⟨decoded, hdecode, h⟩ := bind_ok_iff.mp h
  obtain ⟨-, h⟩ := ensure_bind_ok_iff.mp h
  obtain ⟨-, -, h⟩ := bind_ok_iff.mp h
  obtain ⟨-, -, h⟩ := bind_ok_iff.mp h
  obtain ⟨-, -, h⟩ := bind_ok_iff.mp h
  obtain ⟨-, -, h⟩ := bind_ok_iff.mp h
  obtain ⟨-, -, h⟩ := bind_ok_iff.mp h
  cases h
  refine ⟨fields, ?_, decodeRecord_chainFields (mapError_eq_ok.mp hdecode)⟩
  cases raw with
  | object members => exact congrArg Value.object (Option.some.inj hobject)
  | _ => cases hobject

/-- The bytes that are hashed: those of the line with an empty hash. -/
def hashInput (fields : Fields) : Bytes := encode (render (.object (fields.insert "hash" (.string ""))))

theorem computeHashValue_object {fields : Fields} {hash : String} :
    computeHashValue (.object fields) = .ok hash ↔
      (fields.get? "hash").isSome ∧ hash = "sha256:" ++ sha256 (hashInput fields) := by
  unfold computeHashValue canonicalHashInput
  simp only [asObject, orError]
  constructor
  · intro h
    obtain ⟨input, hinput, h⟩ := bind_ok_iff.mp h
    obtain ⟨_, hfields, hinput⟩ := bind_ok_iff.mp hinput
    cases hfields
    obtain ⟨hsome, hinput⟩ := ensure_bind_ok_iff.mp hinput
    cases hinput
    cases h
    exact ⟨hsome, rfl⟩
  · rintro ⟨hsome, rfl⟩
    refine bind_ok_iff.mpr ⟨_, bind_ok_iff.mpr ⟨fields, rfl, ?_⟩, rfl⟩
    exact ensure_bind_ok_iff.mpr ⟨hsome, rfl⟩

end Tally.Witness
