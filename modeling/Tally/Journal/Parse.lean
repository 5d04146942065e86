import Tally.Journal.Record
import Tally.Lib.Digits
import Tally.Lib.JsonText
import Tally.Poolset.Encoded

/-!
# Reading records back

`parse_journal_json_line` (`journal.rs`): the record is the line itself or the text of its message,
numbers and the flag may have become text, and the fields are decoded and checked again. The native
packet is taken apart as its reader does, by equals signs, line feeds and lengths.
-/

namespace Tally.Journal

open Tally.Lib
open Tally.Lease (Priority)
open Tally.Recovery (LaborClass)
open Tally.Witness (EnqueueSource F64 asObject asStr splitOnce taskRefTask)

def positiveZero : F64 := ⟨0⟩

/-- The text of it is "-0", which the JSON library reads as zero. -/
def negativeZero : F64 := ⟨0x8000000000000000#64⟩

/-- The text of a double is a number, and the double is read from it. -/
class FloatReading extends FloatTexts where
  parse : List Char → F64
  json_number : ∀ x : F64, x.isFinite = true → isVerbatimNumber (json x).chars = true
  parse_json : ∀ x : F64, x.isFinite = true → parse (json x).chars = x
  display_number : ∀ x : F64, x.isFinite = true → isJsonNumber (display x).toList = true
  parse_display : ∀ x : F64, x.isFinite = true → parse (display x).toList = x
  display_positiveZero : display positiveZero = "0"
  display_negativeZero : display negativeZero = "-0"

/-! ## The decoder of the fields -/

def tallyEvents : List TallyEvent :=
  [.enqueued, .dispatched, .started, .heartbeat, .preempted, .resumed, .completed, .failed,
    .evidencePass, .evidenceFail, .witnessEmitted]

def projectionScopes : List JournalProjectionScope := [.attempt, .task, .pass, .campaign]

def priorities : List Priority := [.interrupt, .high, .medium, .low]

def enqueueSources : List EnqueueSource := [.manual, .orchestrator, .calendar, .eventsDir, .gh]

def laborClasses : List LaborClass := [.fresh, .recovered, .reused, .substituted]

def decodeU64 (value : Value) : Except String Nat := (Decode.u64 value).map UInt64.toNat

def decodeU32 (value : Value) : Except String Nat := (Decode.u32 value).map UInt32.toNat

/-- `TaskRef::new`. -/
def decodeTaskRef (value : Value) : Except String String := do
  let text ← Decode.text value
  let _ ← taskRefTask text
  return text

def decodePools [StringsText] (value : Value) : Except String (List String) := do
  let text ← Decode.text value
  Poolset.decoded text

def readRequired {α : Type} (decode : Value → Except String α) (source : Fields) (name : FieldName) :
    Except String α := do
  let value ← orError (source.get? name.text) ("missing field `" ++ name.text ++ "`")
  decode value

def readOptional {α : Type} (decode : Value → Except String α) (source : Fields) (name : FieldName) :
    Except String (Option α) :=
  match source.get? name.text with
  | none | some .null => .ok none
  | some value => (decode value).map some

section Floats

variable [FloatReading]

def decodeF64 : Value → Except String F64
  | .number n => .ok (FloatReading.parse n.chars)
  | _ => .error "invalid type: expected f64"

/-- `serde_json::from_value::<TallyFields>`, of an object; other members are ignored. -/
def decodeFields [StringsText] (source : Fields) : Except String TallyFields := do
  let syslogIdentifier ← readRequired Decode.text source .syslogIdentifier
  let event ← readRequired (Decode.variant tallyEvents TallyEvent.asStr) source .event
  let taskUuid ← readRequired Decode.text source .taskUuid
  let taskRef ← readOptional decodeTaskRef source .taskRef
  let journalScope ← readOptional Decode.text source .journalScope
  let projectionScope ←
    readOptional (Decode.variant projectionScopes JournalProjectionScope.asStr) source .projectionScope
  let priority ← readRequired (Decode.variant priorities priorityStr) source .priority
  let enqueueSource ← readRequired (Decode.variant enqueueSources EnqueueSource.asStr) source .source
  let message ← readRequired Decode.text source .message
  let agent ← readOptional Decode.text source .agent
  let sessionRef ← readOptional Decode.text source .sessionRef
  let unit ← readOptional Decode.text source .unit
  let exitCode ← readOptional Decode.i32 source .exitCode
  let stderrTail ← readOptional Decode.text source .stderrTail
  let stderrTruncated ← readOptional Decode.flag source .stderrTruncated
  let gpuSeconds ← readOptional decodeF64 source .gpuSeconds
  let contextTokens ← readOptional decodeU64 source .contextTokens
  let contextWindow ← readOptional decodeU64 source .contextWindow
  let artifactHash ← readOptional Decode.text source .artifactHash
  let evidence ← readOptional Decode.text source .evidence
  let attempt ← readOptional decodeU32 source .attempt
  let leaseEpoch ← readOptional decodeU64 source .leaseEpoch
  let laborClass ← readOptional (Decode.variant laborClasses laborClassStr) source .laborClass
  let jobId ← readOptional Decode.text source .jobId
  let parent ← readOptional Decode.text source .parent
  let pools ← readOptional decodePools source .pool
  let executor ← readOptional Decode.text source .executor
  return ⟨syslogIdentifier, event, taskUuid, taskRef, journalScope, projectionScope, priority,
    enqueueSource, message, agent, sessionRef, unit, exitCode, stderrTail, stderrTruncated, gpuSeconds,
    contextTokens, contextWindow, artifactHash, evidence, attempt, leaseEpoch, laborClass, jobId, parent,
    pools, executor⟩

/-! ## Numbers that have become text -/

def numericFields : List FieldName :=
  [.exitCode, .gpuSeconds, .contextTokens, .contextWindow, .attempt, .leaseEpoch]

omit [FloatReading] in
def hydrateNumber (source : Fields) (name : FieldName) : Except JournalError Fields :=
  match (source.get? name.text).bind asStr with
  | none => .ok source
  | some text => do
    let number ← orError (parseNumber text.toList) (.invalid (name.text ++ " is not a JSON number"))
    return source.insert name.text (.number number)

omit [FloatReading] in
/-- `str::parse::<bool>`. -/
def parseBool (text : String) : Option Bool :=
  if text = "true" then some true else if text = "false" then some false else none

omit [FloatReading] in
def hydrateFlag (source : Fields) : Except JournalError Fields :=
  match (source.get? FieldName.stderrTruncated.text).bind asStr with
  | none => .ok source
  | some text => do
    let flag ← orError (parseBool text) (.invalid "TALLY_STDERR_TRUNCATED is not a boolean")
    return source.insert FieldName.stderrTruncated.text (.bool flag)

def hydrateFields [StringsText] (source : Fields) : Except JournalError TallyFields := do
  let normalized ← numericFields.foldlM hydrateNumber source
  let normalized ← hydrateFlag normalized
  (decodeFields normalized).mapError .json

/-! ## Lines of the journal -/

structure JournalEntry where
  fields : TallyFields
  realtimeUs : Option Nat

omit [FloatReading] in
/-- `str::trim`. -/
def trim (text : List Char) : List Char := (text.dropWhile isWhitespace).rdropWhile isWhitespace

omit [FloatReading] in
def parseU64Value (value : Value) : Except JournalError Nat :=
  match Witness.asU64 value with
  | some n => .ok n
  | none =>
    orError ((asStr value).bind fun text => parseU64 text.toList)
      (.invalid "__REALTIME_TIMESTAMP is not a non-negative integer")

omit [FloatReading] in
def realtimeUs (outer : Fields) : Except JournalError (Option Nat) :=
  match outer.get? "__REALTIME_TIMESTAMP" with
  | none => .ok none
  | some value => (parseU64Value value).map some

omit [FloatReading] in
def isRecord (fields : Fields) : Bool := (fields.get? FieldName.event.text).isSome

variable [JsonText]

omit [FloatReading] in
/-- The message, if it is the text of a record. -/
def payload (outer : Fields) : Option Fields :=
  let message := (outer.get? FieldName.message.text).bind asStr
  let value := message.bind fun message => (JsonText.read message.toList).toOption
  (value.bind asObject).filter isRecord

omit [FloatReading] in
/-- The object of the record, the line or its message. -/
def sourceOf (outer : Fields) : Option Fields := if isRecord outer then some outer else payload outer

def parseJournalJsonLine [StringsText] (line : String) :
    Except JournalError (Option JournalEntry) := do
  let trimmed := trim line.toList
  if trimmed = [] then return none
  let value ← (JsonText.read trimmed).mapError .json
  let outer ← orError (asObject value) (.invalid "journal JSON line is not an object")
  let realtime ← realtimeUs outer
  match sourceOf outer with
  | none => return none
  | some source =>
    let fields ← hydrateFields source
    validateFields fields
    return some ⟨fields, realtime⟩

end Floats

/-! ## The reader of native packets -/

/-- `u64::from_le_bytes`. -/
def fromLeBytes (bytes : Bytes) : Nat := bytes.foldr (fun byte rest => byte.toNat + 256 * rest) 0

def equalsSign : UInt8 := 61

/-- The field at the start of a packet, its name and its value, and the rest of the packet. A line
without an equals sign is a name, and the length of the value follows. -/
def readNativeField (packet : Bytes) : Option ((Bytes × Bytes) × Bytes) :=
  if lf ∈ packet then
    let line := packet.takeWhile (· ≠ lf)
    let rest := packet.drop (line.length + 1)
    if equalsSign ∈ line then
      let name := line.takeWhile (· ≠ equalsSign)
      some ((name, line.drop (name.length + 1)), rest)
    else
      let length := fromLeBytes (rest.take 8)
      let data := rest.drop 8
      if 8 ≤ rest.length ∧ data[length]? = some lf then
        some ((line, data.take length), data.drop (length + 1))
      else none
  else none

/-- The fields of a packet of at most so many fields. -/
def readNativeFields : Nat → Bytes → Option (List (Bytes × Bytes))
  | _, [] => some []
  | 0, _ :: _ => none
  | fuel + 1, packet => do
    let (field, rest) ← readNativeField packet
    let fields ← readNativeFields fuel rest
    return field :: fields

def decodeNative (packet : Bytes) : Option (List (Bytes × Bytes)) :=
  readNativeFields packet.length packet

end Tally.Journal
