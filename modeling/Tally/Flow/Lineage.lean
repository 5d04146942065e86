import Tally.Flow.Membership
import Tally.Lib.Walk
import Tally.Uuid

/-!
# The lineage of flow runs

The ledger of the runs that were replaced (`flow_lineage.rs`): a record says that a run was superseded
by another one, and why. Whatever the calls were and wherever their writes stopped, the ledger reads
back, the runs form disjoint simple chains, and a run reports the whole chain that it is in
(`lineage_stays_simple`).
-/

namespace Tally.Flow

open Tally.Lib Relation

def flowLineageSchemaVersion : UInt32 := 1

inductive FlowLineageError
  | io
  | log (error : LogError)
  | invalid (reason : String)
  | conflict (reason : String)
  deriving DecidableEq

inductive SupersedeReason
  | generationChange
  | scriptChanged
  | argsChanged
  | catalogChanged
  | operator
  deriving DecidableEq

namespace SupersedeReason

def asStr : SupersedeReason → String
  | generationChange => "generation-change"
  | scriptChanged => "script-changed"
  | argsChanged => "args-changed"
  | catalogChanged => "catalog-changed"
  | operator => "operator"

def all : List SupersedeReason :=
  [generationChange, scriptChanged, argsChanged, catalogChanged, operator]

/-- The reason of that name. -/
def fromValue : Value → Except String SupersedeReason
  | .string name =>
    orError (all.find? fun reason => reason.asStr = name) ("unknown variant `" ++ name ++ "`")
  | _ => .error "invalid type: expected enum SupersedeReason"

@[simp] theorem fromValue_asStr (reason : SupersedeReason) :
    fromValue (.string reason.asStr) = .ok reason := by
  cases reason <;> rfl

end SupersedeReason

structure FlowSupersedeRecord where
  schemaVersion : UInt32
  flowRunId : String
  successorFlowRunId : String
  reason : SupersedeReason
  recordedAt : String
  predecessorScriptHash : Option String
  predecessorArgsHash : Option String
  predecessorCatalogHash : Option String
  deriving DecidableEq

inductive SupersedeDisposition
  | recorded
  | reused
  deriving DecidableEq

structure SupersedeOutcome where
  ok : Bool
  disposition : SupersedeDisposition
  record : FlowSupersedeRecord
  deriving DecidableEq

structure FlowLineageView where
  schemaVersion : UInt32
  flowRunId : String
  superseded : Bool
  supersededBy : Option FlowSupersedeRecord
  supersedes : Option FlowSupersedeRecord
  chain : List String
  currentFlowRunId : String

structure PredecessorPins where
  scriptHash : Option String := none
  argsHash : Option String := none
  catalogHash : Option String := none

structure FlowLineage where
  byPredecessor : Table String FlowSupersedeRecord := ∅
  bySuccessor : Table String FlowSupersedeRecord := ∅
  deriving DecidableEq

namespace FlowSupersedeRecord

def knownFields : List String :=
  ["schemaVersion", "flowRunId", "successorFlowRunId", "reason", "recordedAt",
    "predecessorScriptHash", "predecessorArgsHash", "predecessorCatalogHash"]

def members (record : FlowSupersedeRecord) : Fields :=
  [("schemaVersion", natNumber record.schemaVersion.toNat), ("flowRunId", .string record.flowRunId),
    ("successorFlowRunId", .string record.successorFlowRunId), ("reason", .string record.reason.asStr),
    ("recordedAt", .string record.recordedAt)] ++
    (record.predecessorScriptHash.map fun hash => ("predecessorScriptHash", .string hash)).toList ++
    (record.predecessorArgsHash.map fun hash => ("predecessorArgsHash", .string hash)).toList ++
    (record.predecessorCatalogHash.map fun hash => ("predecessorCatalogHash", .string hash)).toList

def toValue (record : FlowSupersedeRecord) : Value := .object record.members

def line (record : FlowSupersedeRecord) : List Char := render record.toValue

/-- The derived decoder; members with other names are refused. -/
def fromValue : Value → Except String FlowSupersedeRecord
  | .object fields => do
    ensure (∀ member ∈ fields, member.1 ∈ knownFields) "unknown field"
    let schemaVersion ← Decode.required Decode.u32 fields "schemaVersion"
    let flowRunId ← Decode.required Decode.text fields "flowRunId"
    let successorFlowRunId ← Decode.required Decode.text fields "successorFlowRunId"
    let reason ← Decode.required SupersedeReason.fromValue fields "reason"
    let recordedAt ← Decode.required Decode.text fields "recordedAt"
    let predecessorScriptHash ← Decode.optional Decode.text fields "predecessorScriptHash"
    let predecessorArgsHash ← Decode.optional Decode.text fields "predecessorArgsHash"
    let predecessorCatalogHash ← Decode.optional Decode.text fields "predecessorCatalogHash"
    return ⟨schemaVersion, flowRunId, successorFlowRunId, reason, recordedAt, predecessorScriptHash,
      predecessorArgsHash, predecessorCatalogHash⟩
  | _ => .error "invalid type: expected struct FlowSupersedeRecord"

/-- The hashes do not count. -/
def matchesRequest (record : FlowSupersedeRecord) (successor : String) (reason : SupersedeReason) :
    Bool :=
  record.successorFlowRunId = successor && record.reason = reason

end FlowSupersedeRecord

section Source

variable (Uuid : Type) [UuidText Uuid]

/-- The text of a run id that is stored and looked up. -/
def canonicalFlowRunId (value : String) : Except FlowLineageError String :=
  match (UuidText.parseStr value : Option Uuid) with
  | some uuid => .ok (UuidText.render uuid)
  | none => .error (.invalid (debugText value ++ " is not a UUID"))

def lookupKey (value : String) : String :=
  match canonicalFlowRunId Uuid value with
  | .ok canonical => canonical
  | .error _ => value

def storedCanonical (field value : String) : Except String Unit :=
  match canonicalFlowRunId Uuid value with
  | .ok canonical =>
    ensure (canonical = value) (field ++ " is not the canonical hyphenated lowercase UUID rendering")
  | .error _ => .error (field ++ " is not a UUID")

variable [Chrono] [JsonText]

namespace FlowSupersedeRecord

def validate (record : FlowSupersedeRecord) : Except String Unit := do
  ensure (record.schemaVersion = flowLineageSchemaVersion) "schemaVersion must be the integer 1"
  storedCanonical Uuid "flowRunId" record.flowRunId
  storedCanonical Uuid "successorFlowRunId" record.successorFlowRunId
  ensure (record.flowRunId ≠ record.successorFlowRunId)
    "successorFlowRunId must differ from flowRunId"
  ensure (Chrono.isRfc3339 record.recordedAt) "recordedAt is not an RFC 3339 timestamp"

/-- A line of the ledger. -/
def parse (text : List Char) : Except String FlowSupersedeRecord := do
  let record ← fromValue (← JsonText.read text)
  record.validate Uuid
  return record

end FlowSupersedeRecord

/-- The file ends with a line that was not finished. -/
def isTorn (file : Bytes) : Bool := file ≠ [] && file.getLast? ≠ some lf

/-- The records of the complete lines, with the numbers of the lines. -/
def readSupersedeRecords (file : Bytes) : Except FlowLineageError (List (Nat × FlowSupersedeRecord)) :=
  (readNumbered (FlowSupersedeRecord.parse Uuid) 1 (split lf file).1).mapError .log

end Source

namespace FlowLineage

def insert (lineage : FlowLineage) (record : FlowSupersedeRecord) : Except String FlowLineage :=
  match lineage.byPredecessor.get? record.flowRunId with
  | some existing =>
    .error ("flow run " ++ record.flowRunId ++ " is already superseded by " ++
      existing.successorFlowRunId)
  | none =>
    match lineage.bySuccessor.get? record.successorFlowRunId with
    | some existing =>
      .error ("flow run " ++ record.successorFlowRunId ++ " already succeeds " ++ existing.flowRunId)
    | none =>
      .ok ⟨lineage.byPredecessor.insert record.flowRunId record,
        lineage.bySuccessor.insert record.successorFlowRunId record⟩

/-- The loop that indexes the records; a record that does not fit in is malformed. -/
def index (records : List (Nat × FlowSupersedeRecord)) : Except FlowLineageError FlowLineage :=
  records.foldlM (fun lineage entry =>
    (lineage.insert entry.2).mapError fun reason => .log (.malformed entry.1 reason)) {}

/-- The run after a run. -/
def next (lineage : FlowLineage) (run : String) : Option String :=
  (lineage.byPredecessor.get? run).map (·.successorFlowRunId)

/-- The run before a run. -/
def prev (lineage : FlowLineage) (run : String) : Option String :=
  (lineage.bySuccessor.get? run).map (·.flowRunId)

/-- A loop breaks after a step that makes its counter exceed the number of records. -/
def guardSteps (lineage : FlowLineage) : Nat := lineage.byPredecessor.entries.length + 1

variable (Uuid : Type) [UuidText Uuid]

def read [Chrono] [JsonText] (file : Bytes) : Except FlowLineageError FlowLineage := do
  let records ← readSupersedeRecords Uuid file
  index records

def supersededBy (lineage : FlowLineage) (flowRunId : String) : Option FlowSupersedeRecord :=
  lineage.byPredecessor.get? (lookupKey Uuid flowRunId)

def supersedes (lineage : FlowLineage) (flowRunId : String) : Option FlowSupersedeRecord :=
  lineage.bySuccessor.get? (lookupKey Uuid flowRunId)

/-- The runs from the oldest one on: a loop back to the root, and a loop from the root. -/
def chain (lineage : FlowLineage) (flowRunId : String) : List String :=
  let root := walkEnd lineage.prev lineage.guardSteps (lookupKey Uuid flowRunId)
  walk lineage.next lineage.guardSteps root

def view (lineage : FlowLineage) (flowRunId : String) : FlowLineageView :=
  let key := lookupKey Uuid flowRunId
  let chain := lineage.chain Uuid key
  { schemaVersion := flowLineageSchemaVersion
    flowRunId := key
    superseded := (lineage.byPredecessor.get? key).isSome
    supersededBy := lineage.byPredecessor.get? key
    supersedes := lineage.bySuccessor.get? key
    chain := chain
    currentFlowRunId := chain.getLast?.getD key }

/-- The loop also gives up as a cycle when its counter exceeds the number of records. -/
def wouldCycle (lineage : FlowLineage) (predecessor successor : String) : Bool :=
  meets lineage.next predecessor lineage.guardSteps (lookupKey Uuid successor)

/-- What a conflict says: the run has another successor. -/
def alreadySuperseded (predecessor : String) (existing : FlowSupersedeRecord) : String :=
  "flow run " ++ predecessor ++ " is already superseded by " ++ existing.successorFlowRunId ++
    " for reason " ++ existing.reason.asStr ++ "; a durable rollover is never rewritten"

def alreadySucceeds (successor : String) (existing : FlowSupersedeRecord) : String :=
  "flow run " ++ successor ++ " already succeeds " ++ existing.flowRunId ++
    "; a successor belongs to one predecessor"

def closesCycle (predecessor successor : String) : String :=
  "superseding " ++ predecessor ++ " with " ++ successor ++ " would close a lineage cycle"

/-- The record of a request that was made before, or nothing if the request is new. -/
def classify (lineage : FlowLineage) (predecessor successor : String) (reason : SupersedeReason) :
    Except FlowLineageError (Option FlowSupersedeRecord) := do
  let predecessor ← canonicalFlowRunId Uuid predecessor
  let successor ← canonicalFlowRunId Uuid successor
  ensure (predecessor ≠ successor)
    (FlowLineageError.invalid "successorFlowRunId must differ from flowRunId")
  match lineage.byPredecessor.get? predecessor with
  | some existing =>
    if existing.matchesRequest successor reason then return some existing
    else .error (.conflict (alreadySuperseded predecessor existing))
  | none =>
    match lineage.bySuccessor.get? successor with
    | some existing => .error (.conflict (alreadySucceeds successor existing))
    | none =>
      if lineage.wouldCycle Uuid predecessor successor then
        .error (.conflict (closesCycle predecessor successor))
      else return none

end FlowLineage

/-- A request to supersede a run, the clock and the disk. -/
structure SupersedeCall where
  predecessor : String
  successor : String
  reason : SupersedeReason
  pins : PredecessorPins
  maxRecords : Nat
  now : String
  disk : Disk

namespace SupersedeCall

variable (Uuid : Type) [UuidText Uuid] [Chrono] [JsonText]

/-- The records that a compaction keeps, and the new one. -/
def kept (existing : List (Nat × FlowSupersedeRecord)) (maxRecords : Nat)
    (record : FlowSupersedeRecord) : List FlowSupersedeRecord :=
  (existing.drop (existing.length + 1 - maxRecords)).map Prod.snd ++ [record]

/-- The file is replaced as a whole. -/
def rewriteCompacted (file : Bytes) (kept : List FlowSupersedeRecord) :
    Disk → Except FlowLineageError Unit × Bytes
  | .fine => (.ok (), writeLines (kept.map FlowSupersedeRecord.line))
  | .refused | .stopped _ => (.error .io, file)
  | .unsynced => (.error .io, writeLines (kept.map FlowSupersedeRecord.line))

def appendRecord (file : Bytes) (record : FlowSupersedeRecord) :
    Disk → Except FlowLineageError Unit × Bytes :=
  let repaired := if isTorn file then truncateTail file else file
  fun
  | .fine => (.ok (), repaired ++ lineBytes record.line)
  | .refused => (.error .io, file)
  | .stopped bytes => (.error .io, repaired ++ (lineBytes record.line).take bytes)
  | .unsynced => (.error .io, repaired ++ lineBytes record.line)

/-- At its bound the ledger is compacted. -/
def write (call : SupersedeCall) (file : Bytes) (existing : List (Nat × FlowSupersedeRecord))
    (record : FlowSupersedeRecord) : Except FlowLineageError Unit × Bytes :=
  if existing.length ≥ call.maxRecords then
    rewriteCompacted file (kept existing call.maxRecords record) call.disk
  else appendRecord file record call.disk

/-- The record of a request. -/
def record (call : SupersedeCall) (predecessor successor : String) : FlowSupersedeRecord where
  schemaVersion := flowLineageSchemaVersion
  flowRunId := predecessor
  successorFlowRunId := successor
  reason := call.reason
  recordedAt := call.now
  predecessorScriptHash := call.pins.scriptHash
  predecessorArgsHash := call.pins.argsHash
  predecessorCatalogHash := call.pins.catalogHash

/-- What the call finds out before it writes: the records of the ledger, and the record that is there
already or the one to write. -/
def prepare (call : SupersedeCall) (file : Bytes) : Except FlowLineageError
    (List (Nat × FlowSupersedeRecord) × SupersedeDisposition × FlowSupersedeRecord) := do
  let predecessor ← canonicalFlowRunId Uuid call.predecessor
  let successor ← canonicalFlowRunId Uuid call.successor
  let existing ← readSupersedeRecords Uuid file
  let lineage ← FlowLineage.index existing
  match ← lineage.classify Uuid predecessor successor call.reason with
  | some record => return (existing, .reused, record)
  | none =>
    let record := call.record predecessor successor
    (record.validate Uuid).mapError .invalid
    return (existing, .recorded, record)

/-- `record_supersede_bounded`: the result, and the file after it. -/
def recordSupersedeBounded (call : SupersedeCall) (file : Bytes) :
    Except FlowLineageError SupersedeOutcome × Bytes :=
  match call.prepare Uuid file with
  | .error error => (.error error, file)
  | .ok (_, .reused, record) => (.ok ⟨true, .reused, record⟩, file)
  | .ok (existing, .recorded, record) =>
    match call.write file existing record with
    | (.error error, file) => (.error error, file)
    | (.ok (), file) => (.ok ⟨true, .recorded, record⟩, file)

/-- The ledger after calls. -/
def ledgerAfter (calls : List SupersedeCall) : Bytes :=
  calls.foldl (fun file call => (call.recordSupersedeBounded Uuid file).2) []

end SupersedeCall

/-! ## Spellings -/

section Spellings

variable {Uuid : Type} [UuidText Uuid] {value canonical : String}

theorem canonicalFlowRunId_idem (h : canonicalFlowRunId Uuid value = .ok canonical) :
    canonicalFlowRunId Uuid canonical = .ok canonical := by
  rw [canonicalFlowRunId] at h
  split at h
  · cases h
    rw [canonicalFlowRunId, UuidText.parseStr_render]
  · cases h

theorem lookupKey_eq (h : canonicalFlowRunId Uuid value = .ok canonical) :
    lookupKey Uuid value = canonical := by
  rw [lookupKey, h]

theorem lookupKey_idem (value : String) :
    lookupKey Uuid (lookupKey Uuid value) = lookupKey Uuid value := by
  cases h : canonicalFlowRunId Uuid value with
  | ok canonical => rw [lookupKey_eq h, lookupKey_eq (canonicalFlowRunId_idem h)]
  | error error =>
    have hkey : lookupKey Uuid value = value := by rw [lookupKey, h]
    rw [hkey, hkey]

@[simp] theorem storedCanonical_eq_ok {field : String} {u : Unit} :
    storedCanonical Uuid field value = .ok u ↔ canonicalFlowRunId Uuid value = .ok value := by
  rw [storedCanonical]
  cases h : canonicalFlowRunId Uuid value with
  | ok canonical => simp
  | error error => simp

end Spellings

/-! ## Records read back -/

namespace FlowSupersedeRecord

theorem known_members (record : FlowSupersedeRecord) :
    ∀ member ∈ record.members, member.1 ∈ knownFields := by
  obtain ⟨_, _, _, _, _, script, args, catalog⟩ := record
  cases script <;> cases args <;> cases catalog <;> simp [members, knownFields]

theorem fromValue_toValue (record : FlowSupersedeRecord) : fromValue record.toValue = .ok record := by
  have hunique : Decode.unique record.members "schemaVersion" =
        .ok (some (natNumber record.schemaVersion.toNat)) ∧
      Decode.unique record.members "flowRunId" = .ok (some (.string record.flowRunId)) ∧
      Decode.unique record.members "successorFlowRunId" =
        .ok (some (.string record.successorFlowRunId)) ∧
      Decode.unique record.members "reason" = .ok (some (.string record.reason.asStr)) ∧
      Decode.unique record.members "recordedAt" = .ok (some (.string record.recordedAt)) ∧
      Decode.unique record.members "predecessorScriptHash" =
        .ok (record.predecessorScriptHash.map .string) ∧
      Decode.unique record.members "predecessorArgsHash" =
        .ok (record.predecessorArgsHash.map .string) ∧
      Decode.unique record.members "predecessorCatalogHash" =
        .ok (record.predecessorCatalogHash.map .string) := by
    obtain ⟨_, _, _, _, _, script, args, catalog⟩ := record
    cases script <;> cases args <;> cases catalog <;> simp [members, Decode.unique]
  obtain ⟨h1, h2, h3, h4, h5, h6, h7, h8⟩ := hunique
  rw [toValue, fromValue, ensure, if_pos record.known_members, Decode.required_of_unique _ h1,
    Decode.required_of_unique _ h2, Decode.required_of_unique _ h3, Decode.required_of_unique _ h4,
    Decode.required_of_unique _ h5,
    Decode.optional_of_unique _ h6 (by cases record.predecessorScriptHash <;> simp),
    Decode.optional_of_unique _ h7 (by cases record.predecessorArgsHash <;> simp),
    Decode.optional_of_unique _ h8 (by cases record.predecessorCatalogHash <;> simp),
    Decode.u32_natNumber, SupersedeReason.fromValue_asStr]
  obtain ⟨_, _, _, _, _, script, args, catalog⟩ := record
  cases script <;> cases args <;> cases catalog <;> rfl

theorem flat (record : FlowSupersedeRecord) : FlatObject record.members := by
  obtain ⟨_, _, _, _, _, script, args, catalog⟩ := record
  constructor <;> cases script <;> cases args <;> cases catalog <;>
    simp [members, numberToken]

theorem newline_not_mem_line (record : FlowSupersedeRecord) : '\n' ∉ record.line :=
  newline_not_mem_render _

variable {Uuid : Type} [UuidText Uuid] [Chrono] [JsonText] {record : FlowSupersedeRecord}

theorem readsBack (hvalid : record.validate Uuid = .ok ()) : ReadsBack (parse Uuid) line record := by
  refine ⟨?_, blank_object _, stripCr_render _⟩
  have hreadable : Readable record.toValue := record.flat.readable
  rw [parse, line, JsonText.read_compact hreadable]
  dsimp only [bind, Except.bind]
  rw [fromValue_toValue]
  dsimp only
  rw [hvalid]
  rfl

omit [JsonText] in
theorem validate_eq_ok : record.validate Uuid = .ok () ↔
    record.schemaVersion = flowLineageSchemaVersion ∧
    canonicalFlowRunId Uuid record.flowRunId = .ok record.flowRunId ∧
    canonicalFlowRunId Uuid record.successorFlowRunId = .ok record.successorFlowRunId ∧
    record.flowRunId ≠ record.successorFlowRunId ∧ Chrono.isRfc3339 record.recordedAt = true := by
  rw [validate]
  simp only [bind_ok_iff, ensure_eq_ok, storedCanonical_eq_ok, exists_const]

end FlowSupersedeRecord

/-! ## The runs of the records -/

/-- The records say that a run was replaced by another one. -/
def Supersedes (records : List FlowSupersedeRecord) (a b : String) : Prop :=
  ∃ record ∈ records, record.flowRunId = a ∧ record.successorFlowRunId = b

/-- Records that form simple chains. -/
structure SimpleChains (Uuid : Type) [UuidText Uuid] [Chrono] [JsonText] (records : List FlowSupersedeRecord) :
    Prop where
  valid : ∀ record ∈ records, record.validate Uuid = .ok ()
  predecessors : (records.map (·.flowRunId)).Nodup
  successors : (records.map (·.successorFlowRunId)).Nodup
  acyclic : ∀ a, ¬ TransGen (Supersedes records) a a

/-- A record that fits in: its runs are in no record on that side, and the successor does not lead to
the run. -/
structure FitsIn (Uuid : Type) [UuidText Uuid] [Chrono] [JsonText] (records : List FlowSupersedeRecord)
    (record : FlowSupersedeRecord) : Prop where
  valid : record.validate Uuid = .ok ()
  predecessor : record.flowRunId ∉ records.map (·.flowRunId)
  successor : record.successorFlowRunId ∉ records.map (·.successorFlowRunId)
  noPath : ¬ ReflTransGen (Supersedes records) record.successorFlowRunId record.flowRunId

variable {Uuid : Type} [UuidText Uuid] {records : List FlowSupersedeRecord}
  {record : FlowSupersedeRecord} {a b c : String}

theorem Supersedes.mono {fewer : List FlowSupersedeRecord} (hsub : fewer ⊆ records)
    (h : Supersedes fewer a b) : Supersedes records a b := by
  obtain ⟨record, hmem, hends⟩ := h
  exact ⟨record, hsub hmem, hends⟩

namespace SimpleChains

section Clock

variable [Chrono] [JsonText]

theorem nil : SimpleChains Uuid [] := by
  refine ⟨nofun, .nil, .nil, ?_⟩
  intro a hcycle
  obtain ⟨_, ⟨record, hmem, -⟩, -⟩ := TransGen.head'_iff.mp hcycle
  cases hmem

theorem sublist {fewer : List FlowSupersedeRecord} (h : SimpleChains Uuid records)
    (hsub : fewer.Sublist records) : SimpleChains Uuid fewer where
  valid record hmem := h.valid record (hsub.subset hmem)
  predecessors := h.predecessors.sublist (hsub.map _)
  successors := h.successors.sublist (hsub.map _)
  acyclic a hcycle := h.acyclic a (TransGen.mono (fun _ _ => Supersedes.mono hsub.subset) _ _ hcycle)

theorem concat (h : SimpleChains Uuid records) (hrecord : FitsIn Uuid records record) :
    SimpleChains Uuid (records ++ [record]) := by
  refine ⟨?_, ?_, ?_, ?_⟩
  · intro other hother
    rcases List.mem_append.mp hother with hother | hother
    · exact h.valid other hother
    · rw [List.mem_singleton.mp hother]
      exact hrecord.valid
  · rw [List.map_append]
    exact h.predecessors.append (List.nodup_singleton _)
      (List.disjoint_singleton.mpr hrecord.predecessor)
  · rw [List.map_append]
    exact h.successors.append (List.nodup_singleton _)
      (List.disjoint_singleton.mpr hrecord.successor)
  · refine acyclic_of_step h.acyclic hrecord.noPath ?_
    rintro a b ⟨other, hother, hends⟩
    rcases List.mem_append.mp hother with hother | hother
    · exact .inl ⟨other, hother, hends⟩
    · rw [List.mem_singleton.mp hother] at hends
      exact .inr ⟨hends.1.symm, hends.2.symm⟩

theorem eq_of_predecessor (h : SimpleChains Uuid records) {other : FlowSupersedeRecord}
    (hrecord : record ∈ records) (hother : other ∈ records)
    (heq : record.flowRunId = other.flowRunId) : record = other :=
  List.inj_on_of_nodup_map h.predecessors hrecord hother heq

theorem eq_of_successor (h : SimpleChains Uuid records) {other : FlowSupersedeRecord}
    (hrecord : record ∈ records) (hother : other ∈ records)
    (heq : record.successorFlowRunId = other.successorFlowRunId) : record = other :=
  List.inj_on_of_nodup_map h.successors hrecord hother heq

theorem successor_unique (h : SimpleChains Uuid records) (hb : Supersedes records a b)
    (hc : Supersedes records a c) : b = c := by
  obtain ⟨record, hrecord, rfl, rfl⟩ := hb
  obtain ⟨other, hother, heq, rfl⟩ := hc
  rw [h.eq_of_predecessor hrecord hother heq.symm]

theorem predecessor_unique (h : SimpleChains Uuid records) (ha : Supersedes records a c)
    (hb : Supersedes records b c) : a = b := by
  obtain ⟨record, hrecord, rfl, rfl⟩ := ha
  obtain ⟨other, hother, rfl, heq⟩ := hb
  rw [h.eq_of_successor hrecord hother heq.symm]

/-- The runs of the records are spelled canonically. -/
theorem lookupKey_eq (h : SimpleChains Uuid records) (hab : Supersedes records a b) :
    lookupKey Uuid a = a ∧ lookupKey Uuid b = b := by
  obtain ⟨record, hrecord, rfl, rfl⟩ := hab
  obtain ⟨-, hrun, hsuccessor, -⟩ := FlowSupersedeRecord.validate_eq_ok.mp (h.valid record hrecord)
  exact ⟨Flow.lookupKey_eq hrun, Flow.lookupKey_eq hsuccessor⟩

end Clock

end SimpleChains

theorem FitsIn.sublist [Chrono] [JsonText] {fewer : List FlowSupersedeRecord} (h : FitsIn Uuid records record)
    (hsub : fewer.Sublist records) : FitsIn Uuid fewer record where
  valid := h.valid
  predecessor hmem := h.predecessor ((hsub.map _).subset hmem)
  successor hmem := h.successor ((hsub.map _).subset hmem)
  noPath hpath := h.noPath (ReflTransGen.mono (fun _ _ => Supersedes.mono hsub.subset) _ _ hpath)

/-! ## The index of the records -/

namespace FlowLineage

/-- The index holds the records under both of their runs. -/
structure Indexes (lineage : FlowLineage) (records : List FlowSupersedeRecord) : Prop where
  byPredecessor_iff : ∀ run record,
    lineage.byPredecessor.get? run = some record ↔ record ∈ records ∧ record.flowRunId = run
  bySuccessor_iff : ∀ run record,
    lineage.bySuccessor.get? run = some record ↔ record ∈ records ∧ record.successorFlowRunId = run
  length_le : records.length ≤ lineage.byPredecessor.entries.length

variable {lineage : FlowLineage}

/-- One table of the index, after a record was added under a new key. -/
theorem get?_insert_concat {table : Table String FlowSupersedeRecord}
    {key : FlowSupersedeRecord → String}
    (h : ∀ run record, table.get? run = some record ↔ record ∈ records ∧ key record = run)
    (hnew : key record ∉ records.map key) (run : String) (other : FlowSupersedeRecord) :
    (table.insert (key record) record).get? run = some other ↔
      other ∈ records ++ [record] ∧ key other = run := by
  rw [Table.get?_insert, List.mem_append, List.mem_singleton]
  split
  · next heq =>
    subst heq
    rw [Option.some.injEq]
    constructor
    · rintro rfl
      exact ⟨.inr rfl, rfl⟩
    · rintro ⟨hother | rfl, hkey⟩
      · exact absurd (hkey ▸ List.mem_map_of_mem hother) hnew
      · rfl
  · next hne =>
    rw [h]
    constructor
    · rintro ⟨hother, hkey⟩
      exact ⟨.inl hother, hkey⟩
    · rintro ⟨hother | rfl, hkey⟩
      · exact ⟨hother, hkey⟩
      · exact absurd hkey.symm hne

theorem get?_eq_none {table : Table String FlowSupersedeRecord} {key : FlowSupersedeRecord → String}
    (h : ∀ run record, table.get? run = some record ↔ record ∈ records ∧ key record = run)
    {run : String} : table.get? run = none ↔ run ∉ records.map key := by
  rw [Option.eq_none_iff_forall_ne_some]
  simp only [ne_eq, h, List.mem_map, not_exists]

namespace Indexes

theorem empty : Indexes {} [] := by
  refine ⟨?_, ?_, Nat.le_refl _⟩
  · intro run record
    simp
  · intro run record
    simp

theorem insert (h : Indexes lineage records)
    (hpredecessor : record.flowRunId ∉ records.map (·.flowRunId))
    (hsuccessor : record.successorFlowRunId ∉ records.map (·.successorFlowRunId)) :
    ∃ inserted, lineage.insert record = .ok inserted ∧ Indexes inserted (records ++ [record]) := by
  have hpredecessorNone := (get?_eq_none h.byPredecessor_iff).mpr hpredecessor
  have hsuccessorNone := (get?_eq_none h.bySuccessor_iff).mpr hsuccessor
  refine ⟨_, by rw [FlowLineage.insert, hpredecessorNone]; dsimp only; rw [hsuccessorNone], ?_, ?_, ?_⟩
  · exact get?_insert_concat h.byPredecessor_iff hpredecessor
  · exact get?_insert_concat h.bySuccessor_iff hsuccessor
  · have hperm := lineage.byPredecessor.entries_insert_perm record.flowRunId record
    rw [Table.erase_of_get?_eq_none _ hpredecessorNone] at hperm
    rw [hperm.length_eq, List.length_append, List.length_singleton, List.length_cons]
    exact Nat.succ_le_succ h.length_le

theorem index {numbered : List (Nat × FlowSupersedeRecord)}
    (hpredecessors : ((numbered.map Prod.snd).map (·.flowRunId)).Nodup)
    (hsuccessors : ((numbered.map Prod.snd).map (·.successorFlowRunId)).Nodup) :
    ∃ lineage, FlowLineage.index numbered = .ok lineage ∧
      Indexes lineage (numbered.map Prod.snd) := by
  induction numbered using List.reverseRecOn with
  | nil => exact ⟨{}, rfl, .empty⟩
  | append_singleton numbered entry ih =>
    rw [List.map_append, List.map_append, List.nodup_append] at hpredecessors hsuccessors
    obtain ⟨lineage, hindex, hlineage⟩ := ih hpredecessors.1 hsuccessors.1
    have hpredecessor : entry.2.flowRunId ∉ (numbered.map Prod.snd).map (·.flowRunId) := by
      intro hmem
      exact hpredecessors.2.2 _ hmem _ (List.mem_singleton_self _) rfl
    have hsuccessor :
        entry.2.successorFlowRunId ∉ (numbered.map Prod.snd).map (·.successorFlowRunId) := by
      intro hmem
      exact hsuccessors.2.2 _ hmem _ (List.mem_singleton_self _) rfl
    obtain ⟨inserted, hinsert, hinserted⟩ := hlineage.insert hpredecessor hsuccessor
    refine ⟨inserted, ?_, by rwa [List.map_append]⟩
    rw [FlowLineage.index] at hindex
    rw [FlowLineage.index, List.foldlM_append, hindex]
    simp [bind, Except.bind, hinsert, Except.mapError, pure, Except.pure]

theorem next_iff (h : Indexes lineage records) : lineage.next a = some b ↔ Supersedes records a b := by
  simp only [next, Option.map_eq_some_iff, h.byPredecessor_iff, Supersedes, and_assoc]

theorem prev_iff (h : Indexes lineage records) : lineage.prev b = some a ↔ Supersedes records a b := by
  simp only [prev, Option.map_eq_some_iff, h.bySuccessor_iff, Supersedes, and_assoc]
  exact exists_congr fun record => and_congr_right fun _ => and_comm

theorem leads_eq (h : Indexes lineage records) : Leads lineage.next = Supersedes records := by
  funext a b
  exact propext h.next_iff

theorem linked [Chrono] [JsonText] (h : Indexes lineage records) (hsimple : SimpleChains Uuid records) :
    Linked lineage.next lineage.prev (records.map (·.flowRunId)) where
  prev_iff a b := by rw [h.next_iff, h.prev_iff]
  mem_sources a b hab := by
    obtain ⟨record, hmem, rfl, -⟩ := h.next_iff.mp hab
    exact List.mem_map_of_mem hmem
  acyclic := by
    rw [h.leads_eq]
    exact hsimple.acyclic

/-- The loops are not cut off. -/
theorem guard_le (h : Indexes lineage records) :
    (records.map (·.flowRunId)).length ≤ lineage.byPredecessor.entries.length := by
  rw [List.length_map]
  exact h.length_le

end Indexes

/-! ## Chains -/

section Chains

variable [Chrono] [JsonText]

/-- The chain of a run is the whole path through it. -/
theorem Indexes.chain_iff (h : Indexes lineage records) (hsimple : SimpleChains Uuid records)
    (run : String) (path : List String) :
    WholePath (Supersedes records) path ∧ lookupKey Uuid run ∈ path ↔ path = lineage.chain Uuid run := by
  rw [← h.leads_eq]
  exact (h.linked hsimple).eq_wholePath_iff h.guard_le

theorem Indexes.mem_chain (h : Indexes lineage records) (hsimple : SimpleChains Uuid records)
    (run : String) : lookupKey Uuid run ∈ lineage.chain Uuid run :=
  (h.linked hsimple).mem_wholePath h.guard_le _

theorem Indexes.nodup_chain (h : Indexes lineage records) (hsimple : SimpleChains Uuid records)
    (run : String) : (lineage.chain Uuid run).Nodup :=
  (h.linked hsimple).nodup (isChain_walk ..)

/-- The runs of a chain are spelled as they are looked up. -/
theorem Indexes.lookupKey_mem_chain (h : Indexes lineage records) (hsimple : SimpleChains Uuid records)
    {run other : String} (hother : other ∈ lineage.chain Uuid run) : lookupKey Uuid other = other := by
  have hlinked := h.linked hsimple
  have hback := h.leads_eq ▸ hlinked.reflTransGen_prev.mp
    (reflTransGen_walkEnd lineage.guardSteps (lookupKey Uuid run))
  have hchain : (lineage.chain Uuid run).IsChain (Leads lineage.next) := isChain_walk ..
  have hforth := h.leads_eq ▸ reflTransGen_of_mem hchain hother
  rcases hforth.cases_tail with heq | ⟨before, -, hlast⟩
  · rcases hback.cases_head with hroot | ⟨after, hfirst, -⟩
    · rw [heq, hroot, lookupKey_idem]
    · rw [heq]
      exact (hsimple.lookupKey_eq hfirst).1
  · exact (hsimple.lookupKey_eq hlast).2

/-- The runs of a chain report the same chain. -/
theorem Indexes.chain_eq (h : Indexes lineage records) (hsimple : SimpleChains Uuid records)
    {run other : String} (hother : other ∈ lineage.chain Uuid run) :
    lineage.chain Uuid other = lineage.chain Uuid run := by
  refine (h.linked hsimple).wholePath_eq h.guard_le ?_
  rw [h.lookupKey_mem_chain hsimple hother]
  exact hother

omit [Chrono] [JsonText] in
theorem chain_lookupKey (lineage : FlowLineage) (run : String) :
    lineage.chain Uuid (lookupKey Uuid run) = lineage.chain Uuid run := by
  rw [chain, lookupKey_idem, chain]

omit [Chrono] [JsonText] in
theorem view_chain (lineage : FlowLineage) (run : String) :
    (lineage.view Uuid run).chain = lineage.chain Uuid run :=
  lineage.chain_lookupKey run

omit [Chrono] [JsonText] in
variable (Uuid) in
theorem view_currentFlowRunId (lineage : FlowLineage) (run : String) :
    (lineage.chain Uuid run).getLast? = some (lineage.view Uuid run).currentFlowRunId := by
  have hlast := getLast?_walk lineage.next lineage.guardSteps
    (walkEnd lineage.prev lineage.guardSteps (lookupKey Uuid run))
  rw [view, chain_lookupKey]
  dsimp only
  rw [chain, hlast]
  rfl

/-! ## Requests -/

omit [Chrono] [JsonText] in
theorem closesCycle_ne (predecessor successor run : String) (existing : FlowSupersedeRecord) :
    alreadySuperseded run existing ≠ closesCycle predecessor successor ∧
      alreadySucceeds run existing ≠ closesCycle predecessor successor := by
  constructor <;>
  · intro heq
    have hchars := congrArg String.toList heq
    simp [alreadySuperseded, alreadySucceeds, closesCycle] at hchars

theorem Indexes.wouldCycle_iff (h : Indexes lineage records) (hsimple : SimpleChains Uuid records)
    (hb : lookupKey Uuid b = b) :
    lineage.wouldCycle Uuid a b = true ↔ TransGen (Supersedes records) b a := by
  rw [wouldCycle, hb, ← h.leads_eq]
  exact (h.linked hsimple).meets_iff h.guard_le

/-- How a request with canonical runs is classified. -/
inductive Classified (lineage : FlowLineage) (records : List FlowSupersedeRecord) (a b : String)
    (reason : SupersedeReason) : Except FlowLineageError (Option FlowSupersedeRecord) → Prop
  | same (heq : a = b) :
    Classified lineage records a b reason
      (.error (.invalid "successorFlowRunId must differ from flowRunId"))
  | reused (record : FlowSupersedeRecord) (hmem : record ∈ records) (hrun : record.flowRunId = a)
    (hsuccessor : record.successorFlowRunId = b) (hreason : record.reason = reason) :
    Classified lineage records a b reason (.ok (some record))
  | superseded (record : FlowSupersedeRecord) (hmem : record ∈ records) (hrun : record.flowRunId = a)
    (hother : ¬ (record.successorFlowRunId = b ∧ record.reason = reason)) :
    Classified lineage records a b reason (.error (.conflict (alreadySuperseded a record)))
  | succeeds (record : FlowSupersedeRecord) (hmem : record ∈ records)
    (hnew : a ∉ records.map (·.flowRunId)) (hsuccessor : record.successorFlowRunId = b) :
    Classified lineage records a b reason (.error (.conflict (alreadySucceeds b record)))
  | cycle (hnew : a ∉ records.map (·.flowRunId)) (hpath : TransGen (Supersedes records) b a) :
    Classified lineage records a b reason (.error (.conflict (closesCycle a b)))
  | fresh (hne : a ≠ b) (hnew : a ∉ records.map (·.flowRunId))
    (hnew' : b ∉ records.map (·.successorFlowRunId)) (hpath : ¬ TransGen (Supersedes records) b a) :
    Classified lineage records a b reason (.ok none)

theorem Indexes.classified (h : Indexes lineage records) (hsimple : SimpleChains Uuid records)
    (ha : canonicalFlowRunId Uuid a = .ok a) (hb : canonicalFlowRunId Uuid b = .ok b)
    (reason : SupersedeReason) :
    Classified lineage records a b reason (lineage.classify Uuid a b reason) := by
  rw [classify, ha, hb]
  dsimp only [bind, Except.bind, pure, Except.pure]
  rw [ensure]
  split
  · next heq =>
    split at heq
    · cases heq
    · next hsame =>
      cases heq
      exact .same (not_not.mp hsame)
  · next heq =>
    have hne : a ≠ b := by
      split at heq
      · assumption
      · cases heq
    cases hpredecessor : lineage.byPredecessor.get? a with
    | some record =>
      obtain ⟨hmem, hrun⟩ := (h.byPredecessor_iff a record).mp hpredecessor
      dsimp only
      split
      · next hmatch =>
        rw [FlowSupersedeRecord.matchesRequest, Bool.and_eq_true, decide_eq_true_eq,
          decide_eq_true_eq] at hmatch
        exact .reused record hmem hrun hmatch.1 hmatch.2
      · next hmatch =>
        rw [FlowSupersedeRecord.matchesRequest, Bool.and_eq_true, decide_eq_true_eq,
          decide_eq_true_eq] at hmatch
        exact .superseded record hmem hrun hmatch
    | none =>
      have hnew := (get?_eq_none h.byPredecessor_iff).mp hpredecessor
      dsimp only
      cases hsuccessor : lineage.bySuccessor.get? b with
      | some record =>
        obtain ⟨hmem, hrun⟩ := (h.bySuccessor_iff b record).mp hsuccessor
        exact .succeeds record hmem hnew hrun
      | none =>
        have hnew' := (get?_eq_none h.bySuccessor_iff).mp hsuccessor
        have hcycle := h.wouldCycle_iff (a := a) hsimple (lookupKey_eq hb)
        dsimp only
        split
        · next hwould => exact .cycle hnew (hcycle.mp hwould)
        · next hwould => exact .fresh hne hnew hnew' (fun hpath => hwould (hcycle.mpr hpath))

end Chains

end FlowLineage

/-! ## Calls -/

namespace SupersedeCall

/-- The ledger holds these records. -/
def Recorded (Uuid : Type) [UuidText Uuid] [Chrono] [JsonText] (file : Bytes) (records : List FlowSupersedeRecord) :
    Prop :=
  Holds file (records.map FlowSupersedeRecord.line) ∧ SimpleChains Uuid records

/-- The call asks for what a record says, in any spelling of the runs. -/
def Repeats (Uuid : Type) [UuidText Uuid] (call : SupersedeCall) (record : FlowSupersedeRecord) : Prop :=
  canonicalFlowRunId Uuid call.predecessor = .ok record.flowRunId ∧
    canonicalFlowRunId Uuid call.successor = .ok record.successorFlowRunId ∧
    call.reason = record.reason

/-- How a call ends. -/
inductive Outcome (Uuid : Type) [UuidText Uuid] [Chrono] [JsonText] (call : SupersedeCall) (file : Bytes)
    (records : List FlowSupersedeRecord) : Except FlowLineageError SupersedeOutcome × Bytes → Prop
  | failed (error : FlowLineageError) (hunmatched : ∀ record ∈ records, ¬ call.Repeats Uuid record)
    (hcycle : ∀ a b, canonicalFlowRunId Uuid call.predecessor = .ok a →
      canonicalFlowRunId Uuid call.successor = .ok b →
      error = .conflict (FlowLineage.closesCycle a b) → TransGen (Supersedes records) b a) :
    Outcome Uuid call file records (.error error, file)
  | reused (record : FlowSupersedeRecord) (hmem : record ∈ records)
    (hrepeats : call.Repeats Uuid record) :
    Outcome Uuid call file records (.ok ⟨true, .reused, record⟩, file)
  | rewritten (result : Except FlowLineageError SupersedeOutcome) (record : FlowSupersedeRecord)
    (dropped : Nat) (hfits : FitsIn Uuid records record) (hrepeats : call.Repeats Uuid record)
    (hresult : result = .error .io ∨ result = .ok ⟨true, .recorded, record⟩) :
    Outcome Uuid call file records
      (result, writeLines ((records.drop dropped ++ [record]).map FlowSupersedeRecord.line))
  | added (result : Except FlowLineageError SupersedeOutcome) (record : FlowSupersedeRecord)
    (bytes : Nat) (hfits : FitsIn Uuid records record) (hrepeats : call.Repeats Uuid record)
    (hresult : result = .error .io ∨
      result = .ok ⟨true, .recorded, record⟩ ∧ bytes = (lineBytes record.line).length) :
    Outcome Uuid call file records (result, truncateTail file ++ (lineBytes record.line).take bytes)

variable [Chrono] [JsonText] {call : SupersedeCall} {file : Bytes}

/-- What a reader of the ledger gets. -/
theorem Recorded.read (h : Recorded Uuid file records) : ∃ numbered lineage,
    readSupersedeRecords Uuid file = .ok numbered ∧ numbered.map Prod.snd = records ∧
      FlowLineage.index numbered = .ok lineage ∧ lineage.Indexes records := by
  obtain ⟨numbered, hread, hrecords⟩ := h.1.readNumbered_eq fun record hmem =>
    FlowSupersedeRecord.readsBack (h.2.valid record hmem)
  obtain ⟨lineage, hindex, hlineage⟩ := FlowLineage.Indexes.index (hrecords ▸ h.2.predecessors)
    (hrecords ▸ h.2.successors)
  rw [hrecords] at hlineage
  refine ⟨numbered, lineage, ?_, hrecords, hindex, hlineage⟩
  rw [readSupersedeRecords, hread]
  rfl

omit [Chrono] [JsonText] in
theorem repaired_eq (file : Bytes) : (if isTorn file then truncateTail file else file) = truncateTail file := by
  split
  · rfl
  · next htorn =>
    have hwhole : file = [] ∨ file.getLast? = some lf := by
      simpa [isTorn, Classical.or_iff_not_imp_left] using htorn
    rw [truncateTail, completePrefix, if_pos hwhole, List.take_length]

/-- A record to write, and how the disk goes along with it. -/
theorem outcome_recorded (hfits : FitsIn Uuid records record) (hrepeats : call.Repeats Uuid record)
    {numbered : List (Nat × FlowSupersedeRecord)}
    (hnumbered : numbered.map Prod.snd = records)
    (hprepare : call.prepare Uuid file = .ok (numbered, .recorded, record)) :
    Outcome Uuid call file records (call.recordSupersedeBounded Uuid file) := by
  -- no record of the ledger is repeated, since the one to write is new
  have hunmatched : ∀ other ∈ records, ¬ call.Repeats Uuid other := by
    rintro other hother ⟨hrun, -⟩
    rw [hrepeats.1, Except.ok.injEq] at hrun
    exact hfits.predecessor (hrun ▸ List.mem_map_of_mem hother)
  have hkept : kept numbered call.maxRecords record =
      records.drop (numbered.length + 1 - call.maxRecords) ++ [record] := by
    rw [kept, List.map_drop, hnumbered]
  have hio : ∀ a b, canonicalFlowRunId Uuid call.predecessor = .ok a →
      canonicalFlowRunId Uuid call.successor = .ok b →
      FlowLineageError.io = .conflict (FlowLineage.closesCycle a b) →
      TransGen (Supersedes records) b a := fun a b ha hb heq => nomatch heq
  rw [recordSupersedeBounded, hprepare]
  dsimp only
  by_cases hfull : numbered.length ≥ call.maxRecords
  · rw [write, if_pos hfull, hkept]
    cases call.disk with
    | refused | stopped bytes => exact .failed _ hunmatched hio
    | unsynced => exact .rewritten _ record _ hfits hrepeats (.inl rfl)
    | fine => exact .rewritten _ record _ hfits hrepeats (.inr rfl)
  · rw [write, if_neg hfull]
    have hwhole : truncateTail file ++ lineBytes record.line =
        truncateTail file ++ (lineBytes record.line).take (lineBytes record.line).length := by
      rw [List.take_length]
    simp only [appendRecord, repaired_eq]
    cases call.disk with
    | refused => exact .failed _ hunmatched hio
    | stopped bytes => exact .added _ record bytes hfits hrepeats (.inl rfl)
    | unsynced =>
      dsimp only
      rw [hwhole]
      exact .added _ record _ hfits hrepeats (.inl rfl)
    | fine =>
      dsimp only
      rw [hwhole]
      exact .added _ record _ hfits hrepeats (.inr ⟨rfl, rfl⟩)

theorem recordSupersedeBounded_of_error {error : FlowLineageError}
    (h : call.prepare Uuid file = .error error) :
    call.recordSupersedeBounded Uuid file = (.error error, file) := by
  rw [recordSupersedeBounded, h]

/-- A call whose runs are UUIDs. -/
theorem outcome_canonical (h : Recorded Uuid file records)
    (ha : canonicalFlowRunId Uuid call.predecessor = .ok a)
    (hb : canonicalFlowRunId Uuid call.successor = .ok b) :
    Outcome Uuid call file records (call.recordSupersedeBounded Uuid file) := by
  obtain ⟨numbered, lineage, hread, hnumbered, hindex, hlineage⟩ := h.read
  have hprepare : call.prepare Uuid file =
      lineage.classify Uuid a b call.reason >>= fun found => match found with
        | some record => return (numbered, .reused, record)
        | none => do
          ((call.record a b).validate Uuid).mapError .invalid
          return (numbered, .recorded, call.record a b) := by
    rw [prepare, ha, hb]
    dsimp only [bind, Except.bind]
    rw [hread]
    dsimp only
    rw [hindex]
  have hrepeated : ∀ record, call.Repeats Uuid record →
      record.flowRunId = a ∧ record.successorFlowRunId = b ∧ record.reason = call.reason := by
    rintro record ⟨hrun, hsuccessor, hreason⟩
    rw [ha, Except.ok.injEq] at hrun
    rw [hb, Except.ok.injEq] at hsuccessor
    exact ⟨hrun.symm, hsuccessor.symm, hreason.symm⟩
  -- a run that no record supersedes is repeated by none
  have hunmatched : a ∉ records.map (·.flowRunId) → ∀ record ∈ records, ¬ call.Repeats Uuid record := by
    intro hnew record hmem hrepeats
    exact hnew ((hrepeated record hrepeats).1 ▸ List.mem_map_of_mem hmem)
  have hclassified := hlineage.classified h.2 (canonicalFlowRunId_idem ha) (canonicalFlowRunId_idem hb)
    call.reason
  generalize lineage.classify Uuid a b call.reason = classified at hprepare hclassified
  cases hclassified with
  | same heq =>
    rw [recordSupersedeBounded_of_error hprepare]
    refine .failed _ ?_ fun _ _ _ _ herror => nomatch herror
    intro record hmem hrepeats
    obtain ⟨hrun, hsuccessor, -⟩ := hrepeated record hrepeats
    obtain ⟨-, -, -, hne, -⟩ := FlowSupersedeRecord.validate_eq_ok.mp (h.2.valid record hmem)
    exact hne (by rw [hrun, hsuccessor, heq])
  | reused record hmem hrun hsuccessor hreason =>
    rw [recordSupersedeBounded, hprepare]
    exact .reused record hmem ⟨by rw [ha, hrun], by rw [hb, hsuccessor], hreason.symm⟩
  | superseded record hmem hrun hother =>
    rw [recordSupersedeBounded_of_error hprepare]
    refine .failed _ ?_ ?_
    · intro other hotherMem hrepeats
      obtain ⟨hrun', hsuccessor', hreason'⟩ := hrepeated other hrepeats
      rw [h.2.eq_of_predecessor hmem hotherMem (hrun.trans hrun'.symm)] at hother
      exact hother ⟨hsuccessor', hreason'⟩
    · intro _ _ _ _ herror
      exact absurd (FlowLineageError.conflict.inj herror) (FlowLineage.closesCycle_ne ..).1
  | succeeds record hmem hnew hsuccessor =>
    rw [recordSupersedeBounded_of_error hprepare]
    refine .failed _ (hunmatched hnew) ?_
    intro _ _ _ _ herror
    exact absurd (FlowLineageError.conflict.inj herror) (FlowLineage.closesCycle_ne ..).2
  | cycle hnew hpath =>
    rw [recordSupersedeBounded_of_error hprepare]
    refine .failed _ (hunmatched hnew) ?_
    intro a' b' ha' hb' _
    rw [ha, Except.ok.injEq] at ha'
    rw [hb, Except.ok.injEq] at hb'
    rwa [← ha', ← hb']
  | fresh hne hnew hnew' hpath =>
    cases hvalid : (call.record a b).validate Uuid with
    | error reason =>
      rw [hvalid] at hprepare
      rw [recordSupersedeBounded_of_error hprepare]
      exact .failed _ (hunmatched hnew) fun _ _ _ _ herror => nomatch herror
    | ok _ =>
      rw [hvalid] at hprepare
      have hnoPath : ¬ ReflTransGen (Supersedes records) b a := by
        intro hpath'
        rcases reflTransGen_iff_eq_or_transGen.mp hpath' with heq | hpath'
        · exact hne heq
        · exact hpath hpath'
      exact outcome_recorded ⟨hvalid, hnew, hnew', hnoPath⟩ ⟨ha, hb, rfl⟩ hnumbered hprepare

theorem outcome (h : Recorded Uuid file records) (call : SupersedeCall) :
    Outcome Uuid call file records (call.recordSupersedeBounded Uuid file) := by
  cases ha : canonicalFlowRunId Uuid call.predecessor with
  | error error =>
    have hprepare : call.prepare Uuid file = .error error := by
      rw [prepare, ha]
      rfl
    rw [recordSupersedeBounded_of_error hprepare]
    refine .failed error ?_ ?_
    · rintro record hmem ⟨hrun, -⟩
      exact absurd (ha.symm.trans hrun) nofun
    · intro a b hrun
      exact absurd (ha.symm.trans hrun) nofun
  | ok a =>
    cases hb : canonicalFlowRunId Uuid call.successor with
    | error error =>
      have hprepare : call.prepare Uuid file = .error error := by
        rw [prepare, ha, hb]
        rfl
      rw [recordSupersedeBounded_of_error hprepare]
      refine .failed error ?_ ?_
      · rintro record hmem ⟨-, hsuccessor, -⟩
        exact absurd (hb.symm.trans hsuccessor) nofun
      · intro a b hrun hsuccessor
        exact absurd (hb.symm.trans hsuccessor) nofun
    | ok b => exact outcome_canonical h ha hb

/-- A call leaves a ledger of simple chains, with the record that it reports. -/
theorem Recorded.step (h : Recorded Uuid file records) (call : SupersedeCall) :
    ∃ left, Recorded Uuid (call.recordSupersedeBounded Uuid file).2 left ∧
      ∀ reported, (call.recordSupersedeBounded Uuid file).1 = .ok reported →
        call.Repeats Uuid reported.record ∧ reported.record ∈ left := by
  have houtcome := outcome h call
  generalize call.recordSupersedeBounded Uuid file = ended at houtcome
  cases houtcome with
  | failed error => exact ⟨records, h, nofun⟩
  | reused record hmem hrepeats =>
    refine ⟨records, h, ?_⟩
    intro reported hreported
    cases hreported
    exact ⟨hrepeats, hmem⟩
  | rewritten _ record dropped hfits hrepeats hresult =>
    have hsub := List.drop_sublist dropped records
    refine ⟨records.drop dropped ++ [record], ⟨Holds.of_writeLines ?_, ?_⟩, ?_⟩
    · intro text htext
      obtain ⟨other, -, rfl⟩ := List.mem_map.mp htext
      exact other.newline_not_mem_line
    · exact (h.2.sublist hsub).concat (hfits.sublist hsub)
    · intro reported hreported
      dsimp only at hreported
      rcases hresult with rfl | rfl
      · cases hreported
      · cases hreported
        exact ⟨hrepeats, List.mem_append_right _ (List.mem_singleton_self _)⟩
  | added _ record bytes hfits hrepeats hresult =>
    have hfile := h.1.append_take record.newline_not_mem_line bytes
    split at hfile
    · refine ⟨records ++ [record], ⟨?_, h.2.concat hfits⟩, ?_⟩
      · rw [List.map_append]
        exact hfile
      · intro reported hreported
        dsimp only at hreported
        rcases hresult with rfl | ⟨rfl, -⟩
        · cases hreported
        · cases hreported
          exact ⟨hrepeats, List.mem_append_right _ (List.mem_singleton_self _)⟩
    · next hshort =>
      refine ⟨records, ⟨hfile, h.2⟩, ?_⟩
      intro reported hreported
      dsimp only at hreported
      rcases hresult with rfl | ⟨-, hbytes⟩
      · cases hreported
      · exact absurd hbytes.ge hshort

/-- A call that is refused as a cycle would have closed one. -/
theorem Recorded.path_of_cycle (h : Recorded Uuid file records)
    (ha : canonicalFlowRunId Uuid call.predecessor = .ok a)
    (hb : canonicalFlowRunId Uuid call.successor = .ok b)
    (herror : (call.recordSupersedeBounded Uuid file).1 =
      .error (.conflict (FlowLineage.closesCycle a b))) :
    TransGen (Supersedes records) b a := by
  have houtcome := outcome h call
  generalize call.recordSupersedeBounded Uuid file = ended at houtcome herror
  cases houtcome with
  | failed error _ hcycle => exact hcycle a b ha hb (Except.error.inj herror)
  | reused => cases herror
  | rewritten _ _ _ _ _ hresult =>
    dsimp only at herror
    rcases hresult with rfl | rfl <;> cases herror
  | added _ _ _ _ _ hresult =>
    dsimp only at herror
    rcases hresult with rfl | ⟨rfl, -⟩ <;> cases herror

/-- A call that repeats a record returns it and writes nothing. -/
theorem Recorded.reused (h : Recorded Uuid file records) (hmem : record ∈ records)
    (hrepeats : call.Repeats Uuid record) :
    call.recordSupersedeBounded Uuid file = (.ok ⟨true, .reused, record⟩, file) := by
  have houtcome := outcome h call
  have hsame : ∀ other, call.Repeats Uuid other → record.flowRunId = other.flowRunId := by
    rintro other ⟨hrun, -⟩
    rw [hrepeats.1, Except.ok.injEq] at hrun
    exact hrun
  generalize call.recordSupersedeBounded Uuid file = ended at houtcome
  cases houtcome with
  | failed error hunmatched => exact absurd hrepeats (hunmatched record hmem)
  | reused other hother hrepeats' =>
    rw [h.2.eq_of_predecessor hmem hother (hsame other hrepeats')]
  | rewritten _ other _ hfits hrepeats' | added _ other _ hfits hrepeats' =>
    exact absurd (hsame other hrepeats' ▸ List.mem_map_of_mem hmem) hfits.predecessor

theorem recorded_ledgerAfter (Uuid : Type) [UuidText Uuid] (calls : List SupersedeCall) :
    ∃ records, Recorded Uuid (ledgerAfter Uuid calls) records := by
  induction calls using List.reverseRecOn with
  | nil => exact ⟨[], Holds.nil, .nil⟩
  | append_singleton calls call ih =>
    obtain ⟨records, hrecorded⟩ := ih
    obtain ⟨left, hleft, -⟩ := hrecorded.step call
    refine ⟨left, ?_⟩
    rw [ledgerAfter, List.foldl_append]
    exact hleft

/-- What holds of a ledger of simple chains. -/
structure DisjointChains (Uuid : Type) [UuidText Uuid] (records : List FlowSupersedeRecord)
    (lineage : FlowLineage) : Prop where
  /-- A run has at most one successor and at most one predecessor, and does not come back to itself. -/
  successor_unique : ∀ a b c, Supersedes records a b → Supersedes records a c → b = c
  predecessor_unique : ∀ a b c, Supersedes records a c → Supersedes records b c → a = b
  acyclic : ∀ a, ¬ TransGen (Supersedes records) a a
  /-- The chain of a run contains the run, has no repetition, and is the one path through the run that
  cannot be made longer. -/
  mem_chain : ∀ run, lookupKey Uuid run ∈ lineage.chain Uuid run
  nodup_chain : ∀ run, (lineage.chain Uuid run).Nodup
  chain_iff : ∀ run path, WholePath (Supersedes records) path ∧ lookupKey Uuid run ∈ path ↔
    path = lineage.chain Uuid run
  /-- The runs of a chain report the same chain and the same current run. -/
  chain_eq : ∀ run, ∀ other ∈ lineage.chain Uuid run,
    lineage.chain Uuid other = lineage.chain Uuid run ∧
    (lineage.view Uuid other).chain = (lineage.view Uuid run).chain ∧
    (lineage.view Uuid other).currentFlowRunId = (lineage.view Uuid run).currentFlowRunId

theorem Recorded.disjointChains {lineage : FlowLineage} (h : Recorded Uuid file records)
    (hindex : lineage.Indexes records) : DisjointChains Uuid records lineage where
  successor_unique _ _ _ := h.2.successor_unique
  predecessor_unique _ _ _ := h.2.predecessor_unique
  acyclic := h.2.acyclic
  mem_chain := hindex.mem_chain h.2
  nodup_chain := hindex.nodup_chain h.2
  chain_iff := hindex.chain_iff h.2
  chain_eq run other hother := by
    have hchain := hindex.chain_eq h.2 hother
    refine ⟨hchain, by rw [FlowLineage.view_chain, FlowLineage.view_chain, hchain], ?_⟩
    have hlast := lineage.view_currentFlowRunId Uuid run
    rw [← hchain, lineage.view_currentFlowRunId Uuid other] at hlast
    exact Option.some.inj hlast

/-- Whatever the calls were and wherever their writes stopped: the ledger reads back, and its runs form
disjoint simple chains that each of their members reports. A call is refused as a cycle only if there
is a path from its successor to its predecessor; one that repeats a record of the ledger, in any
spelling, returns the record and leaves the file as it is; and a record that is reported is in the
ledger. -/
theorem lineage_stays_simple (Uuid : Type) [UuidText Uuid] (calls : List SupersedeCall) :
    ∃ numbered lineage, readSupersedeRecords Uuid (ledgerAfter Uuid calls) = .ok numbered ∧
      FlowLineage.read Uuid (ledgerAfter Uuid calls) = .ok lineage ∧
      DisjointChains Uuid (numbered.map Prod.snd) lineage ∧
      ∀ call : SupersedeCall,
        (∀ a b, canonicalFlowRunId Uuid call.predecessor = .ok a →
          canonicalFlowRunId Uuid call.successor = .ok b →
          (call.recordSupersedeBounded Uuid (ledgerAfter Uuid calls)).1 =
            .error (.conflict (FlowLineage.closesCycle a b)) →
          TransGen (Supersedes (numbered.map Prod.snd)) b a) ∧
        (∀ record ∈ numbered.map Prod.snd, call.Repeats Uuid record →
          call.recordSupersedeBounded Uuid (ledgerAfter Uuid calls) =
            (.ok ⟨true, .reused, record⟩, ledgerAfter Uuid calls)) ∧
        ∀ reported, (call.recordSupersedeBounded Uuid (ledgerAfter Uuid calls)).1 = .ok reported →
          call.Repeats Uuid reported.record ∧
          ∃ left, readSupersedeRecords Uuid
              (call.recordSupersedeBounded Uuid (ledgerAfter Uuid calls)).2 = .ok left ∧
            reported.record ∈ left.map Prod.snd := by
  obtain ⟨records, hrecorded⟩ := recorded_ledgerAfter Uuid calls
  generalize ledgerAfter Uuid calls = file at hrecorded
  obtain ⟨numbered, lineage, hread, rfl, hindex, hlineage⟩ := hrecorded.read
  refine ⟨numbered, lineage, hread, ?_, hrecorded.disjointChains hlineage, fun call => ⟨?_, ?_, ?_⟩⟩
  · rw [FlowLineage.read, hread]
    exact hindex
  · intro a b ha hb herror
    exact hrecorded.path_of_cycle ha hb herror
  · intro record hmem hrepeats
    exact hrecorded.reused hmem hrepeats
  · intro reported hreported
    obtain ⟨left, hleft, hkept⟩ := hrecorded.step call
    obtain ⟨numberedLeft, -, hreadLeft, rfl, -⟩ := hleft.read
    obtain ⟨hrepeats, hmem⟩ := hkept reported hreported
    exact ⟨hrepeats, numberedLeft, hreadLeft, hmem⟩

end SupersedeCall

end Tally.Flow
