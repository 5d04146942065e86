import Tally.Lib.Log
import Tally.Lib.Digits
import Tally.Lib.JsonSize
import Tally.Lib.JsonText
import Tally.Lib.Numbered

/-!
# The store of changes

The bounded log of change records and the window of the newest ones that watchers are served from
(`watch.rs`). An append adds a line to the file and a record to the window; when the file has twice as
many records as the window may have, it is replaced by the window. Opening the store cuts off a line
that was not finished and reads the window back.
-/

namespace Tally.Watch

open Tally.Lib

def changeSchemaVersion : UInt32 := 1

def querySchemaVersion : UInt32 := 1

def queryProtocolVersion : UInt32 := 5

def maxWatchPageItems : Nat := 1000

def defaultWatchPageItems : Nat := 100

def watchResultCapBytes : Nat := 48 * 1024

inductive ChangeError
  | io
  | json (reason : String)
  | invalid (reason : String)
  deriving DecidableEq

inductive ChangeKind
  | job
  | lifecycle
  | trace
  | proof
  | pool
  | producer
  deriving DecidableEq

namespace ChangeKind

def name : ChangeKind → String
  | job => "job"
  | lifecycle => "lifecycle"
  | trace => "trace"
  | proof => "proof"
  | pool => "pool"
  | producer => "producer"

def all : List ChangeKind := [job, lifecycle, trace, proof, pool, producer]

def fromValue : Value → Except String ChangeKind
  | .string text => orError (all.find? fun kind => kind.name = text) ("unknown variant `" ++ text ++ "`")
  | _ => .error "invalid type: expected enum ChangeKind"

@[simp] theorem fromValue_name (kind : ChangeKind) : fromValue (.string kind.name) = .ok kind := by
  cases kind <;> rfl

end ChangeKind

/-! ## Cursors -/

def changePrefix : List Char := ['c', 'h', 'a', 'n', 'g', 'e', ':']

def changeCursor (sequence : Nat) : String := numberCursor changePrefix sequence

def parseChangeCursor (cursor : String) : Except ChangeError Nat :=
  orError (parseNumberCursor changePrefix cursor) (.invalid "invalid watch cursor")

theorem parseChangeCursor_changeCursor {n : Nat} (h : n ≤ u64Max) :
    parseChangeCursor (changeCursor n) = .ok n := by
  rw [parseChangeCursor, changeCursor, parseNumberCursor_numberCursor _ h]
  rfl

/-! ## Records -/

structure ChangeRecord where
  schemaVersion : UInt32
  protocolVersion : UInt32
  sequence : Nat
  cursor : String
  observedAt : String
  kind : ChangeKind
  payload : Value
  deriving DecidableEq

namespace ChangeRecord

def knownFields : List String :=
  ["schemaVersion", "protocolVersion", "sequence", "cursor", "observedAt", "kind", "payload"]

def toValue (record : ChangeRecord) : Value :=
  .object [("schemaVersion", natNumber record.schemaVersion.toNat),
    ("protocolVersion", natNumber record.protocolVersion.toNat),
    ("sequence", natNumber record.sequence), ("cursor", .string record.cursor),
    ("observedAt", .string record.observedAt), ("kind", .string record.kind.name),
    ("payload", record.payload)]

def line (record : ChangeRecord) : List Char := render record.toValue

/-- The derived decoder; members with other names are refused. -/
def fromValue : Value → Except String ChangeRecord
  | .object fields => do
    ensure (∀ member ∈ fields, member.1 ∈ knownFields) "unknown field"
    let schemaVersion ← Decode.required Decode.u32 fields "schemaVersion"
    let protocolVersion ← Decode.required Decode.u32 fields "protocolVersion"
    let sequence ← Decode.required Decode.u64 fields "sequence"
    let cursor ← Decode.required Decode.text fields "cursor"
    let observedAt ← Decode.required Decode.text fields "observedAt"
    let kind ← Decode.required ChangeKind.fromValue fields "kind"
    let payload ← Decode.required Except.ok fields "payload"
    return ⟨schemaVersion, protocolVersion, sequence.toNat, cursor, observedAt, kind, payload⟩
  | _ => .error "invalid type: expected struct ChangeRecord"

def parse [JsonText] (text : List Char) : Except String ChangeRecord := do
  fromValue (← JsonText.read text)

end ChangeRecord

/-- `from_slice` of a line. -/
def parseLine [JsonText] (piece : Bytes) : Except ChangeError ChangeRecord :=
  match decode piece with
  | none => .error (.json "invalid unicode code point")
  | some text => (ChangeRecord.parse text).mapError .json

/-- The records follow one another. -/
def validateFrom : Option ChangeRecord → List ChangeRecord → Except ChangeError Unit
  | _, [] => .ok ()
  | before, record :: rest => do
    ensure (record.schemaVersion = changeSchemaVersion ∧
        record.protocolVersion = queryProtocolVersion ∧
        record.cursor = changeCursor record.sequence)
      (ChangeError.invalid ("change record " ++ record.sequence.repr ++
        " has an invalid schema or cursor"))
    ensure (∀ previous ∈ before, saturatingAdd previous.sequence 1 = record.sequence)
      (ChangeError.invalid ("change sequence " ++ record.sequence.repr ++ " is not contiguous"))
    validateFrom (some record) rest

def validateRecords (records : List ChangeRecord) : Except ChangeError Unit := validateFrom none records

def decodeRecords [JsonText] (file : Bytes) : Except ChangeError (List ChangeRecord) := do
  let pieces := (split lf file).1 ++ [(split lf file).2]
  let records ← (pieces.filter (· ≠ [])).mapM parseLine
  validateRecords records
  return records

/-! ## The store -/

structure ChangeStore where
  records : List ChangeRecord
  capacity : Nat
  diskRecords : Nat
  /-- The open file is the one at the path, not one that was replaced there. -/
  linked : Bool
  deriving DecidableEq

/-- How the file system goes along with a replacement of the file. -/
inductive Replacement
  | fine
  /-- The file is not replaced. -/
  | refused
  /-- The file is replaced, and what follows fails. -/
  | unsynced
  deriving DecidableEq

def rewrite (file : Bytes) (records : List ChangeRecord) :
    Replacement → Except ChangeError Unit × Bytes
  | .fine => (.ok (), writeLines (records.map ChangeRecord.line))
  | .refused => (.error .io, file)
  | .unsynced => (.error .io, writeLines (records.map ChangeRecord.line))

/-- How the file system goes along with an append. -/
inductive Append
  | fine
  /-- The write stops after that many bytes. -/
  | stopped (bytes : Nat)
  /-- Everything is written, and the synchronisation fails. -/
  | unsynced
  deriving DecidableEq

namespace ChangeStore

/-- As many records make the file be replaced. -/
def threshold (capacity : Nat) : Nat := min (capacity * 2) usizeMax

/-- `open_with_capacity` of a file whose records were read. -/
def openRecords (capacity : Nat) (file : Bytes) (records : List ChangeRecord)
    (replacement : Replacement) : Except ChangeError ChangeStore × Bytes :=
  if records.length ≥ threshold capacity then
    let kept := newest capacity records
    match rewrite file kept replacement with
    | (.error error, file) => (.error error, file)
    | (.ok (), file) => (.ok ⟨kept, capacity, capacity, true⟩, file)
  else (.ok ⟨newest capacity records, capacity, records.length, true⟩, file)

/-- The result, and the file after it. A log that cannot be read is discarded. -/
def openWithCapacity [JsonText] (capacity : Nat) (file : Bytes) (replacement : Replacement) :
    Except ChangeError ChangeStore × Bytes :=
  if capacity = 0 then (.error (.invalid "change retention capacity must be positive"), file)
  else
    let file := truncateTail file
    match decodeRecords file with
    | .ok records => openRecords capacity file records replacement
    | .error _ =>
      match rewrite file [] replacement with
      | (.error error, file) => (.error error, file)
      | (.ok (), file) => openRecords capacity file [] .fine

def nextSequence (store : ChangeStore) : Nat :=
  match store.records.getLast? with
  | none => 1
  | some record => saturatingAdd record.sequence 1

/-- The record of an append. -/
def newRecord (store : ChangeStore) (kind : ChangeKind) (payload : Value) (now : String) :
    ChangeRecord where
  schemaVersion := changeSchemaVersion
  protocolVersion := queryProtocolVersion
  sequence := store.nextSequence
  cursor := changeCursor store.nextSequence
  observedAt := now
  kind := kind
  payload := payload

/-- A record in the window; the oldest one goes if there are too many. -/
def push (store : ChangeStore) (record : ChangeRecord) : ChangeStore :=
  let records := store.records ++ [record]
  { store with
    records := if records.length > store.capacity then records.drop 1 else records
    diskRecords := store.diskRecords + 1 }

/-- A write through the handle of the store, as far as it is seen at the path. -/
def write (store : ChangeStore) (file bytes : Bytes) : Bytes :=
  if store.linked then file ++ bytes else file

theorem write_linked {store : ChangeStore} (h : store.linked = true) (file bytes : Bytes) :
    store.write file bytes = file ++ bytes :=
  if_pos h

theorem write_unlinked {store : ChangeStore} (h : store.linked = false) (file bytes : Bytes) :
    store.write file bytes = file := by
  rw [write, h, if_neg Bool.false_ne_true]

/-- The result, the store and the file after it. -/
def appendNow (store : ChangeStore) (file : Bytes) (kind : ChangeKind) (payload : Value)
    (now : String) (append : Append) (replacement : Replacement) :
    Except ChangeError ChangeRecord × ChangeStore × Bytes :=
  let record := store.newRecord kind payload now
  match append with
  | .stopped bytes => (.error .io, store, store.write file ((lineBytes record.line).take bytes))
  | .unsynced => (.error .io, store, store.write file (lineBytes record.line))
  | .fine =>
    let file := store.write file (lineBytes record.line)
    let pushed := store.push record
    if pushed.diskRecords ≥ threshold store.capacity then
      match rewrite file pushed.records replacement with
      | (.error error, file) =>
        (.error error, { pushed with linked := store.linked && replacement == .refused }, file)
      | (.ok (), file) =>
        (.ok record, { pushed with diskRecords := pushed.records.length, linked := true }, file)
    else (.ok record, pushed, file)

end ChangeStore

/-! ## Watching -/

inductive WatchStatus
  | ok
  | cursorExpired
  deriving DecidableEq

def WatchStatus.name : WatchStatus → String
  | ok => "ok"
  | cursorExpired => "cursor-expired"

structure WatchTermination where
  condition : String
  reason : String
  deriving DecidableEq

structure WatchEnvelope where
  schemaVersion : UInt32
  protocolVersion : UInt32
  status : WatchStatus
  items : List ChangeRecord
  nextCursor : Option String
  earliestAvailableCursor : Option String
  resumeAfterCursor : Option String
  latestCursor : Option String
  retentionLimit : Nat
  termination : Option WatchTermination
  deriving DecidableEq

namespace WatchEnvelope

def textOrNull (text : Option String) : Value := text.elim .null .string

def toValue (envelope : WatchEnvelope) : Value :=
  .object [("schemaVersion", natNumber envelope.schemaVersion.toNat),
    ("protocolVersion", natNumber envelope.protocolVersion.toNat),
    ("status", .string envelope.status.name),
    ("items", .array (envelope.items.map ChangeRecord.toValue)),
    ("nextCursor", textOrNull envelope.nextCursor),
    ("earliestAvailableCursor", textOrNull envelope.earliestAvailableCursor),
    ("resumeAfterCursor", textOrNull envelope.resumeAfterCursor),
    ("latestCursor", textOrNull envelope.latestCursor),
    ("retentionLimit", natNumber envelope.retentionLimit),
    ("termination", envelope.termination.elim .null fun termination =>
      .object [("condition", .string termination.condition), ("reason", .string termination.reason)])]

end WatchEnvelope

namespace ChangeStore

def envelope (store : ChangeStore) (status : WatchStatus) (items : List ChangeRecord)
    (nextCursor : Option String) (termination : Option WatchTermination) : WatchEnvelope where
  schemaVersion := querySchemaVersion
  protocolVersion := queryProtocolVersion
  status := status
  items := items
  nextCursor := nextCursor
  earliestAvailableCursor := store.records.head?.map (·.cursor)
  resumeAfterCursor :=
    if status = .cursorExpired then
      some (changeCursor (store.records.head?.elim 0 (·.sequence - 1)))
    else none
  latestCursor := store.records.getLast?.map (·.cursor)
  retentionLimit := store.capacity
  termination := termination

/-- The envelope of these items is within the bound. -/
def fits (store : ChangeStore) (items : List ChangeRecord) : Bool :=
  size (store.envelope .ok items (items.getLast?.map (·.cursor)) none).toValue ≤ watchResultCapBytes

def tooLarge : ChangeError := .invalid "one watch change exceeds the bounded response size"

/-- The loop over the records to serve. -/
def collect (store : ChangeStore) (limit : Nat) :
    List ChangeRecord → List ChangeRecord → Except ChangeError (List ChangeRecord)
  | items, [] => .ok items
  | items, record :: rest =>
    if items.length = limit then .ok items
    else if store.fits (items ++ [record]) then collect store limit (items ++ [record]) rest
    else if items = [] then .error tooLarge
    else .ok items

def expired : WatchTermination := ⟨"gap", "cursor-expired"⟩

/-- A watch after a position. -/
def watchAfter (store : ChangeStore) (after limit : Nat) : Except ChangeError WatchEnvelope := do
  ensure ((∃ latest ∈ store.records.getLast?, after ≤ latest.sequence) ∨ after = 0)
    (ChangeError.invalid "watch cursor is ahead of the durable change log")
  if ∃ earliest ∈ store.records.head?, after < earliest.sequence - 1 then
    return store.envelope .cursorExpired [] none (some expired)
  else
    let items ← store.collect limit [] (store.records.filter fun record => after < record.sequence)
    let next := (items.getLast?.map (·.cursor)).getD (changeCursor after)
    return store.envelope .ok items (some next) none

def watch (store : ChangeStore) (after : Option String) (limit : Option Nat) :
    Except ChangeError WatchEnvelope := do
  let limit := limit.getD defaultWatchPageItems
  ensure (1 ≤ limit ∧ limit ≤ maxWatchPageItems)
    (ChangeError.invalid "watch limit must be between 1 and 1000")
  match after with
  | none =>
    let latest := store.records.getLast?.elim 0 (·.sequence)
    return store.envelope .ok [] (some (changeCursor latest)) none
  | some after => do
    let after ← parseChangeCursor after
    store.watchAfter after limit

end ChangeStore

/-! ## Records read back -/

/-- A payload that is read back as a member of a record. -/
structure Legible (payload : Value) : Prop where
  depth : depth payload < depthLimit
  verbatim : Verbatim payload

namespace ChangeRecord

variable {record : ChangeRecord}

/-- A record of the program. -/
structure Proper (record : ChangeRecord) : Prop where
  schemaVersion : record.schemaVersion = changeSchemaVersion
  protocolVersion : record.protocolVersion = queryProtocolVersion
  cursor : record.cursor = changeCursor record.sequence
  sequence_le : record.sequence ≤ u64Max
  legible : Legible record.payload

theorem fromValue_toValue (hsequence : record.sequence ≤ u64Max) :
    fromValue record.toValue = .ok record := by
  obtain ⟨schemaVersion, protocolVersion, sequence, cursor, observedAt, kind, payload⟩ := record
  dsimp only at hsequence
  have hnumber : (UInt64.ofNat sequence).toNat = sequence := by
    rw [UInt64.toNat_ofNat']
    unfold u64Max at hsequence
    omega
  have hu64 : Decode.u64 (natNumber sequence) = .ok (UInt64.ofNat sequence) := by
    rw [← hnumber, Decode.u64_natNumber, hnumber]
  simp [toValue, fromValue, knownFields, Decode.required, Decode.unique, ensure, hu64, hnumber,
    bind, Except.bind, pure, Except.pure]

theorem newline_not_mem_line (record : ChangeRecord) : '\n' ∉ record.line :=
  newline_not_mem_render _

theorem readable_toValue (h : Legible record.payload) : Readable record.toValue := by
  refine readable_object (by simp) (by simp [numberToken]) ?_
  intro field hfield
  simp only [List.mem_cons, List.not_mem_nil, or_false] at hfield
  have hnumber : ∀ n, depth (natNumber n) < depthLimit ∧ Verbatim (natNumber n) := by
    intro n
    exact ⟨by rw [natNumber, depth]; decide, verbatim_natNumber n⟩
  have htext : ∀ text, depth (.string text) < depthLimit ∧ Verbatim (.string text) := by
    intro text
    exact ⟨by rw [depth]; decide, by rw [Verbatim]; trivial⟩
  rcases hfield with rfl | rfl | rfl | rfl | rfl | rfl | rfl
  · exact hnumber _
  · exact hnumber _
  · exact hnumber _
  · exact htext _
  · exact htext _
  · exact htext _
  · exact ⟨h.depth, h.verbatim⟩

theorem Proper.parseLine [JsonText] (h : record.Proper) : parseLine (encode record.line) = .ok record := by
  rw [Watch.parseLine, decode_encode]
  dsimp only
  rw [parse, line, JsonText.read_compact (readable_toValue h.legible)]
  dsimp only [bind, Except.bind]
  rw [fromValue_toValue h.sequence_le]
  rfl

theorem encode_line_ne_nil (record : ChangeRecord) : encode record.line ≠ [] := by
  intro hnil
  have hlength := congrArg List.length hnil
  have hsize : size record.toValue = 0 := hlength
  rw [toValue, size_object (List.cons_ne_nil _ _)] at hsize
  cases hsize

end ChangeRecord

/-! ## The log -/

/-- All records that were ever written, from the first one on. -/
structure Log (log : List ChangeRecord) : Prop where
  numbered : Numbered (·.sequence) 1 log
  proper : ∀ record ∈ log, record.Proper
  length_le : log.length ≤ u64Max

variable {capacity : Nat} {log : List ChangeRecord} {file : Bytes} {record : ChangeRecord}

theorem validateFrom_eq_ok {first : Nat} {before : Option ChangeRecord} {records : List ChangeRecord}
    (hnumbered : Numbered (·.sequence) first records) (hproper : ∀ record ∈ records, record.Proper)
    (hbefore : ∀ previous ∈ before, previous.sequence + 1 = first) :
    validateFrom before records = .ok () := by
  induction records generalizing first before with
  | nil => rfl
  | cons record records ih =>
    obtain ⟨hfirst, hrest⟩ := hnumbered.of_cons
    have hrecord := hproper record List.mem_cons_self
    have hprevious : ∀ previous ∈ before, saturatingAdd previous.sequence 1 = record.sequence := by
      intro previous hprevious
      rw [saturatingAdd, hbefore previous hprevious, ← hfirst]
      exact Nat.min_eq_left hrecord.sequence_le
    rw [validateFrom]
    simp only [ensure_bind_ok_iff]
    refine ⟨⟨hrecord.schemaVersion, hrecord.protocolVersion, hrecord.cursor⟩, hprevious, ?_⟩
    refine ih hrest (fun other hother => hproper other (List.mem_cons_of_mem _ hother)) ?_
    intro previous hprevious
    obtain rfl := Option.mem_some_iff.mp hprevious
    rw [hfirst]

theorem mapM_parseLine [JsonText] {records : List ChangeRecord} (hproper : ∀ record ∈ records, record.Proper) :
    ((records.map ChangeRecord.line).map encode).mapM parseLine = .ok records := by
  induction records with
  | nil => rfl
  | cons record records ih =>
    rw [List.map_cons, List.map_cons, List.mapM_cons, (hproper record List.mem_cons_self).parseLine,
      ih fun other hother => hproper other (List.mem_cons_of_mem _ hother)]
    rfl

theorem decodeRecords_writeLines [JsonText] {texts : List (List Char)}
    (htexts : ∀ text ∈ texts, '\n' ∉ text ∧ encode text ≠ []) :
    decodeRecords (writeLines texts) = do
      let records ← (texts.map encode).mapM parseLine
      validateRecords records
      return records := by
  have hpieces : ∀ piece ∈ texts.map encode, lf ∉ piece := by
    intro piece hpiece
    obtain ⟨text, htext, rfl⟩ := List.mem_map.mp hpiece
    exact lf_not_mem_encode (htexts text htext).1
  have hfilter : (texts.map encode ++ [[]]).filter (· ≠ []) = texts.map encode := by
    rw [List.filter_append, List.filter_eq_self.mpr]
    · simp
    · intro piece hpiece
      obtain ⟨text, htext, rfl⟩ := List.mem_map.mp hpiece
      simpa using (htexts text htext).2
  rw [decodeRecords, writeLines_eq_terminate, split_terminated hpieces]
  dsimp only
  rw [hfilter]

/-- A log file is read back from any record on. -/
theorem Log.decodeRecords_eq [JsonText] (h : Log log) (k : Nat) :
    decodeRecords (writeLines ((log.drop k).map ChangeRecord.line)) = .ok (log.drop k) := by
  have hproper : ∀ record ∈ log.drop k, record.Proper :=
    fun record hrecord => h.proper record (List.mem_of_mem_drop hrecord)
  have htexts : ∀ text ∈ (log.drop k).map ChangeRecord.line, '\n' ∉ text ∧ encode text ≠ [] := by
    intro text htext
    obtain ⟨record, -, rfl⟩ := List.mem_map.mp htext
    exact ⟨record.newline_not_mem_line, record.encode_line_ne_nil⟩
  rw [decodeRecords_writeLines htexts, mapM_parseLine hproper]
  dsimp only [bind, Except.bind]
  rw [validateRecords, validateFrom_eq_ok (h.numbered.drop k) hproper (by simp)]
  rfl

/-- The file holds the newest records of the log, and perhaps more. -/
def Clean (capacity : Nat) (log : List ChangeRecord) (file : Bytes) : Prop :=
  ∃ k, k ≤ log.length - capacity ∧ file = writeLines ((log.drop k).map ChangeRecord.line)

/-- The same, and perhaps the beginning of another line. -/
def HoldsLog (capacity : Nat) (log : List ChangeRecord) (file : Bytes) : Prop :=
  ∃ k, k ≤ log.length - capacity ∧ Holds file ((log.drop k).map ChangeRecord.line)

theorem newline_not_mem_lines (records : List ChangeRecord) :
    ∀ text ∈ records.map ChangeRecord.line, '\n' ∉ text := by
  intro text htext
  obtain ⟨record, -, rfl⟩ := List.mem_map.mp htext
  exact record.newline_not_mem_line

theorem Clean.holdsLog (h : Clean capacity log file) : HoldsLog capacity log file := by
  obtain ⟨k, hk, rfl⟩ := h
  exact ⟨k, hk, Holds.of_writeLines (newline_not_mem_lines _)⟩

theorem clean_newest : Clean capacity log (writeLines ((newest capacity log).map ChangeRecord.line)) :=
  ⟨log.length - capacity, le_rfl, rfl⟩

/-- A line at the end of the file, as far as it was written. -/
theorem Clean.append (h : Clean capacity log file) (record : ChangeRecord) :
    Clean capacity (log ++ [record]) (file ++ lineBytes record.line) := by
  obtain ⟨k, hk, rfl⟩ := h
  have hle : k ≤ log.length := hk.trans (Nat.sub_le ..)
  refine ⟨k, ?_, ?_⟩
  · rw [List.length_append, List.length_singleton]
    omega
  · rw [List.drop_append_of_le_length hle, List.map_append, writeLines_append, List.map_singleton,
      writeLines_singleton]

/-- A line that is not written to its end has no line feed. -/
theorem HoldsLog.append_take (h : HoldsLog capacity log file) (record : ChangeRecord) {bytes : Nat}
    (hlt : bytes < (lineBytes record.line).length) :
    HoldsLog capacity log (file ++ (lineBytes record.line).take bytes) := by
  obtain ⟨k, hk, hplain, torn, htorn, rfl⟩ := h
  have hle : bytes ≤ (encode record.line).length := by
    rw [lineBytes, List.length_append, List.length_singleton] at hlt
    omega
  refine ⟨k, hk, hplain, torn ++ (lineBytes record.line).take bytes, ?_, List.append_assoc ..⟩
  rw [lineBytes, List.take_append_of_le_length hle]
  intro hmem
  rcases List.mem_append.mp hmem with hold | hnew
  · exact htorn hold
  · exact lf_not_mem_encode record.newline_not_mem_line (List.mem_of_mem_take hnew)

namespace ChangeStore

variable {store : ChangeStore}

/-- The window of the store is the newest part of the log. -/
structure Serves (store : ChangeStore) (capacity : Nat) (log : List ChangeRecord) : Prop where
  records : store.records = newest capacity log
  capacity : store.capacity = capacity

/-- A file of the newest records is opened with the newest records. -/
theorem open_spec [JsonText] (hlog : Log log) (hpos : 0 < capacity)
    (hfile : HoldsLog capacity log file) (replacement : Replacement) :
    Clean capacity log (openWithCapacity capacity file replacement).2 ∧
    (∀ store, (openWithCapacity capacity file replacement).1 = .ok store →
      store.Serves capacity log) ∧
    (replacement = .fine → ∃ store, (openWithCapacity capacity file replacement).1 = .ok store) := by
  obtain ⟨k, hk, hholds⟩ := hfile
  have hclean : Clean capacity log (truncateTail file) := ⟨k, hk, hholds.truncateTail_eq⟩
  have hkept : newest capacity (log.drop k) = newest capacity log := newest_drop hk
  rw [openWithCapacity, if_neg (Nat.ne_of_gt hpos)]
  dsimp only
  rw [hholds.truncateTail_eq] at hclean ⊢
  rw [hlog.decodeRecords_eq k]
  dsimp only
  rw [openRecords, hkept]
  split
  · cases replacement with
    | fine =>
      refine ⟨clean_newest, ?_, fun _ => ⟨_, rfl⟩⟩
      intro store hstore
      cases hstore
      exact ⟨rfl, rfl⟩
    | refused => exact ⟨hclean, nofun, nofun⟩
    | unsynced => exact ⟨clean_newest, nofun, nofun⟩
  · refine ⟨hclean, ?_, fun _ => ⟨_, rfl⟩⟩
    intro store hstore
    cases hstore
    exact ⟨rfl, rfl⟩

theorem Serves.nextSequence (h : store.Serves capacity log) (hlog : Log log) (hpos : 0 < capacity)
    (hroom : log.length < u64Max) : store.nextSequence = log.length + 1 := by
  have hlast : store.records.getLast? = log.getLast? := by
    rw [h.records, newest, List.getLast?_drop]
    split
    · next hle =>
      have hnil : log = [] := List.eq_nil_of_length_eq_zero (by omega)
      rw [hnil, List.getLast?_nil]
    · rfl
  rw [ChangeStore.nextSequence, hlast]
  cases hrecord : log.getLast? with
  | none =>
    rw [List.getLast?_eq_none_iff] at hrecord
    rw [hrecord]
    rfl
  | some record =>
    have hnumber := hlog.numbered.getLast hrecord
    dsimp only
    rw [saturatingAdd, hnumber, Nat.add_comm]
    exact Nat.min_eq_left (Nat.succ_le_of_lt hroom)

/-- The record of an append continues the log. -/
theorem Serves.log_concat (h : store.Serves capacity log) (hlog : Log log) (hpos : 0 < capacity)
    (hroom : log.length < u64Max) {kind : ChangeKind} {payload : Value} {now : String}
    (hpayload : Legible payload) : Log (log ++ [store.newRecord kind payload now]) := by
  have hsequence := h.nextSequence hlog hpos hroom
  refine ⟨hlog.numbered.concat ?_, ?_, ?_⟩
  · rw [newRecord, hsequence, Nat.add_comm]
  · intro record hrecord
    rcases List.mem_append.mp hrecord with hold | hnew
    · exact hlog.proper record hold
    · rw [List.mem_singleton.mp hnew]
      refine ⟨rfl, rfl, rfl, ?_, hpayload⟩
      rw [newRecord, hsequence]
      exact hroom
  · rw [List.length_append, List.length_singleton]
    exact hroom

theorem Serves.push (h : store.Serves capacity log) (record : ChangeRecord) :
    (store.push record).Serves capacity (log ++ [record]) := by
  refine ⟨?_, h.capacity⟩
  rw [newest_concat, ← h.records, ← h.capacity]
  rfl

/-- The append writes the file anew, from the window. -/
def Replaces (store : ChangeStore) (append : Append) (replacement : Replacement) : Prop :=
  append = .fine ∧ threshold store.capacity ≤ store.diskRecords + 1 ∧ replacement ≠ .refused

instance (store : ChangeStore) (append : Append) (replacement : Replacement) :
    Decidable (store.Replaces append replacement) :=
  inferInstanceAs (Decidable (_ ∧ _ ∧ _))

/-- How an append ends. -/
inductive Appended (store : ChangeStore) (capacity : Nat) (log : List ChangeRecord) (file : Bytes)
    (record : ChangeRecord) (replacement : Replacement) :
    Append → Except ChangeError ChangeRecord × ChangeStore × Bytes → Prop
  | stopped (bytes : Nat) : Appended store capacity log file record replacement (.stopped bytes)
    (.error .io, store, store.write file ((lineBytes record.line).take bytes))
  | unsynced : Appended store capacity log file record replacement .unsynced
    (.error .io, store, store.write file (lineBytes record.line))
  | pushed (hkept : ¬store.Replaces .fine replacement) (result : Except ChangeError ChangeRecord)
    (after : ChangeStore) (hafter : after.Serves capacity (log ++ [record])) :
    Appended store capacity log file record replacement .fine
      (result, after, store.write file (lineBytes record.line))
  | replaced (hreplaced : store.Replaces .fine replacement) (result : Except ChangeError ChangeRecord)
    (after : ChangeStore) (hafter : after.Serves capacity (log ++ [record])) (left : Bytes)
    (hleft : Clean capacity (log ++ [record]) left) :
    Appended store capacity log file record replacement .fine (result, after, left)

theorem Serves.append_spec (h : store.Serves capacity log) (file : Bytes) (kind : ChangeKind)
    (payload : Value) (now : String) (append : Append) (replacement : Replacement) :
    Appended store capacity log file (store.newRecord kind payload now) replacement append
      (store.appendNow file kind payload now append replacement) := by
  have hpush := h.push (store.newRecord kind payload now)
  have hclean : Clean capacity (log ++ [store.newRecord kind payload now])
      (writeLines ((store.push (store.newRecord kind payload now)).records.map ChangeRecord.line)) := by
    rw [hpush.records]
    exact clean_newest
  have hafter : ∀ diskRecords linked, ({ store.push (store.newRecord kind payload now) with
      diskRecords, linked } : ChangeStore).Serves capacity (log ++ [store.newRecord kind payload now]) :=
    fun _ _ => ⟨hpush.records, hpush.capacity⟩
  cases append with
  | stopped bytes => exact .stopped bytes
  | unsynced => exact .unsynced
  | fine =>
    rw [appendNow]
    split
    · next hfull =>
      have hreplaces : replacement ≠ .refused → store.Replaces .fine replacement :=
        fun hne => ⟨rfl, hfull, hne⟩
      cases replacement with
      | fine =>
        exact .replaced (hreplaces (by decide)) _ _ (hafter _ _) _ hclean
      | refused =>
        refine .pushed ?_ _ _ (hafter _ _)
        intro hreplaced
        exact hreplaced.2.2 rfl
      | unsynced =>
        exact .replaced (hreplaces (by decide)) _ _ (hafter _ _) _ hclean
    · next hroom => exact .pushed (fun hreplaced => hroom hreplaced.2.1) _ _ hpush

end ChangeStore

end Tally.Watch
