import Tally.Flow.Lineage

/-!
# Reader state

What an operator says of flow runs: that a run is archived, and a tag (`reader_state.rs`). The store is
a log in which the last record of a run counts. A call reads the store, merges the fields that it leaves
unset, and appends a record; a store at its bound is folded to one record for each run.
-/

namespace Tally.Flow

open Tally.Lib

def readerStateSchemaVersion : UInt32 := 1

def readerStateCompactThreshold : Nat := 512

inductive ReaderStateError
  | log (error : LogError)
  | invalid (reason : String)
  deriving DecidableEq

structure ReaderStateRecord where
  schemaVersion : UInt32
  flowRunId : String
  archived : Bool
  triageTag : Option String
  recordedAt : String
  deriving DecidableEq

structure ReaderState where
  byRun : Table String ReaderStateRecord := ∅
  deriving DecidableEq

/-- What to change of a run; a field that is missing stays. -/
structure ReaderStateUpdate where
  archived : Option Bool := none
  triageTag : Option (Option String) := none
  deriving DecidableEq

/-- The arguments of a call, with the text of the run id that is stored, and the clock. -/
structure ReaderCall where
  flowRunId : String
  update : ReaderStateUpdate
  now : String
  deriving DecidableEq

namespace ReaderStateRecord

def knownFields : List String := ["schemaVersion", "flowRunId", "archived", "triageTag", "recordedAt"]

def members (record : ReaderStateRecord) : Fields :=
  [("schemaVersion", natNumber record.schemaVersion.toNat), ("flowRunId", .string record.flowRunId),
    ("archived", .bool record.archived)] ++
    (record.triageTag.map fun tag => ("triageTag", .string tag)).toList ++
    [("recordedAt", .string record.recordedAt)]

def toValue (record : ReaderStateRecord) : Value := .object record.members

def line (record : ReaderStateRecord) : List Char := render record.toValue

def boolFromValue : Value → Except String Bool
  | .bool b => .ok b
  | _ => .error "invalid type: expected a boolean"

/-- The derived decoder; members with other names are refused. -/
def fromValue : Value → Except String ReaderStateRecord
  | .object fields => do
    ensure (∀ member ∈ fields, member.1 ∈ knownFields) "unknown field"
    let schemaVersion ← Decode.required Decode.u32 fields "schemaVersion"
    let flowRunId ← Decode.required Decode.text fields "flowRunId"
    let archived ← Decode.required boolFromValue fields "archived"
    let triageTag ← Decode.optional Decode.text fields "triageTag"
    let recordedAt ← Decode.required Decode.text fields "recordedAt"
    return ⟨schemaVersion, flowRunId, archived, triageTag, recordedAt⟩
  | _ => .error "invalid type: expected struct ReaderStateRecord"

section

variable (Uuid : Type) [UuidText Uuid] [Chrono] [JsonText]

def validate (record : ReaderStateRecord) : Except String Unit := do
  ensure (record.schemaVersion = readerStateSchemaVersion) "schemaVersion must be the integer 1"
  ensure (canonicalFlowRunId Uuid record.flowRunId).isOk "flowRunId is not a UUID"
  ensure (Chrono.isRfc3339 record.recordedAt) "recordedAt is not an RFC 3339 timestamp"

/-- A line of the store. -/
def parse (text : List Char) : Except String ReaderStateRecord := do
  let record ← fromValue (← JsonText.read text)
  record.validate Uuid
  return record

end

end ReaderStateRecord

section Source

variable (Uuid : Type) [UuidText Uuid] [Chrono] [JsonText]

/-- `read_records`: the records of the complete lines, and whether there is a torn one. -/
def readReaderRecords (file : Bytes) :
    Except ReaderStateError (List (Nat × ReaderStateRecord) × Bool) := do
  let records ← (readNumbered (ReaderStateRecord.parse Uuid) 1 (split lf file).1).mapError .log
  return (records, isTorn file)

namespace ReaderState

def read (file : Bytes) : Except ReaderStateError ReaderState := do
  let (records, _) ← readReaderRecords Uuid file
  return ⟨records.foldl (fun byRun entry => byRun.insert (lookupKey Uuid entry.2.flowRunId) entry.2) ∅⟩

omit [Chrono] [JsonText] in
def isArchived (state : ReaderState) (flowRunId : String) : Bool :=
  (state.byRun.get? (lookupKey Uuid flowRunId)).any (·.archived)

omit [Chrono] [JsonText] in
def triageTag (state : ReaderState) (flowRunId : String) : Option String :=
  (state.byRun.get? (lookupKey Uuid flowRunId)).bind (·.triageTag)

end ReaderState

end Source

namespace ReaderCall

/-- The record of a call, with the unset fields of the last record of its run. -/
def record (call : ReaderCall) (existing : List (Nat × ReaderStateRecord)) : ReaderStateRecord :=
  let previous := (existing.reverse.find? fun entry => entry.2.flowRunId = call.flowRunId).map Prod.snd
  { schemaVersion := readerStateSchemaVersion
    flowRunId := call.flowRunId
    archived := call.update.archived.getD (previous.any (·.archived))
    triageTag := call.update.triageTag.getD (previous.bind (·.triageTag))
    recordedAt := call.now }

/-- One record for each run, the last one. -/
def folded (existing : List (Nat × ReaderStateRecord)) (record : ReaderStateRecord) :
    List ReaderStateRecord :=
  ((existing.foldl (fun byRun entry => byRun.insert entry.2.flowRunId entry.2)
    (∅ : Table String ReaderStateRecord)).insert record.flowRunId record).values

/-- What a call writes: a line after a tail that may have to be cut off, or a new file. -/
inductive Plan
  | append (torn : Bool) (line : Bytes)
  | compact (bytes : Bytes)

/-- The part of a call between the lock and the first write. -/
def plan (Uuid : Type) [UuidText Uuid] [Chrono] [JsonText] (call : ReaderCall) (file : Bytes) :
    Except ReaderStateError Plan := do
  let (existing, torn) ← readReaderRecords Uuid file
  let record := call.record existing
  (record.validate Uuid).mapError .invalid
  if existing.length + 1 > readerStateCompactThreshold then
    return .compact (writeLines ((folded existing record).map ReaderStateRecord.line))
  else return .append torn (lineBytes record.line)

end ReaderCall

/-! ## Records read back -/

namespace ReaderStateRecord

theorem known_members (record : ReaderStateRecord) :
    ∀ member ∈ record.members, member.1 ∈ knownFields := by
  obtain ⟨_, _, _, tag, _⟩ := record
  cases tag <;> simp [members, knownFields]

theorem fromValue_toValue (record : ReaderStateRecord) : fromValue record.toValue = .ok record := by
  have hunique : Decode.unique record.members "schemaVersion" =
        .ok (some (natNumber record.schemaVersion.toNat)) ∧
      Decode.unique record.members "flowRunId" = .ok (some (.string record.flowRunId)) ∧
      Decode.unique record.members "archived" = .ok (some (.bool record.archived)) ∧
      Decode.unique record.members "triageTag" = .ok (record.triageTag.map .string) ∧
      Decode.unique record.members "recordedAt" = .ok (some (.string record.recordedAt)) := by
    obtain ⟨_, _, _, tag, _⟩ := record
    cases tag <;> simp [members, Decode.unique]
  obtain ⟨h1, h2, h3, h4, h5⟩ := hunique
  rw [toValue, fromValue, ensure, if_pos record.known_members, Decode.required_of_unique _ h1,
    Decode.required_of_unique _ h2, Decode.required_of_unique _ h3,
    Decode.optional_of_unique _ h4 (by cases record.triageTag <;> simp),
    Decode.required_of_unique _ h5, Decode.u32_natNumber]
  obtain ⟨_, _, _, tag, _⟩ := record
  cases tag <;> rfl

theorem flat (record : ReaderStateRecord) : FlatObject record.members := by
  obtain ⟨_, _, _, tag, _⟩ := record
  constructor <;> cases tag <;> simp [members, numberToken]

theorem newline_not_mem_line (record : ReaderStateRecord) : '\n' ∉ record.line :=
  newline_not_mem_render _

/-- A record as calls write it: it passes its own check, and its run id is spelled as it is stored. -/
structure Good (Uuid : Type) [UuidText Uuid] [Chrono] [JsonText] (record : ReaderStateRecord) : Prop where
  valid : record.validate Uuid = .ok ()
  canonical : canonicalFlowRunId Uuid record.flowRunId = .ok record.flowRunId

variable {Uuid : Type} [UuidText Uuid] [Chrono] [JsonText] {record : ReaderStateRecord}

theorem readsBack (hvalid : record.validate Uuid = .ok ()) : ReadsBack (parse Uuid) line record := by
  refine ⟨?_, blank_object _, stripCr_render _⟩
  have hreadable : Readable record.toValue := record.flat.readable
  rw [parse, line, JsonText.read_compact hreadable]
  dsimp only [bind, Except.bind]
  rw [fromValue_toValue]
  dsimp only
  rw [hvalid]
  rfl

end ReaderStateRecord

/-! ## What the store says of runs -/

/-- Whether a run is archived, and its tag. -/
abbrev ReaderView := String → Bool × Option String

/-- The last record of a run. -/
def lastRecord (records : List ReaderStateRecord) (run : String) : Option ReaderStateRecord :=
  records.reverse.find? fun record => record.flowRunId = run

def viewOf (records : List ReaderStateRecord) : ReaderView := fun run =>
  ((lastRecord records run).any (·.archived), (lastRecord records run).bind (·.triageTag))

namespace ReaderCall

/-- A call on what is known of the runs: the fields that it leaves unset stay. -/
def apply (view : ReaderView) (call : ReaderCall) : ReaderView :=
  Function.update view call.flowRunId (call.update.archived.getD (view call.flowRunId).1,
    call.update.triageTag.getD (view call.flowRunId).2)

def applyAll (view : ReaderView) (calls : List ReaderCall) : ReaderView := calls.foldl apply view

theorem applyAll_concat (view : ReaderView) (calls : List ReaderCall) (call : ReaderCall) :
    applyAll view (calls ++ [call]) = call.apply (applyAll view calls) := by
  rw [applyAll, List.foldl_append]
  rfl

end ReaderCall

theorem lastRecord_concat (records : List ReaderStateRecord) (record : ReaderStateRecord) (run : String) :
    lastRecord (records ++ [record]) run =
      if record.flowRunId = run then some record else lastRecord records run := by
  rw [lastRecord, List.reverse_append, List.reverse_singleton, List.singleton_append, List.find?_cons]
  by_cases h : record.flowRunId = run
  · simp [h]
  · simp [h, lastRecord]

/-- Where every run has one record, that is the last one. -/
theorem lastRecord_eq_some_iff {records : List ReaderStateRecord}
    (h : (records.map (·.flowRunId)).Nodup) {run : String} {record : ReaderStateRecord} :
    lastRecord records run = some record ↔ record ∈ records ∧ record.flowRunId = run := by
  constructor
  · intro hfind
    have hrun := List.find?_some hfind
    exact ⟨List.mem_reverse.mp (List.mem_of_find?_eq_some hfind), by simpa using hrun⟩
  · rintro ⟨hmem, rfl⟩
    cases hfind : lastRecord records record.flowRunId with
    | none =>
      have hnone := List.find?_eq_none.mp hfind record (List.mem_reverse.mpr hmem)
      simp at hnone
    | some other =>
      have hrun := List.find?_some hfind
      have hother : other ∈ records := List.mem_reverse.mp (List.mem_of_find?_eq_some hfind)
      rw [List.inj_on_of_nodup_map h hother hmem (by simpa using hrun)]

/-- The loop that keeps the last record of each run. -/
theorem get?_foldl_insert (records : List ReaderStateRecord) (run : String) :
    (records.foldl (fun byRun record => byRun.insert record.flowRunId record)
      (∅ : Table String ReaderStateRecord)).get? run = lastRecord records run := by
  induction records using List.reverseRecOn with
  | nil => rfl
  | append_singleton records record ih =>
    rw [List.foldl_append, List.foldl_cons, List.foldl_nil, Table.get?_insert, lastRecord_concat, ih]
    simp only [eq_comm]

/-- A table of records under their runs says of each run what its last record says. -/
theorem lastRecord_values {byRun : Table String ReaderStateRecord}
    (h : ∀ run record, byRun.get? run = some record → record.flowRunId = run) (run : String) :
    lastRecord byRun.values run = byRun.get? run := by
  have hkeys : byRun.values.map (·.flowRunId) = byRun.keys := by
    rw [Table.values, Table.keys, List.map_map]
    refine List.map_congr_left fun entry hentry => ?_
    exact h entry.1 entry.2 (byRun.mem_entries_iff.mp hentry)
  have hnodup : (byRun.values.map (·.flowRunId)).Nodup := hkeys ▸ byRun.nodup_keys
  ext record
  rw [lastRecord_eq_some_iff hnodup, Table.mem_values_iff]
  constructor
  · rintro ⟨⟨other, hother⟩, hrun⟩
    rwa [← hrun, h other record hother]
  · intro hget
    exact ⟨⟨run, hget⟩, h run record hget⟩

@[simp] theorem record_flowRunId (call : ReaderCall) (existing : List (Nat × ReaderStateRecord)) :
    (call.record existing).flowRunId = call.flowRunId := rfl

theorem find_reverse_map (existing : List (Nat × ReaderStateRecord)) (run : String) :
    (existing.reverse.find? fun entry => entry.2.flowRunId = run).map Prod.snd =
      lastRecord (existing.map Prod.snd) run := by
  rw [lastRecord, ← List.map_reverse, List.find?_map]
  rfl

/-- The record of a call says of the run what the call makes of it. -/
theorem viewOf_concat_record (existing : List (Nat × ReaderStateRecord)) (call : ReaderCall) :
    viewOf (existing.map Prod.snd ++ [call.record existing]) =
      call.apply (viewOf (existing.map Prod.snd)) := by
  funext run
  rw [viewOf, lastRecord_concat, ReaderCall.apply, record_flowRunId]
  rcases eq_or_ne run call.flowRunId with rfl | hne
  · rw [Function.update_self, if_pos rfl, ReaderCall.record, find_reverse_map]
    rfl
  · rw [Function.update_of_ne hne, if_neg (Ne.symm hne)]
    rfl

theorem foldl_insert_map (existing : List (Nat × ReaderStateRecord)) :
    existing.foldl (fun byRun entry => byRun.insert entry.2.flowRunId entry.2) ∅ =
      (existing.map Prod.snd).foldl (fun byRun record => byRun.insert record.flowRunId record)
        (∅ : Table String ReaderStateRecord) := by
  rw [List.foldl_map]

theorem viewOf_folded (existing : List (Nat × ReaderStateRecord)) (record : ReaderStateRecord) :
    viewOf (ReaderCall.folded existing record) = viewOf (existing.map Prod.snd ++ [record]) := by
  have hget : ∀ run, ((existing.foldl (fun byRun entry => byRun.insert entry.2.flowRunId entry.2)
      (∅ : Table String ReaderStateRecord)).insert record.flowRunId record).get? run =
      lastRecord (existing.map Prod.snd ++ [record]) run := by
    intro run
    rw [← get?_foldl_insert, List.foldl_append, List.foldl_map]
    rfl
  have hlast : ∀ run, lastRecord (ReaderCall.folded existing record) run =
      lastRecord (existing.map Prod.snd ++ [record]) run := by
    intro run
    rw [← hget run, ReaderCall.folded]
    refine lastRecord_values (fun other found hfound => ?_) run
    rw [hget other] at hfound
    simpa using List.find?_some hfound
  funext run
  rw [viewOf, viewOf, hlast run]

theorem mem_folded {existing : List (Nat × ReaderStateRecord)} {record found : ReaderStateRecord}
    (h : found ∈ ReaderCall.folded existing record) :
    found ∈ existing.map Prod.snd ∨ found = record := by
  obtain ⟨run, hrun⟩ := (Table.mem_values_iff _).mp h
  rw [Table.get?_insert] at hrun
  split at hrun
  · cases hrun
    exact .inr rfl
  · rw [foldl_insert_map, get?_foldl_insert] at hrun
    exact .inl (List.mem_reverse.mp (List.mem_of_find?_eq_some hrun))

/-- The file has good records. -/
structure HoldsRecords (Uuid : Type) [UuidText Uuid] [Chrono] [JsonText] (file : Bytes)
    (records : List ReaderStateRecord) : Prop where
  holds : Holds file (records.map ReaderStateRecord.line)
  good : ∀ record ∈ records, record.Good Uuid

/-- The file says this of the runs. -/
def Stored (Uuid : Type) [UuidText Uuid] [Chrono] [JsonText] (file : Bytes) (view : ReaderView) : Prop :=
  ∃ records, HoldsRecords Uuid file records ∧ viewOf records = view

variable {Uuid : Type} [UuidText Uuid] [Chrono] [JsonText] {file : Bytes} {records : List ReaderStateRecord}
  {call : ReaderCall}

theorem HoldsRecords.readReaderRecords_eq (h : HoldsRecords Uuid file records) :
    ∃ numbered, readReaderRecords Uuid file = .ok (numbered, isTorn file) ∧
      numbered.map Prod.snd = records := by
  obtain ⟨numbered, hread, hrecords⟩ := h.holds.readNumbered_eq fun record hmem =>
    ReaderStateRecord.readsBack (h.good record hmem).valid
  refine ⟨numbered, ?_, hrecords⟩
  rw [readReaderRecords, hread]
  rfl

/-- A reader of the store gets what it says. -/
theorem Stored.read {view : ReaderView} (h : Stored Uuid file view) :
    ∃ state, ReaderState.read Uuid file = .ok state ∧
      ∀ run, state.isArchived Uuid run = (view (lookupKey Uuid run)).1 ∧
        state.triageTag Uuid run = (view (lookupKey Uuid run)).2 := by
  obtain ⟨records, hholds, hview⟩ := h
  obtain ⟨numbered, hread, rfl⟩ := hholds.readReaderRecords_eq
  refine ⟨_, by rw [ReaderState.read, hread]; rfl, fun run => ?_⟩
  have hfold : numbered.foldl
      (fun byRun entry => byRun.insert (lookupKey Uuid entry.2.flowRunId) entry.2) ∅ =
      (numbered.map Prod.snd).foldl (fun byRun record => byRun.insert record.flowRunId record)
        (∅ : Table String ReaderStateRecord) := by
    rw [List.foldl_map]
    refine List.foldl_ext _ _ _ fun byRun entry hentry => ?_
    rw [lookupKey_eq (hholds.good entry.2 (List.mem_map_of_mem hentry)).canonical]
  rw [← hview]
  simp only [ReaderState.isArchived, ReaderState.triageTag, hfold, get?_foldl_insert, viewOf, and_self]

/-- What a call that has read good records plans to write. -/
theorem plan_ok (h : HoldsRecords Uuid file records)
    (hrun : canonicalFlowRunId Uuid call.flowRunId = .ok call.flowRunId) {plan : ReaderCall.Plan}
    (hplan : call.plan Uuid file = .ok plan) :
    (∃ record, plan = .append (isTorn file) (lineBytes record.line) ∧ record.Good Uuid ∧
      viewOf (records ++ [record]) = call.apply (viewOf records)) ∨
    ∃ kept, plan = .compact (writeLines (kept.map ReaderStateRecord.line)) ∧
      (∀ record ∈ kept, record.Good Uuid) ∧ viewOf kept = call.apply (viewOf records) := by
  obtain ⟨numbered, hread, rfl⟩ := h.readReaderRecords_eq
  unfold ReaderCall.plan at hplan
  simp only [hread, bind_ok_iff, mapError_eq_ok] at hplan
  obtain ⟨_, hpair, _, hvalid, hplan⟩ := hplan
  cases hpair
  have hgood : (call.record numbered).Good Uuid := ⟨hvalid, hrun⟩
  split at hplan
  · cases hplan
    refine .inr ⟨_, rfl, fun record hrecord => ?_, ?_⟩
    · rcases mem_folded hrecord with hrecord | rfl
      · exact h.good record hrecord
      · exact hgood
    · rw [viewOf_folded, viewOf_concat_record]
  · cases hplan
    exact .inl ⟨_, rfl, hgood, viewOf_concat_record numbered call⟩

/-- What a call plans to write when it passes its own check. -/
theorem plan_eq (h : HoldsRecords Uuid file records) {record : ReaderStateRecord}
    (hrecord : ∀ existing, call.record existing = record) (hvalid : record.validate Uuid = .ok ()) :
    ∃ existing : List (Nat × ReaderStateRecord), existing.map Prod.snd = records ∧
      call.plan Uuid file = .ok (if records.length + 1 > readerStateCompactThreshold then
        .compact (writeLines ((ReaderCall.folded existing record).map ReaderStateRecord.line))
      else .append (isTorn file) (lineBytes record.line)) := by
  obtain ⟨existing, hread, hrecords⟩ := h.readReaderRecords_eq
  refine ⟨existing, hrecords, ?_⟩
  have hlength : existing.length = records.length := by rw [← hrecords, List.length_map]
  rw [ReaderCall.plan, hread]
  dsimp only [bind, Except.bind]
  rw [hrecord, hvalid, hlength]
  dsimp only [Except.mapError]
  split <;> rfl

omit [Chrono] [JsonText] in
/-- Records of one run are folded to the new one. -/
theorem folded_eq_singleton {existing : List (Nat × ReaderStateRecord)} {record : ReaderStateRecord}
    (h : ∀ other ∈ existing.map Prod.snd, other.flowRunId = record.flowRunId) :
    ReaderCall.folded existing record = [record] := by
  have htable : (existing.foldl (fun byRun entry => byRun.insert entry.2.flowRunId entry.2)
      (∅ : Table String ReaderStateRecord)).insert record.flowRunId record =
      (∅ : Table String ReaderStateRecord).insert record.flowRunId record := by
    refine Table.ext_get? fun run => ?_
    rw [Table.get?_insert, Table.get?_insert, foldl_insert_map, get?_foldl_insert]
    split
    · rfl
    · next hne =>
      refine List.find?_eq_none.mpr fun other hother => ?_
      have hrun := h other (List.mem_reverse.mp hother)
      simpa [hrun] using Ne.symm hne
  rw [ReaderCall.folded, htable]
  rfl

end Tally.Flow
