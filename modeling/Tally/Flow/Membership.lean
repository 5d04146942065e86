import Tally.Lib.Table
import Tally.Lib.Log
import Tally.Lib.JsonText
import Mathlib.Data.Finset.Basic
import Mathlib.Data.Finset.Insert
import Mathlib.Data.Prod.Lex
import Mathlib.Data.String.Basic

/-!
# The membership of flow runs

The ledger of the tasks that a run was handed (`flow_membership.rs`). A write adds one record, or
compacts the ledger to the runs that stay. The index that a write hands back is what a reader of the
file gets, whole runs are dropped and no other ones, and the runs that are dropped are not in use
(`membership_keeps_whole_runs`).
-/

namespace Tally.Flow

open Tally.Lib

/-- What the program takes from the clock library. -/
class Chrono where
  /-- `DateTime::parse_from_rfc3339(..).is_ok()`. -/
  isRfc3339 : String → Bool

def flowMembershipSchemaVersion : UInt32 := 1

def flowMembershipCompactTo (maxRecords : Nat) : Nat := maxRecords - maxRecords / 10

def tailScanBytes : Nat := 64 * 1024

inductive MembershipDisposition
  | created
  | attached
  | reused
  | terminal
  | substituted
  | retried
  | unknown
  deriving DecidableEq

def MembershipDisposition.asStr : MembershipDisposition → String
  | created => "created"
  | attached => "attached"
  | reused => "reused"
  | terminal => "terminal"
  | substituted => "substituted"
  | retried => "retried"
  | unknown => "unknown"

structure FlowMembershipRecord where
  schemaVersion : UInt32
  flowRunId : String
  taskUuid : String
  disposition : String
  nodeOrdinal : Option UInt64
  nodeLabel : Option String
  recordedAt : String
  /-- The members that a newer daemon wrote. -/
  extra : Table String Value
  deriving DecidableEq

namespace FlowMembershipRecord

/-- A record of now. -/
def new (flowRunId taskUuid : String) (disposition : MembershipDisposition)
    (nodeOrdinal : Option UInt64) (nodeLabel : Option String) (now : String) :
    FlowMembershipRecord where
  schemaVersion := flowMembershipSchemaVersion
  flowRunId := flowRunId
  taskUuid := taskUuid
  disposition := disposition.asStr
  nodeOrdinal := nodeOrdinal
  nodeLabel := nodeLabel
  recordedAt := now
  extra := ∅

def knownFields : List String :=
  ["schemaVersion", "flowRunId", "taskUuid", "disposition", "nodeOrdinal", "nodeLabel", "recordedAt"]

/-- The members with known names. -/
def members (record : FlowMembershipRecord) : Fields :=
  [("schemaVersion", natNumber record.schemaVersion.toNat), ("flowRunId", .string record.flowRunId),
    ("taskUuid", .string record.taskUuid), ("disposition", .string record.disposition)] ++
    (record.nodeOrdinal.map fun n => ("nodeOrdinal", natNumber n.toNat)).toList ++
    (record.nodeLabel.map fun label => ("nodeLabel", .string label)).toList ++
    [("recordedAt", .string record.recordedAt)]

def toValue (record : FlowMembershipRecord) : Value :=
  .object (record.members ++ record.extra.entries)

def line (record : FlowMembershipRecord) : List Char := render record.toValue

/-- The derived decoder; members with other names are kept. -/
def fromValue : Value → Except String FlowMembershipRecord
  | .object fields => do
    let schemaVersion ← Decode.required Decode.u32 fields "schemaVersion"
    let flowRunId ← Decode.required Decode.text fields "flowRunId"
    let taskUuid ← Decode.required Decode.text fields "taskUuid"
    let disposition ← Decode.required Decode.text fields "disposition"
    let nodeOrdinal ← Decode.optional Decode.u64 fields "nodeOrdinal"
    let nodeLabel ← Decode.optional Decode.text fields "nodeLabel"
    let recordedAt ← Decode.required Decode.text fields "recordedAt"
    let extra := (∅ : Table String Value).extend
      (fields.filter fun member => member.1 ∉ knownFields)
    return ⟨schemaVersion, flowRunId, taskUuid, disposition, nodeOrdinal, nodeLabel, recordedAt, extra⟩
  | _ => .error "invalid type: expected struct FlowMembershipRecord"

section Clock

variable [Chrono] [JsonText]

def validate (record : FlowMembershipRecord) : Except String Unit := do
  ensure (flowMembershipSchemaVersion ≤ record.schemaVersion) "schemaVersion must be at least 1"
  ensure (blank record.flowRunId.toList = false) "flowRunId must not be empty"
  ensure (blank record.taskUuid.toList = false) "taskUuid must not be empty"
  ensure (Chrono.isRfc3339 record.recordedAt) "recordedAt is not an RFC 3339 timestamp"

/-- A line of the ledger. -/
def parse (text : List Char) : Except String FlowMembershipRecord := do
  let record ← fromValue (← JsonText.read text)
  record.validate
  return record

end Clock

end FlowMembershipRecord

inductive FlowMembershipError
  | io
  | log (error : LogError)
  | invalid (reason : String)
  deriving DecidableEq

/-! ## The index -/

structure FlowMembership where
  byRun : Table String (Table String FlowMembershipRecord) := ∅
  records : Nat := 0
  deriving DecidableEq

namespace FlowMembership

/-- The first record of a run and a task stays. -/
def insert (membership : FlowMembership) (record : FlowMembershipRecord) : FlowMembership :=
  let tasks := (membership.byRun.get? record.flowRunId).getD ∅
  if (tasks.get? record.taskUuid).isSome then membership
  else
    { byRun := membership.byRun.insert record.flowRunId (tasks.insert record.taskUuid record)
      records := membership.records + 1 }

def fromRecords (records : List FlowMembershipRecord) : FlowMembership := records.foldl insert {}

/-- A ledger that does not exist is an empty file. -/
def read [Chrono] [JsonText] (file : Bytes) : Except LogError FlowMembership := do
  let records ← readLog FlowMembershipRecord.parse file
  return fromRecords records

def record? (membership : FlowMembership) (flowRunId taskUuid : String) :
    Option FlowMembershipRecord :=
  (membership.byRun.get? flowRunId).bind fun tasks => tasks.get? taskUuid

def contains (membership : FlowMembership) (flowRunId taskUuid : String) : Bool :=
  (membership.record? flowRunId taskUuid).isSome

/-- The tasks of a run, in the order of their texts. -/
def tasks (membership : FlowMembership) (flowRunId : String) : List String :=
  (membership.byRun.get? flowRunId).elim [] Table.keys

/-- When a run was last handed a node. -/
def runLastTouched (tasks : Table String FlowMembershipRecord) : String ×ₗ String :=
  (tasks.values.map fun record => toLex (record.recordedAt, record.flowRunId)).max?.getD (toLex ("", ""))

/-- What a run is sorted by: when it was touched, its id, and the number of its tasks. -/
abbrev Candidate := (String ×ₗ String) ×ₗ String ×ₗ Nat

def candidate (run : String) (tasks : Table String FlowMembershipRecord) : Candidate :=
  toLex (runLastTouched tasks, toLex (run, tasks.entries.length))

def takeRuns (target : Nat) : Nat → List Candidate → List String
  | _, [] => []
  | total, candidate :: rest =>
    if total ≤ target then []
    else
      let (run, held) := ofLex (ofLex candidate).2
      run :: takeRuns target (total - held) rest

/-- The runs that may be dropped, the least recently touched first. -/
def candidates (membership : FlowMembership) (protectedRuns : Finset String) : List Candidate :=
  ((membership.byRun.entries.filter fun entry => entry.1 ∉ protectedRuns).map fun entry =>
    candidate entry.1 entry.2).insertionSort (· ≤ ·)

def evictionPlan (membership : FlowMembership) (target : Nat) (protectedRuns : Finset String) :
    List String :=
  if membership.records ≤ target then []
  else takeRuns target membership.records (membership.candidates protectedRuns)

/-- The run that is written, and the runs that hold a live task. -/
def protectedRuns (membership : FlowMembership) (writing : String) (liveTasks : Finset String) :
    Finset String :=
  if liveTasks = ∅ then {writing}
  else
    Insert.insert writing ((membership.byRun.entries.filter fun entry =>
      entry.2.keys.any (· ∈ liveTasks)).map Prod.fst).toFinset

def withoutRuns (membership : FlowMembership) (evicted : List String) :
    List FlowMembershipRecord :=
  (evicted.foldl Table.erase membership.byRun).values.flatMap Table.values

end FlowMembership

/-! ## Writing -/

inductive MembershipWrite
  | appended
  | appendedOverTarget
  | alreadyHeld
  deriving DecidableEq

/-- How the file system goes along with a write. -/
inductive Disk
  | fine
  /-- Nothing is written. -/
  | refused
  /-- What is added stops after that many bytes. -/
  | stopped (bytes : Nat)
  /-- Everything is written, and the last synchronisation fails. -/
  | unsynced
  deriving DecidableEq

/-- The tail is looked for in the last bytes of the file first. -/
def truncateTornTail (file : Bytes) : Bytes :=
  if file = [] then file
  else
    let start := file.length - min file.length tailScanBytes
    let tail := file.drop start
    if tail.getLast? = some lf then file
    else match rposition tail with
      | some position => file.take (start + position + 1)
      | none => file.take (completePrefix file)

/-- The file is replaced as a whole. -/
def rewriteCompacted (file : Bytes) (kept : List FlowMembershipRecord) :
    Disk → Except FlowMembershipError Unit × Bytes
  | .fine => (.ok (), writeLines (kept.map FlowMembershipRecord.line))
  | .refused | .stopped _ => (.error .io, file)
  | .unsynced => (.error .io, writeLines (kept.map FlowMembershipRecord.line))

def appendLine (file : Bytes) (text : List Char) : Disk → Except FlowMembershipError Unit × Bytes
  | .fine => (.ok (), truncateTornTail file ++ lineBytes text)
  | .refused => (.error .io, file)
  | .stopped bytes => (.error .io, truncateTornTail file ++ (lineBytes text).take bytes)
  | .unsynced => (.error .io, truncateTornTail file ++ lineBytes text)

/-- The runs to drop from an index that is over its bound. -/
def compactionPlan (held : FlowMembership) (writing : String) (liveTasks : Finset String)
    (maxRecords : Nat) : List String :=
  if held.records > maxRecords then
    held.evictionPlan (flowMembershipCompactTo maxRecords) (held.protectedRuns writing liveTasks)
  else []

/-- The result, and the file after it. -/
def recordMembershipBounded [Chrono] [JsonText] (file : Bytes) (record : FlowMembershipRecord) (held : FlowMembership)
    (liveTasks : Finset String) (maxRecords : Nat) (disk : Disk) :
    Except FlowMembershipError (MembershipWrite × FlowMembership) × Bytes :=
  match record.validate with
  | .error reason => (.error (.invalid reason), file)
  | .ok () =>
    if held.contains record.flowRunId record.taskUuid then (.ok (.alreadyHeld, held), file)
    else
      let held := held.insert record
      let plan := compactionPlan held record.flowRunId liveTasks maxRecords
      if plan ≠ [] then
        let kept := held.withoutRuns plan
        match rewriteCompacted file kept disk with
        | (.error error, file) => (.error error, file)
        | (.ok (), file) =>
          let compacted := FlowMembership.fromRecords kept
          if compacted.contains record.flowRunId record.taskUuid then
            (.ok (.appended, compacted), file)
          else
            (.error (.invalid ("compaction dropped the membership record it was asked to write (run "
              ++ record.flowRunId ++ ", task " ++ record.taskUuid ++
              "); the ledger was rewritten but this admission's membership is not durable")), file)
      else
        match appendLine file record.line disk with
        | (.error error, file) => (.error error, file)
        | (.ok (), file) =>
          (.ok (if held.records > maxRecords then .appendedOverTarget else .appended, held), file)

/-! ## Records read back -/

namespace FlowMembershipRecord

variable {record : FlowMembershipRecord}

/-- The extra members do not have the names of the others. -/
def ExtraUnknown (record : FlowMembershipRecord) : Prop :=
  ∀ key ∈ record.extra.keys, key ∉ knownFields

theorem filter_members (record : FlowMembershipRecord) :
    record.members.filter (fun member => member.1 ∉ knownFields) = [] := by
  obtain ⟨_, _, _, _, nodeOrdinal, nodeLabel, _, _⟩ := record
  cases nodeOrdinal <;> cases nodeLabel <;> simp [members, knownFields]

theorem fromValue_toValue (h : record.ExtraUnknown) : fromValue record.toValue = .ok record := by
  have hkey : ∀ key ∈ knownFields, key ∉ record.extra.entries.map Prod.fst :=
    fun key hkey hmem => h key hmem hkey
  have hextra : record.extra.entries.filter (fun member => member.1 ∉ knownFields) =
      record.extra.entries := by
    rw [List.filter_eq_self]
    intro member hmember
    exact decide_eq_true (h _ (List.mem_map_of_mem hmember))
  rw [toValue, fromValue, Decode.required_append _ (hkey _ (by decide)),
    Decode.required_append _ (hkey _ (by decide)), Decode.required_append _ (hkey _ (by decide)),
    Decode.required_append _ (hkey _ (by decide)), Decode.optional_append _ (hkey _ (by decide)),
    Decode.optional_append _ (hkey _ (by decide)), Decode.required_append _ (hkey _ (by decide)),
    List.filter_append, filter_members, hextra, List.nil_append, Table.extend_entries]
  have hunique : Decode.unique record.members "schemaVersion" =
        .ok (some (natNumber record.schemaVersion.toNat)) ∧
      Decode.unique record.members "flowRunId" = .ok (some (.string record.flowRunId)) ∧
      Decode.unique record.members "taskUuid" = .ok (some (.string record.taskUuid)) ∧
      Decode.unique record.members "disposition" = .ok (some (.string record.disposition)) ∧
      Decode.unique record.members "nodeOrdinal" =
        .ok (record.nodeOrdinal.map fun n => natNumber n.toNat) ∧
      Decode.unique record.members "nodeLabel" = .ok (record.nodeLabel.map .string) ∧
      Decode.unique record.members "recordedAt" = .ok (some (.string record.recordedAt)) := by
    obtain ⟨_, _, _, _, nodeOrdinal, nodeLabel, _, _⟩ := record
    cases nodeOrdinal <;> cases nodeLabel <;> simp [members, Decode.unique]
  obtain ⟨h1, h2, h3, h4, h5, h6, h7⟩ := hunique
  rw [Decode.required_of_unique _ h1, Decode.required_of_unique _ h2,
    Decode.required_of_unique _ h3, Decode.required_of_unique _ h4,
    Decode.optional_of_unique _ h5 (by cases record.nodeOrdinal <;> simp [natNumber]),
    Decode.optional_of_unique _ h6 (by cases record.nodeLabel <;> simp),
    Decode.required_of_unique _ h7, Decode.u32_natNumber]
  obtain ⟨_, _, _, _, nodeOrdinal, nodeLabel, _, _⟩ := record
  cases nodeOrdinal <;> cases nodeLabel <;>
    simp [Except.map, bind, Except.bind, pure, Except.pure]

/-- A record whose line can be read: its extra members have names of their own, and the library reads them
as they are written. -/
def Writable (record : FlowMembershipRecord) : Prop :=
  record.ExtraUnknown ∧ Readable record.toValue

theorem newline_not_mem_line (record : FlowMembershipRecord) : '\n' ∉ record.line :=
  newline_not_mem_render _

theorem readsBack [Chrono] [JsonText] (h : record.Writable) (hvalid : record.validate = .ok ()) :
    ReadsBack parse line record := by
  refine ⟨?_, blank_object _, stripCr_render _⟩
  rw [parse, line, JsonText.read_compact h.2]
  dsimp only [bind, Except.bind]
  rw [fromValue_toValue h.1]
  dsimp only
  rw [hvalid]
  rfl

/-- The records that the daemon makes are writable. -/
theorem writable_new (flowRunId taskUuid : String) (disposition : MembershipDisposition)
    (nodeOrdinal : Option UInt64) (nodeLabel : Option String) (now : String) :
    (new flowRunId taskUuid disposition nodeOrdinal nodeLabel now).Writable := by
  refine ⟨nofun, FlatObject.readable ?_⟩
  constructor <;> cases nodeOrdinal <;> cases nodeLabel <;>
    simp [members, new, numberToken]

end FlowMembershipRecord

/-! ## The index of the records -/

namespace FlowMembership

/-- The records under their runs and tasks. -/
def flat (byRun : Table String (Table String FlowMembershipRecord)) : List FlowMembershipRecord :=
  byRun.values.flatMap Table.values

/-- The records stand under their run and their task, and no run is empty. -/
structure Keyed (byRun : Table String (Table String FlowMembershipRecord)) : Prop where
  keys : ∀ run tasks, byRun.get? run = some tasks → ∀ task record,
    tasks.get? task = some record → record.flowRunId = run ∧ record.taskUuid = task
  nonempty : ∀ run tasks, byRun.get? run = some tasks → ∃ task record, tasks.get? task = some record

variable {membership : FlowMembership} {byRun : Table String (Table String FlowMembershipRecord)}
  {records : List FlowMembershipRecord} {record : FlowMembershipRecord} {run task : String}

theorem record?_eq_some_iff : membership.record? run task = some record ↔
    ∃ tasks, membership.byRun.get? run = some tasks ∧ tasks.get? task = some record :=
  Option.bind_eq_some_iff

theorem mem_flat : record ∈ flat byRun ↔
    ∃ run tasks task, byRun.get? run = some tasks ∧ tasks.get? task = some record := by
  simp only [flat, List.mem_flatMap, Table.mem_values_iff]
  constructor
  · rintro ⟨tasks, ⟨run, hrun⟩, task, htask⟩
    exact ⟨run, tasks, task, hrun, htask⟩
  · rintro ⟨run, tasks, task, hrun, htask⟩
    exact ⟨tasks, ⟨run, hrun⟩, task, htask⟩

/-- A record that is new to the index. -/
theorem insert_of_not_contains (h : membership.contains record.flowRunId record.taskUuid = false) :
    membership.insert record =
      { byRun := membership.byRun.insert record.flowRunId
          (((membership.byRun.get? record.flowRunId).getD ∅).insert record.taskUuid record)
        records := membership.records + 1 } := by
  rw [insert, if_neg]
  rw [contains, record?] at h
  cases hrun : membership.byRun.get? record.flowRunId with
  | none => simp
  | some tasks =>
    rw [hrun] at h
    simpa using h

theorem insert_of_contains (h : membership.contains record.flowRunId record.taskUuid = true) :
    membership.insert record = membership := by
  rw [insert, if_pos]
  rw [contains, record?] at h
  cases hrun : membership.byRun.get? record.flowRunId with
  | none =>
    rw [hrun] at h
    cases h
  | some tasks =>
    rw [hrun] at h
    simpa using h

/-- The first record of a run and a task stays. -/
theorem record?_insert (membership : FlowMembership) (record : FlowMembershipRecord)
    (run task : String) :
    (membership.insert record).record? run task = (membership.record? run task).or
      (if record.flowRunId = run ∧ record.taskUuid = task then some record else none) := by
  cases hcontains : membership.contains record.flowRunId record.taskUuid with
  | true =>
    rw [insert_of_contains hcontains]
    split
    · next hkey =>
      obtain ⟨rfl, rfl⟩ := hkey
      obtain ⟨old, hold⟩ := Option.isSome_iff_exists.mp hcontains
      rw [hold, Option.some_or]
    · rw [Option.or_none]
  | false =>
    have hnone := Option.isSome_eq_false_iff.mp hcontains
    rw [Option.isNone_iff_eq_none] at hnone
    rw [insert_of_not_contains hcontains, record?, Table.get?_insert]
    by_cases hrun : run = record.flowRunId
    · subst hrun
      rw [if_pos rfl, Option.bind_some, Table.get?_insert]
      by_cases htask : task = record.taskUuid
      · subst htask
        simp [hnone]
      · rw [if_neg htask, if_neg (fun hkey => htask hkey.2.symm), Option.or_none, record?]
        cases membership.byRun.get? record.flowRunId <;> simp
    · rw [if_neg hrun, if_neg (fun hkey => hrun hkey.1.symm), Option.or_none, record?]

theorem Keyed.empty : Keyed ∅ := ⟨nofun, nofun⟩

theorem Keyed.insert (h : Keyed membership.byRun) (record : FlowMembershipRecord) :
    Keyed (membership.insert record).byRun := by
  cases hcontains : membership.contains record.flowRunId record.taskUuid with
  | true => rwa [insert_of_contains hcontains]
  | false =>
    rw [insert_of_not_contains hcontains]
    refine ⟨?_, ?_⟩
    · intro run tasks hrun task other hother
      rw [Table.get?_insert] at hrun
      split at hrun
      · next heq =>
        cases hrun
        rw [Table.get?_insert] at hother
        split at hother
        · next htask =>
          cases hother
          exact ⟨heq.symm, htask.symm⟩
        · cases hold : membership.byRun.get? record.flowRunId with
          | none =>
            rw [hold] at hother
            cases hother
          | some old =>
            rw [hold] at hother
            rw [heq]
            exact h.keys _ old hold task other hother
      · exact h.keys run tasks hrun task other hother
    · intro run tasks hrun
      rw [Table.get?_insert] at hrun
      split at hrun
      · cases hrun
        exact ⟨record.taskUuid, record, Table.get?_insert_self ..⟩
      · exact h.nonempty run tasks hrun

/-- Indexes with the same records are the same. -/
theorem Keyed.byRun_eq {a b : FlowMembership} (ha : Keyed a.byRun) (hb : Keyed b.byRun)
    (h : ∀ run task, a.record? run task = b.record? run task) : a.byRun = b.byRun := by
  have hle : ∀ {a b : FlowMembership}, Keyed a.byRun → Keyed b.byRun →
      (∀ run task, a.record? run task = b.record? run task) → ∀ run tasks,
      a.byRun.get? run = some tasks → b.byRun.get? run = some tasks := by
    intro a b ha hb h run tasks hrun
    obtain ⟨task, record, hrecord⟩ := ha.nonempty run tasks hrun
    have hb' := h run task
    rw [record?_eq_some_iff.mpr ⟨tasks, hrun, hrecord⟩] at hb'
    obtain ⟨tasks', hrun', -⟩ := record?_eq_some_iff.mp hb'.symm
    rw [hrun', Option.some.injEq]
    apply Table.ext_get?
    intro task
    have htask := h run task
    rwa [record?, record?, hrun, hrun', Option.bind_some, Option.bind_some, eq_comm] at htask
  apply Table.ext_get?
  intro run
  apply Option.ext
  intro tasks
  exact ⟨hle ha hb h run tasks, hle hb ha (fun run task => (h run task).symm) run tasks⟩

/-- The list of the records gains a new one. -/
theorem flat_insert_perm (h : membership.contains record.flowRunId record.taskUuid = false) :
    (flat (membership.insert record).byRun).Perm (record :: flat membership.byRun) := by
  rw [insert_of_not_contains h]
  have hnew := (membership.byRun.entries_insert_perm record.flowRunId
    (((membership.byRun.get? record.flowRunId).getD ∅).insert record.taskUuid record)).map Prod.snd
  refine (hnew.flatMap_right _).trans ?_
  rw [List.map_cons, List.flatMap_cons]
  cases hrun : membership.byRun.get? record.flowRunId with
  | none =>
    rw [Table.erase_of_get?_eq_none _ hrun]
    exact .rfl
  | some tasks =>
    rw [contains, record?, hrun] at h
    have hnone : tasks.get? record.taskUuid = none := by simpa using h
    have htasks := (tasks.entries_insert_perm record.taskUuid record).map Prod.snd
    rw [Table.erase_of_get?_eq_none _ hnone] at htasks
    have hold := ((membership.byRun.entries_perm_of_get? hrun).map Prod.snd).flatMap_right Table.values
    rw [List.map_cons, List.flatMap_cons] at hold
    exact (htasks.append_right _).trans (List.Perm.cons _ hold.symm)

/-- The counter is the number of the records. -/
def Counted (membership : FlowMembership) : Prop :=
  membership.records = (flat membership.byRun).length

theorem Counted.empty : Counted {} := rfl

theorem Counted.insert (h : membership.Counted) (record : FlowMembershipRecord) :
    (membership.insert record).Counted := by
  cases hcontains : membership.contains record.flowRunId record.taskUuid with
  | true => rwa [insert_of_contains hcontains]
  | false =>
    have hperm := (flat_insert_perm hcontains).length_eq
    rw [Counted, hperm, List.length_cons, ← h, insert_of_not_contains hcontains]

theorem keyed_counted_foldl (records : List FlowMembershipRecord) (hkeyed : Keyed membership.byRun)
    (hcounted : membership.Counted) :
    Keyed (records.foldl insert membership).byRun ∧ (records.foldl insert membership).Counted := by
  induction records generalizing membership with
  | nil => exact ⟨hkeyed, hcounted⟩
  | cons record records ih => exact ih (hkeyed.insert record) (hcounted.insert record)

theorem keyed_fromRecords (records : List FlowMembershipRecord) : Keyed (fromRecords records).byRun :=
  (keyed_counted_foldl records Keyed.empty Counted.empty).1

theorem counted_fromRecords (records : List FlowMembershipRecord) : (fromRecords records).Counted :=
  (keyed_counted_foldl records Keyed.empty Counted.empty).2

theorem fromRecords_concat (records : List FlowMembershipRecord) (record : FlowMembershipRecord) :
    fromRecords (records ++ [record]) = (fromRecords records).insert record := by
  rw [fromRecords, List.foldl_append]
  rfl

/-- The record that an index has is the first one. -/
theorem record?_foldl (membership : FlowMembership) (records : List FlowMembershipRecord)
    (run task : String) :
    (records.foldl insert membership).record? run task = (membership.record? run task).or
      (records.find? fun record => record.flowRunId = run ∧ record.taskUuid = task) := by
  induction records generalizing membership with
  | nil => simp
  | cons record records ih =>
    rw [List.foldl_cons, ih, record?_insert, Option.or_assoc, List.find?_cons]
    congr 1
    by_cases hkey : record.flowRunId = run ∧ record.taskUuid = task
    · simp [hkey]
    · simp only [hkey, if_false, decide_false, Option.none_or]

theorem record?_fromRecords (records : List FlowMembershipRecord) (run task : String) :
    (fromRecords records).record? run task =
      records.find? fun record => record.flowRunId = run ∧ record.taskUuid = task := by
  rw [fromRecords, record?_foldl]
  rfl

/-- The records of an index make the same index. -/
theorem byRun_fromRecords_flat (h : Keyed byRun) : (fromRecords (flat byRun)).byRun = byRun := by
  refine Keyed.byRun_eq (b := { byRun, records := 0 }) (keyed_fromRecords _) h fun run task => ?_
  rw [record?_fromRecords]
  apply Option.ext
  intro record
  rw [record?_eq_some_iff]
  constructor
  · intro hfind
    have hkey := List.find?_some hfind
    obtain ⟨run', tasks, task', hrun, htask⟩ := mem_flat.mp (List.mem_of_find?_eq_some hfind)
    simp only [decide_eq_true_eq] at hkey
    obtain ⟨rfl, rfl⟩ := h.keys run' tasks hrun task' record htask
    obtain ⟨rfl, rfl⟩ := hkey
    exact ⟨tasks, hrun, htask⟩
  · rintro ⟨tasks, hrun, htask⟩
    have hmem : record ∈ flat byRun := mem_flat.mpr ⟨run, tasks, task, hrun, htask⟩
    have hkey := h.keys run tasks hrun task record htask
    cases hfind : (flat byRun).find? fun record => record.flowRunId = run ∧ record.taskUuid = task with
    | none =>
      rw [List.find?_eq_none] at hfind
      exact absurd (by simp [hkey]) (hfind record hmem)
    | some other =>
      have hother := List.find?_some hfind
      simp only [decide_eq_true_eq] at hother
      obtain ⟨run', tasks', task', hrun', htask'⟩ :=
        mem_flat.mp (List.mem_of_find?_eq_some hfind)
      obtain ⟨rfl, rfl⟩ := h.keys run' tasks' hrun' task' other htask'
      obtain ⟨rfl, rfl⟩ := hother
      rw [hrun] at hrun'
      cases hrun'
      rw [htask] at htask'
      exact htask'.symm

theorem Keyed.foldl_erase (h : Keyed byRun) (runs : List String) :
    Keyed (runs.foldl Table.erase byRun) := by
  have hget : ∀ run tasks, (runs.foldl Table.erase byRun).get? run = some tasks →
      byRun.get? run = some tasks := by
    intro run tasks hrun
    rw [Table.get?_foldl_erase] at hrun
    split at hrun
    · cases hrun
    · exact hrun
  exact ⟨fun run tasks hrun => h.keys run tasks (hget run tasks hrun),
    fun run tasks hrun => h.nonempty run tasks (hget run tasks hrun)⟩

/-- The runs after a compaction: those that were not dropped, as they were. -/
theorem get?_fromRecords_withoutRuns (h : Keyed membership.byRun) (evicted : List String)
    (run : String) : (fromRecords (membership.withoutRuns evicted)).byRun.get? run =
      if run ∈ evicted then none else membership.byRun.get? run := by
  rw [withoutRuns, ← flat, byRun_fromRecords_flat (h.foldl_erase evicted), Table.get?_foldl_erase]

theorem mem_of_mem_withoutRuns {evicted : List String}
    (h : record ∈ (fromRecords records).withoutRuns evicted) : record ∈ records := by
  obtain ⟨run, tasks, task, hrun, htask⟩ := mem_flat.mp h
  rw [Table.get?_foldl_erase] at hrun
  split at hrun
  · cases hrun
  · have hfind := record?_eq_some_iff.mpr ⟨tasks, hrun, htask⟩
    rw [record?_fromRecords] at hfind
    exact List.mem_of_find?_eq_some hfind

/-! ## The runs that are dropped -/

/-- The time of a run carries its id. -/
theorem snd_runLastTouched (h : Keyed byRun) {tasks : Table String FlowMembershipRecord}
    (hrun : byRun.get? run = some tasks) : (ofLex (runLastTouched tasks)).2 = run := by
  have hmem : ∀ key ∈ tasks.values.map fun record => toLex (record.recordedAt, record.flowRunId),
      (ofLex key).2 = run := by
    intro key hkey
    obtain ⟨record, hrecord, rfl⟩ := List.mem_map.mp hkey
    obtain ⟨task, htask⟩ := tasks.mem_values_iff.mp hrecord
    exact (h.keys run tasks hrun task record htask).1
  cases hmax : (tasks.values.map fun record => toLex (record.recordedAt, record.flowRunId)).max? with
  | none =>
    obtain ⟨task, record, htask⟩ := h.nonempty run tasks hrun
    have hrecord := tasks.mem_values_iff.mpr ⟨task, htask⟩
    rw [List.max?_eq_none_iff, List.map_eq_nil_iff] at hmax
    rw [hmax] at hrecord
    cases hrecord
  | some last =>
    rw [runLastTouched, hmax]
    exact hmem last (List.max?_mem hmax)

/-- The number of the tasks of a candidate. -/
def heldOf (candidate : Candidate) : Nat := (ofLex (ofLex candidate).2).2

def runOf (candidate : Candidate) : String := (ofLex (ofLex candidate).2).1

/-- The plan takes candidates from the front, until the target is reached. -/
theorem takeRuns_eq (target total : Nat) (candidates : List Candidate) :
    ∃ taken kept, candidates = taken ++ kept ∧
      takeRuns target total candidates = taken.map runOf ∧
      (kept = [] ∨ total - (taken.map heldOf).sum ≤ target) := by
  induction candidates generalizing total with
  | nil => exact ⟨[], [], rfl, rfl, .inl rfl⟩
  | cons candidate rest ih =>
    rw [takeRuns]
    split
    · next hle => exact ⟨[], candidate :: rest, rfl, rfl, .inr (by simpa using hle)⟩
    · obtain ⟨taken, kept, hrest, hruns, htarget⟩ := ih (total - heldOf candidate)
      refine ⟨candidate :: taken, kept, by rw [hrest, List.cons_append], ?_, ?_⟩
      · exact congrArg (runOf candidate :: ·) hruns
      · rcases htarget with hnil | hle
        · exact .inl hnil
        · refine .inr ?_
          rw [List.map_cons, List.sum_cons]
          omega

theorem mem_candidates {protectedRuns : Finset String} {c : Candidate} :
    c ∈ membership.candidates protectedRuns ↔ ∃ run tasks, membership.byRun.get? run = some tasks ∧
      run ∉ protectedRuns ∧ candidate run tasks = c := by
  rw [candidates, List.mem_insertionSort, List.mem_map]
  constructor
  · rintro ⟨⟨run, tasks⟩, hentry, rfl⟩
    rw [List.mem_filter, Table.mem_entries_iff, decide_eq_true_eq] at hentry
    exact ⟨run, tasks, hentry.1, hentry.2, rfl⟩
  · rintro ⟨run, tasks, hrun, hprotected, rfl⟩
    refine ⟨(run, tasks), ?_, rfl⟩
    rw [List.mem_filter, Table.mem_entries_iff, decide_eq_true_eq]
    exact ⟨hrun, hprotected⟩

/-- The runs of a plan are not protected, and were touched before the others that are not. -/
theorem evictionPlan_spec (h : Keyed membership.byRun) (target : Nat) (protectedRuns : Finset String)
    (hrun : run ∈ membership.evictionPlan target protectedRuns) :
    run ∉ protectedRuns ∧ ∃ tasks, membership.byRun.get? run = some tasks ∧
      ∀ other othersTasks, membership.byRun.get? other = some othersTasks → other ∉ protectedRuns →
        other ∉ membership.evictionPlan target protectedRuns →
        runLastTouched tasks < runLastTouched othersTasks := by
  rw [evictionPlan] at hrun ⊢
  split at hrun
  · cases hrun
  · next hrecords =>
    rw [if_neg hrecords]
    obtain ⟨taken, kept, hsplit, hruns, -⟩ :=
      takeRuns_eq target membership.records (membership.candidates protectedRuns)
    have hpairwise : (membership.candidates protectedRuns).Pairwise fun a b => a ≤ b :=
      List.pairwise_insertionSort (· ≤ ·) _
    rw [hsplit] at hpairwise
    rw [hruns] at hrun ⊢
    obtain ⟨c, hc, rfl⟩ := List.mem_map.mp hrun
    obtain ⟨run, tasks, hget, hprotected, rfl⟩ :=
      mem_candidates.mp (hsplit ▸ List.mem_append_left kept hc)
    refine ⟨hprotected, tasks, hget, ?_⟩
    intro other othersTasks hother hother' hstays
    have hkept : candidate other othersTasks ∈ kept := by
      have hmem := mem_candidates.mpr ⟨other, othersTasks, hother, hother', rfl⟩
      rw [hsplit] at hmem
      rcases List.mem_append.mp hmem with htaken | hkept
      · exact absurd (List.mem_map.mpr ⟨_, htaken, rfl⟩) hstays
      · exact hkept
    have hle := (List.pairwise_append.mp hpairwise).2.2 _ hc _ hkept
    have hne : runLastTouched tasks ≠ runLastTouched othersTasks := by
      intro heq
      have hsame := snd_runLastTouched h hget
      rw [heq, snd_runLastTouched h hother] at hsame
      subst hsame
      exact hstays (List.mem_map.mpr ⟨_, hc, rfl⟩)
    rcases Prod.Lex.le_iff.mp hle with hlt | ⟨heq, -⟩
    · exact hlt
    · exact absurd heq hne

end FlowMembership

namespace FlowMembership

/-- The runs that are protected: the one that is written, and those with a live task. -/
theorem mem_protectedRuns {membership : FlowMembership} {run writing : String}
    {liveTasks : Finset String} : run ∈ membership.protectedRuns writing liveTasks ↔
      run = writing ∨ ∃ tasks, membership.byRun.get? run = some tasks ∧
        ∃ task ∈ liveTasks, ∃ record, tasks.get? task = some record := by
  rw [protectedRuns]
  split
  · next hempty => simp [hempty]
  · rw [Finset.mem_insert, List.mem_toFinset, List.mem_map]
    refine or_congr Iff.rfl ⟨?_, ?_⟩
    · rintro ⟨⟨run, tasks⟩, hentry, rfl⟩
      rw [List.mem_filter, Table.mem_entries_iff, List.any_eq_true] at hentry
      obtain ⟨hrun, task, htask, hlive⟩ := hentry
      exact ⟨tasks, hrun, task, of_decide_eq_true hlive, tasks.mem_keys_iff.mp htask⟩
    · rintro ⟨tasks, hrun, task, hlive, htask⟩
      refine ⟨(run, tasks), ?_, rfl⟩
      rw [List.mem_filter, Table.mem_entries_iff, List.any_eq_true]
      exact ⟨hrun, task, tasks.mem_keys_iff.mpr htask, decide_eq_true hlive⟩

end FlowMembership

/-! ## Calls -/

/-- The scan of the last bytes finds the end of the last line, like a scan of the whole file. -/
theorem truncateTornTail_eq (file : Bytes) : truncateTornTail file = truncateTail file := by
  obtain ⟨body, torn, rfl, hbody, htorn⟩ := exists_complete lf file
  rw [truncateTail, completePrefix_append hbody htorn, truncateTornTail]
  split
  · next hnil => simp [List.append_eq_nil_iff.mp hnil]
  · next hne =>
    dsimp only
    generalize hstart : (body ++ torn).length - min (body ++ torn).length tailScanBytes = start
    have hlt : start < (body ++ torn).length := by
      have hpos : 0 < (body ++ torn).length := List.length_pos_iff.mpr hne
      unfold tailScanBytes at hstart
      omega
    rw [List.length_append] at hlt
    by_cases hnil : torn = []
    · subst hnil
      rw [List.append_nil] at *
      rcases hbody with rfl | hlast
      · exact absurd rfl hne
      · have hend : (body.drop start).getLast? = some lf := by
          rw [List.getLast?_drop, if_neg (by simpa using hlt), hlast]
        rw [if_pos hend, List.take_length]
    · have hlast : ((body ++ torn).drop start).getLast? ≠ some lf := by
        rw [List.getLast?_drop, if_neg (by rw [List.length_append]; omega),
          List.getLast?_append_of_ne_nil _ hnil]
        exact fun h => htorn (List.mem_of_getLast? h)
      rw [if_neg hlast]
      by_cases hin : start < body.length
      · rcases hbody with rfl | hbody
        · cases hin
        · obtain ⟨front, rfl⟩ := List.getLast?_eq_some_iff.mp hbody
          rw [List.length_append, List.length_singleton] at hin
          rw [List.append_assoc, List.singleton_append, List.drop_append_of_le_length (by omega),
            rposition_append htorn]
          dsimp only
          congr 1
          rw [List.length_drop, List.length_append, List.length_singleton]
          omega
      · have hnot : lf ∉ (body ++ torn).drop start := by
          rw [List.drop_append, List.drop_of_length_le (by omega), List.nil_append]
          exact fun h => htorn (List.mem_of_mem_drop h)
        rw [rposition_eq_none hnot]
        dsimp only
        rw [completePrefix_append hbody htorn]

structure MembershipCall where
  record : FlowMembershipRecord
  liveTasks : Finset String
  maxRecords : Nat
  disk : Disk

/-- The ledger, and the index that the daemon threads through the calls. -/
structure MembershipLedger where
  file : Bytes := []
  held : FlowMembership := {}

namespace MembershipLedger

variable [Chrono] [JsonText]

def call (ledger : MembershipLedger) (call : MembershipCall) :
    Except FlowMembershipError (MembershipWrite × FlowMembership) × Bytes :=
  recordMembershipBounded ledger.file call.record ledger.held call.liveTasks call.maxRecords call.disk

/-- The index of a call that succeeds is kept; after an error the ledger is read again. -/
def step (ledger : MembershipLedger) (call : MembershipCall) : MembershipLedger :=
  match ledger.call call with
  | (.ok (_, held), file) => { file, held }
  | (.error _, file) => { file, held := (FlowMembership.read file).toOption.getD ledger.held }

def run (ledger : MembershipLedger) (calls : List MembershipCall) : MembershipLedger :=
  calls.foldl step ledger

/-- The file has the lines of records, and the index is theirs. -/
def Recorded (file : Bytes) (held : FlowMembership) : Prop :=
  ∃ records : List FlowMembershipRecord, Holds file (records.map FlowMembershipRecord.line) ∧
    (∀ record ∈ records, ReadsBack FlowMembershipRecord.parse FlowMembershipRecord.line record) ∧
    held = FlowMembership.fromRecords records

theorem Recorded.read {file : Bytes} {held : FlowMembership} (h : Recorded file held) :
    FlowMembership.read file = .ok held := by
  obtain ⟨records, hfile, hreads, rfl⟩ := h
  rw [FlowMembership.read, hfile.readLog_eq hreads]
  rfl

variable {ledger : MembershipLedger} {call : MembershipCall}

/-- The index of a call with its record. -/
def index (ledger : MembershipLedger) (call : MembershipCall) : FlowMembership :=
  ledger.held.insert call.record

def plan (ledger : MembershipLedger) (call : MembershipCall) : List String :=
  compactionPlan (ledger.index call) call.record.flowRunId call.liveTasks call.maxRecords

def kept (ledger : MembershipLedger) (call : MembershipCall) : List FlowMembershipRecord :=
  (ledger.index call).withoutRuns (ledger.plan call)

/-- What a call can do. -/
inductive Outcome (ledger : MembershipLedger) (call : MembershipCall) :
    Except FlowMembershipError (MembershipWrite × FlowMembership) × Bytes → Prop
  | failed (error : FlowMembershipError) : Outcome ledger call (.error error, ledger.file)
  | alreadyHeld (h : ledger.held.contains call.record.flowRunId call.record.taskUuid = true) :
    Outcome ledger call (.ok (.alreadyHeld, ledger.held), ledger.file)
  | rewritten (result : Except FlowMembershipError (MembershipWrite × FlowMembership))
    (hvalid : call.record.validate = .ok ())
    (hnew : ledger.held.contains call.record.flowRunId call.record.taskUuid = false)
    (hplan : ledger.plan call ≠ [])
    (hresult : ∀ write index, result = .ok (write, index) →
      write = .appended ∧ index = FlowMembership.fromRecords (ledger.kept call)) :
    Outcome ledger call (result, writeLines ((ledger.kept call).map FlowMembershipRecord.line))
  | added (result : Except FlowMembershipError (MembershipWrite × FlowMembership)) (bytes : Nat)
    (hvalid : call.record.validate = .ok ())
    (hnew : ledger.held.contains call.record.flowRunId call.record.taskUuid = false)
    (hplan : ledger.plan call = [])
    (hresult : ∀ write index, result = .ok (write, index) → write ≠ .alreadyHeld ∧
      index = ledger.index call ∧ bytes = (lineBytes call.record.line).length) :
    Outcome ledger call
      (result, truncateTail ledger.file ++ (lineBytes call.record.line).take bytes)

theorem outcome_call (ledger : MembershipLedger) (call : MembershipCall) :
    Outcome ledger call (ledger.call call) := by
  rw [MembershipLedger.call, recordMembershipBounded]
  split
  · exact .failed _
  · next hvalid =>
    split
    · next hheld => exact .alreadyHeld hheld
    · next hnew =>
      rw [Bool.not_eq_true] at hnew
      dsimp only
      rw [← index, ← plan, ← kept]
      split
      · next hplan =>
        cases hdisk : call.disk with
        | refused | stopped bytes => exact .failed _
        | unsynced => exact .rewritten _ hvalid hnew hplan nofun
        | fine =>
          dsimp only [rewriteCompacted]
          split
          · refine .rewritten _ hvalid hnew hplan ?_
            intro write index hresult
            cases hresult
            exact ⟨rfl, rfl⟩
          · exact .rewritten _ hvalid hnew hplan nofun
      · next hplan =>
        rw [ne_eq, not_not] at hplan
        have hwhole : truncateTornTail ledger.file ++ lineBytes call.record.line =
            truncateTail ledger.file ++
              (lineBytes call.record.line).take (lineBytes call.record.line).length := by
          rw [truncateTornTail_eq, List.take_length]
        cases hdisk : call.disk with
        | refused => exact .failed _
        | stopped bytes =>
          dsimp only [appendLine]
          rw [truncateTornTail_eq]
          exact .added _ bytes hvalid hnew hplan nofun
        | unsynced =>
          dsimp only [appendLine]
          rw [hwhole]
          exact .added _ _ hvalid hnew hplan nofun
        | fine =>
          dsimp only [appendLine]
          rw [hwhole]
          refine .added _ _ hvalid hnew hplan ?_
          intro write index hresult
          cases hresult
          refine ⟨?_, rfl, rfl⟩
          split <;> exact nofun

theorem Recorded.outcome (h : Recorded ledger.file ledger.held) (hrecord : call.record.Writable)
    {result : Except FlowMembershipError (MembershipWrite × FlowMembership)} {file : Bytes}
    (houtcome : Outcome ledger call (result, file)) :
    ∃ held, Recorded file held ∧ ∀ write index, result = .ok (write, index) → index = held := by
  have hreads := FlowMembershipRecord.readsBack hrecord
  have hrecorded := h
  obtain ⟨records, hfile, hrecords, hheld⟩ := h
  have hindex : ledger.index call = FlowMembership.fromRecords (records ++ [call.record]) := by
    rw [FlowMembership.fromRecords_concat, index, hheld]
  cases houtcome with
  | failed error => exact ⟨ledger.held, hrecorded, nofun⟩
  | alreadyHeld hcontains =>
    refine ⟨ledger.held, hrecorded, ?_⟩
    intro write index hresult
    cases hresult
    rfl
  | rewritten _ hvalid hnew hplan hresult =>
    refine ⟨_, ⟨ledger.kept call, Holds.of_writeLines ?_, ?_, rfl⟩, fun write index hok =>
      (hresult write index hok).2⟩
    · intro text htext
      obtain ⟨record, -, rfl⟩ := List.mem_map.mp htext
      exact record.newline_not_mem_line
    · intro record hmem
      rw [kept, hindex] at hmem
      rcases List.mem_append.mp (FlowMembership.mem_of_mem_withoutRuns hmem) with hold | hnew
      · exact hrecords record hold
      · rw [List.mem_singleton.mp hnew]
        exact hreads hvalid
  | added _ bytes hvalid hnew hplan hresult =>
    have hfile' := hfile.append_take call.record.newline_not_mem_line bytes
    have hwhole : ∀ record ∈ records ++ [call.record],
        ReadsBack FlowMembershipRecord.parse FlowMembershipRecord.line record := by
      intro record hmem
      rcases List.mem_append.mp hmem with hold | hnew
      · exact hrecords record hold
      · rw [List.mem_singleton.mp hnew]
        exact hreads hvalid
    split at hfile'
    · refine ⟨ledger.index call, ⟨records ++ [call.record], ?_, hwhole, hindex⟩, ?_⟩
      · rw [List.map_append]
        exact hfile'
      · intro write index hok
        exact (hresult write index hok).2.1
    · next hlen =>
      refine ⟨ledger.held, ⟨records, hfile', hrecords, hheld⟩, ?_⟩
      intro write index hok
      exact absurd (hresult write index hok).2.2.ge hlen

theorem Recorded.step (h : Recorded ledger.file ledger.held) (hrecord : call.record.Writable) :
    Recorded (ledger.step call).file (ledger.step call).held := by
  rw [MembershipLedger.step]
  have houtcome := outcome_call ledger call
  rcases hcall : ledger.call call with ⟨result, file⟩
  rw [hcall] at houtcome
  obtain ⟨held, hrecorded, hindex⟩ := h.outcome hrecord houtcome
  cases result with
  | ok value =>
    obtain ⟨write, index⟩ := value
    rw [← hindex write index rfl] at hrecorded
    exact hrecorded
  | error error =>
    dsimp only
    rw [hrecorded.read]
    exact hrecorded

theorem Recorded.run (h : Recorded ledger.file ledger.held) (calls : List MembershipCall)
    (hrecords : ∀ call ∈ calls, call.record.Writable) :
    Recorded (ledger.run calls).file (ledger.run calls).held := by
  induction calls generalizing ledger with
  | nil => exact h
  | cons call calls ih =>
    exact ih (h.step (hrecords call (List.mem_cons_self ..)))
      fun other hother => hrecords other (List.mem_cons_of_mem _ hother)

theorem recorded_empty : Recorded [] {} := ⟨[], Holds.nil, nofun, rfl⟩

/-- What a call leaves of the runs of an index. -/
structure WholeRuns (held : FlowMembership) (call : MembershipCall) (write : MembershipWrite)
    (index : FlowMembership) : Prop where
  /-- The record is in the index. -/
  written : index.contains call.record.flowRunId call.record.taskUuid = true ∧
    (write ≠ .alreadyHeld →
      index.record? call.record.flowRunId call.record.taskUuid = some call.record)
  /-- A run is there with all its tasks, or not at all. -/
  whole : ∀ run tasks, held.byRun.get? run = some tasks →
    (∀ task, index.record? run task = none) ∨
      ∀ task record, tasks.get? task = some record → index.record? run task = some record
  /-- A run that is dropped is not the one that is written and has no live task, the index was over
  its bound, and the other runs that might have been dropped were touched later. -/
  dropped : ∀ run tasks, held.byRun.get? run = some tasks → index.byRun.get? run = none →
    run ≠ call.record.flowRunId ∧
    (∀ task ∈ call.liveTasks, held.contains run task = false) ∧
    call.maxRecords < held.records + 1 ∧
    ∀ other othersTasks, held.byRun.get? other = some othersTasks →
      other ≠ call.record.flowRunId → (∀ task ∈ call.liveTasks, held.contains other task = false) →
      index.byRun.get? other ≠ none →
      FlowMembership.runLastTouched tasks < FlowMembership.runLastTouched othersTasks

omit [Chrono] [JsonText] in
theorem get?_index (hnew : ledger.held.contains call.record.flowRunId call.record.taskUuid = false)
    {run : String} (h : run ≠ call.record.flowRunId) :
    (ledger.index call).byRun.get? run = ledger.held.byRun.get? run := by
  rw [index, FlowMembership.insert_of_not_contains hnew, Table.get?_insert_ne _ _ h]

omit [Chrono] [JsonText] in
theorem wholeRuns_added (hnew : ledger.held.contains call.record.flowRunId call.record.taskUuid = false)
    (write : MembershipWrite) : WholeRuns ledger.held call write (ledger.index call) := by
  have hrecord : (ledger.index call).record? call.record.flowRunId call.record.taskUuid =
      some call.record := by
    rw [index, FlowMembership.record?_insert, if_pos ⟨rfl, rfl⟩]
    rw [FlowMembership.contains, Option.isSome_eq_false_iff, Option.isNone_iff_eq_none] at hnew
    rw [hnew, Option.none_or]
  refine ⟨⟨by rw [FlowMembership.contains, hrecord]; rfl, fun _ => hrecord⟩, ?_, ?_⟩
  · intro run tasks hrun
    refine .inr fun task record htask => ?_
    rw [index, FlowMembership.record?_insert,
      FlowMembership.record?_eq_some_iff.mpr ⟨tasks, hrun, htask⟩, Option.some_or]
  · intro run tasks hrun hnone
    rw [index, FlowMembership.insert_of_not_contains hnew, Table.get?_insert] at hnone
    split at hnone
    · cases hnone
    · rw [hrun] at hnone
      cases hnone

omit [Chrono] [JsonText] in
theorem wholeRuns_rewritten (hkeyed : FlowMembership.Keyed ledger.held.byRun)
    (hnew : ledger.held.contains call.record.flowRunId call.record.taskUuid = false)
    (write : MembershipWrite) :
    WholeRuns ledger.held call write (FlowMembership.fromRecords (ledger.kept call)) := by
  have hindex : FlowMembership.Keyed (ledger.index call).byRun := hkeyed.insert call.record
  have hget := FlowMembership.get?_fromRecords_withoutRuns hindex (ledger.plan call)
  rw [← kept] at hget
  -- the runs of the plan: the index was over its bound, and the plan is an eviction plan
  have hplan : ∀ run ∈ ledger.plan call, call.maxRecords < ledger.held.records + 1 ∧
      run ∈ (ledger.index call).evictionPlan (flowMembershipCompactTo call.maxRecords)
        ((ledger.index call).protectedRuns call.record.flowRunId call.liveTasks) ∧
      ledger.plan call = (ledger.index call).evictionPlan (flowMembershipCompactTo call.maxRecords)
        ((ledger.index call).protectedRuns call.record.flowRunId call.liveTasks) := by
    intro run hrun
    rw [plan, compactionPlan] at hrun ⊢
    split at hrun
    · next hover =>
      rw [if_pos hover]
      rw [index, FlowMembership.insert_of_not_contains hnew] at hover
      exact ⟨hover, hrun, rfl⟩
    · cases hrun
  have hwriting : call.record.flowRunId ∉ ledger.plan call := by
    intro hmem
    obtain ⟨-, hmem, -⟩ := hplan _ hmem
    exact (FlowMembership.evictionPlan_spec hindex _ _ hmem).1
      (FlowMembership.mem_protectedRuns.mpr (.inl rfl))
  have hadded := wholeRuns_added hnew write
  -- a record of a run that stays is the one of the index
  have hstays : ∀ run, run ∉ ledger.plan call → ∀ task,
      (FlowMembership.fromRecords (ledger.kept call)).record? run task =
        (ledger.index call).record? run task := by
    intro run hrun task
    rw [FlowMembership.record?, hget, if_neg hrun, FlowMembership.record?]
  refine ⟨?_, ?_, ?_⟩
  · rw [FlowMembership.contains, hstays _ hwriting, ← FlowMembership.contains]
    exact hadded.written
  · intro run tasks hrun
    by_cases hmem : run ∈ ledger.plan call
    · refine .inl fun task => ?_
      rw [FlowMembership.record?, hget, if_pos hmem]
      rfl
    · refine .inr fun task record htask => ?_
      rw [hstays run hmem, index, FlowMembership.record?_insert,
        FlowMembership.record?_eq_some_iff.mpr ⟨tasks, hrun, htask⟩, Option.some_or]
  · intro run tasks hrun hnone
    have hmem : run ∈ ledger.plan call := by
      by_contra hmem
      rw [hget, if_neg hmem, get?_index hnew (fun heq => ?_), hrun] at hnone
      · cases hnone
      · rw [heq, index, FlowMembership.insert_of_not_contains hnew, Table.get?_insert_self] at hnone
        cases hnone
    obtain ⟨hover, hevicted, hplan'⟩ := hplan run hmem
    have hne : run ≠ call.record.flowRunId := by
      rintro rfl
      exact hwriting hmem
    obtain ⟨hprotected, tasks', htasks', hlast⟩ :=
      FlowMembership.evictionPlan_spec hindex _ _ hevicted
    rw [get?_index hnew hne, hrun, Option.some.injEq] at htasks'
    subst htasks'
    -- runs without a live task are protected only if they are written
    have hunprotected : ∀ other, other ≠ call.record.flowRunId →
        (other ∈ (ledger.index call).protectedRuns call.record.flowRunId call.liveTasks ↔
          ∃ task ∈ call.liveTasks, ledger.held.contains other task = true) := by
      intro other hother
      rw [FlowMembership.mem_protectedRuns, get?_index hnew hother]
      constructor
      · rintro (heq | ⟨tasks, htasks, task, hlive, record, hrecord⟩)
        · exact absurd heq hother
        · refine ⟨task, hlive, ?_⟩
          rw [FlowMembership.contains, FlowMembership.record?_eq_some_iff.mpr ⟨tasks, htasks, hrecord⟩]
          rfl
      · rintro ⟨task, hlive, hcontains⟩
        obtain ⟨record, hrecord⟩ := Option.isSome_iff_exists.mp hcontains
        obtain ⟨tasks, htasks, htask⟩ := FlowMembership.record?_eq_some_iff.mp hrecord
        exact .inr ⟨tasks, htasks, task, hlive, record, htask⟩
    refine ⟨hne, ?_, hover, ?_⟩
    · intro task hlive
      rw [← Bool.not_eq_true]
      intro hcontains
      exact hprotected ((hunprotected run hne).mpr ⟨task, hlive, hcontains⟩)
    · intro other othersTasks hother hother' hnotLive hthere
      refine hlast other othersTasks ?_ ?_ ?_
      · rw [get?_index hnew hother', hother]
      · intro hmem'
        obtain ⟨task, hlive, hcontains⟩ := (hunprotected other hother').mp hmem'
        rw [hnotLive task hlive] at hcontains
        cases hcontains
      · intro hmem'
        rw [← hplan'] at hmem'
        rw [hget, if_pos hmem'] at hthere
        exact hthere rfl

/-- Whatever the calls before it were, and wherever their writes stopped: the index that a call hands
back is the one that a reader of the ledger gets, it has the record, and of the runs before it none is
there in part and none was dropped that is in use. -/
theorem membership_keeps_whole_runs (calls : List MembershipCall) (call : MembershipCall)
    (hcalls : ∀ other ∈ calls, other.record.Writable) (hcall : call.record.Writable) :
    FlowMembership.read (run {} calls).file = .ok (run {} calls).held ∧
    ∀ write index file, (run {} calls).call call = (.ok (write, index), file) →
      FlowMembership.read file = .ok index ∧ WholeRuns (run {} calls).held call write index ∧
      (write = .alreadyHeld → file = (run {} calls).file) := by
  have hrecorded : Recorded (run {} calls).file (run {} calls).held :=
    Recorded.run recorded_empty calls hcalls
  generalize run {} calls = ledger at hrecorded
  refine ⟨hrecorded.read, ?_⟩
  intro write index file hok
  have houtcome := outcome_call ledger call
  rw [hok] at houtcome
  obtain ⟨held, hrecorded', hindex⟩ := hrecorded.outcome hcall houtcome
  rw [hindex write index rfl]
  refine ⟨hrecorded'.read, ?_⟩
  rw [← hindex write index rfl]
  have hkeyed : FlowMembership.Keyed ledger.held.byRun := by
    obtain ⟨records, -, -, hheld⟩ := hrecorded
    rw [hheld]
    exact FlowMembership.keyed_fromRecords records
  cases houtcome with
  | alreadyHeld hcontains =>
    refine ⟨⟨⟨hcontains, fun h => absurd rfl h⟩, ?_, ?_⟩, fun _ => rfl⟩
    · intro run tasks hrun
      exact .inr fun task record htask =>
        FlowMembership.record?_eq_some_iff.mpr ⟨tasks, hrun, htask⟩
    · intro run tasks hrun hnone
      rw [hrun] at hnone
      cases hnone
  | rewritten _ hvalid hnew hplan hresult =>
    obtain ⟨rfl, rfl⟩ := hresult _ _ rfl
    exact ⟨wholeRuns_rewritten hkeyed hnew _, nofun⟩
  | added _ bytes hvalid hnew hplan hresult =>
    obtain ⟨hwrite, rfl, -⟩ := hresult _ _ rfl
    exact ⟨wholeRuns_added hnew _, fun h => absurd h hwrite⟩

end MembershipLedger

/-! ## A compaction -/

namespace MembershipSample

instance : Chrono := ⟨fun _ => true⟩

local instance : JsonText := compactReader

/-- Calls with a bound of two records. -/
def admission (run task now : String) (disk : Disk) : MembershipCall :=
  ⟨.new run task .created none none now, ∅, 2, disk⟩

/-- Two runs, and a write that stops. -/
def calls : List MembershipCall :=
  [admission "a" "t" "1" .fine, admission "b" "t" "2" .fine, admission "a" "u" "3" (.stopped 7)]

theorem membership_keeps_whole_runs_two :
    FlowMembership.read (MembershipLedger.run {} calls).file =
      .ok (MembershipLedger.run {} calls).held ∧
    (∀ write index file, (MembershipLedger.run {} calls).call (admission "c" "t" "4" .fine) =
      (.ok (write, index), file) → FlowMembership.read file = .ok index ∧
      MembershipLedger.WholeRuns (MembershipLedger.run {} calls).held (admission "c" "t" "4" .fine) write
        index ∧
      (write = .alreadyHeld → file = (MembershipLedger.run {} calls).file)) ∧
    ((MembershipLedger.run {} calls).call (admission "c" "t" "4" .fine)).1.toOption.map
      (fun result => result.2.byRun.keys) = some ["b", "c"] := by
  have hcalls : ∀ other ∈ calls, other.record.Writable := by
    intro other hother
    simp only [calls, List.mem_cons, List.not_mem_nil, or_false] at hother
    rcases hother with rfl | rfl | rfl <;> exact FlowMembershipRecord.writable_new ..
  have h := MembershipLedger.membership_keeps_whole_runs calls (admission "c" "t" "4" .fine) hcalls
    (FlowMembershipRecord.writable_new ..)
  exact ⟨h.1, h.2, by decide +kernel⟩

end MembershipSample

end Tally.Flow
