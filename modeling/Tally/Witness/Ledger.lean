import Tally.Witness.Verify
import Tally.Lib.Decode
import Tally.Lib.JsonNumber

/-!
# The witness ledger and its writers

Several handles append to one file, each under the lock of the file (`witness.rs`). A handle caches
the head of the part that it has verified; an append verifies what has come behind it, cuts off a
torn line and writes its own. A write can stop after any number of bytes. In every state the
complete lines of the file are a verified chain that only ever grows (`ledger_crash_safe`).
-/

namespace Tally.Witness

open Tally.Lib

variable [Libraries]

/-! ## Building a record -/

/-- `Number::is_f64`. -/
def isF64 (n : Number) : Bool :=
  (n.chars.any fun c => c == '.' || c == 'e' || c == 'E') && isFiniteLexeme n

mutual

def normalizeWitnessNumbers : Value → Except String Value
  | .number n => if isF64 n then (legacyF64 n).map .number else .ok (.number n)
  | .array items => (normalizeItems items).map .array
  | .object fields => (normalizeFields fields).map .object
  | .null => .ok .null
  | .bool b => .ok (.bool b)
  | .string s => .ok (.string s)

def normalizeItems : List Value → Except String (List Value)
  | [] => .ok []
  | item :: items => do
    let item ← normalizeWitnessNumbers item
    let items ← normalizeItems items
    return item :: items

def normalizeFields : List (String × Value) → Except String (List (String × Value))
  | [] => .ok []
  | (key, value) :: fields => do
    let value ← normalizeWitnessNumbers value
    let fields ← normalizeFields fields
    return (key, value) :: fields

end

/-- An error of the JSON library. -/
def json {α : Type} (result : Except String α) : Except WitnessError α := result.mapError .json

def stableCanonicalValue (value : Value) : Except WitnessError Value := do
  let parsed ← json (fromStr (render value))
  let normalized ← json (normalizeWitnessNumbers parsed)
  let reparsed ← json (fromStr (render normalized))
  let reparsed ← json (normalizeWitnessNumbers reparsed)
  ensure (render reparsed = render normalized)
    (.corrupt "record cannot be encoded as stable compact canonical JSON")
  return normalized

def canonicalRecordBytes (raw : Value) : Except WitnessError Bytes := do
  let normalized ← json (fromStr (render raw))
  ensure (render normalized = render raw) (.corrupt "record producer generated non-canonical JSON")
  return encode (render raw)

def canonicalStorePaths : Option (List String) → Except WitnessError (Option (List String))
  | none => .ok none
  | some paths => do
    let paths := paths.insertionSort (· ≤ ·)
    ensure ((paths.zip paths.tail).all fun (a, b) => a ≠ b)
      (.corrupt "storePaths contains a duplicate path")
    return some paths

def canonicalDrv : Option Derivation → Except WitnessError (Option Derivation)
  | none => .ok none
  | some drv => (drv.canonicalize.mapError .corrupt).map some

def buildRecordWithRaw (body : WitnessBody) (head : ChainHead) :
    Except WitnessError (WitnessRecord × Value) := do
  let pools ← (Poolset.canonicalize body.pools).mapError fun error => .corrupt error.message
  let storePaths ← canonicalStorePaths body.storePaths
  let drv ← canonicalDrv body.drv
  let record : WitnessRecord := { body with
    pools, storePaths, drv, schemaVersion := witnessSchemaVersion, authorship := none
    authorshipSessions := none, extensions := [], seq := head.seq + 1, prevHash := head.hash
    hash := "" }
  let raw ← stableCanonicalValue (.object record.toFields)
  let hash ← computeHashValue raw
  let fields ← orError (asObject raw) (.corrupt "serialized witness record is an object")
  let raw := Value.object (fields.insert "hash" (.string hash))
  let _ ← (validateRecord raw).mapError fun failure => .corrupt failure.reason
  let _ ← canonicalRecordBytes raw
  return ({ record with hash }, raw)

/-! ## Handles -/

def looksLikeOldFormat (bytes : Bytes) : Bool :=
  match decode bytes with
  | none => false
  | some text => ((pieces '\n' text).map stripCr).any fun line =>
    !blank line && match (fromStr line).toOption.bind asObject with
      | none => false
      | some fields => (fields.get? "schemaVersion").isNone &&
        ["task_uuid", "transition_timestamp", "pool", "prev_hash"].any fun field =>
          (fields.get? field).isSome

def VerifyProblemKind.asStr : VerifyProblemKind → String
  | parseError => "parse-error"
  | invalidRecord => "invalid-record"
  | schemaVersionInvalid => "schema-version-invalid"
  | recordTypeInvalid => "record-type-invalid"
  | hashMismatch => "hash-mismatch"
  | prevHashMismatch => "prev-hash-mismatch"
  | seqOrder => "seq-order"
  | seqGap => "seq-gap"
  | seqDuplicate => "seq-duplicate"

def VerifyProblem.toValue (problem : VerifyProblem) : Value :=
  .object [("seq", problem.seq.elim .null natValue), ("line", natValue problem.line),
    ("kind", .string problem.kind.asStr), ("reason", .string problem.reason)]

structure Handle where
  head : ChainHead
  verifiedOffset : Nat

/-- The head of a verified ledger, read again from its last line. -/
def lastRecordHead (bytes : Bytes) : Except WitnessError ChainHead := do
  let text ← orError (decode bytes) (.corrupt "ledger is not UTF-8")
  let last ← orError (((pieces '\n' text).map stripCr).reverse.find? fun line => !blank line)
    (.corrupt "ledger has no complete record")
  let raw ← json (fromStr last)
  let record ← (validateRecord raw).mapError fun failure => .corrupt failure.reason
  return ⟨record.seq, record.hash⟩

/-- The result, and the file after it. -/
def scanHead (file : Bytes) : Except WitnessError Handle × Bytes :=
  if file.isEmpty then (.ok ⟨genesis, 0⟩, file)
  else if looksLikeOldFormat file then (.error .oldFormat, file)
  else
    let complete := file.take (completeLen lf file)
    let report := verifyReader complete
    if report.ok = false then
      (.error (.corrupt (String.ofList (render (.array (report.problems.map (·.toValue)))))), complete)
    else if report.records = 0 then (.ok ⟨genesis, complete.length⟩, complete)
    else match lastRecordHead complete with
      | .error error => (.error error, complete)
      | .ok head => (.ok ⟨head, complete.length⟩, complete)

def verifySuffix (file : Bytes) (handle : Handle) : Except WitnessError Handle × Bytes :=
  let bytes := file.drop handle.verifiedOffset
  if bytes.isEmpty then (.ok handle, file)
  else
    let complete := bytes.take (completeLen lf bytes)
    let file := file.take (handle.verifiedOffset + completeLen lf bytes)
    match verifySuffixBytes complete handle.head with
    | .error error => (.error error, file)
    | .ok records =>
      let head := records.getLast?.elim handle.head fun record => ⟨record.seq, record.hash⟩
      (.ok ⟨head, handle.verifiedOffset + completeLen lf bytes⟩, file)

/-- What an append does before it builds its record. -/
def refresh (file : Bytes) (handle : Handle) : Except WitnessError Handle × Bytes :=
  if file.length < handle.verifiedOffset then scanHead file
  else if file.length > handle.verifiedOffset then verifySuffix file handle
  else (.ok handle, file)

/-- How the write of a line ends: it is reported, it stops after some bytes, or it is written and
synced and the lock cannot be given back. -/
inductive WriteFate
  | written
  | stopped (bytes : Nat)
  | unlockFailed
  deriving DecidableEq

/-- An append: its reply, the handle and the file after it, and the record whose line is complete in
the file. -/
structure Appended where
  reply : Except WitnessError WitnessRecord
  handle : Handle
  file : Bytes
  written : Option WitnessRecord

def append (file : Bytes) (handle : Handle) (body : WitnessBody) (fate : WriteFate) : Appended :=
  match refresh file handle with
  | (.error error, file) => ⟨.error error, handle, file, none⟩
  | (.ok handle, file) =>
    match buildRecordWithRaw body handle.head with
    | .error error => ⟨.error error, handle, file, none⟩
    | .ok (record, raw) =>
      match canonicalRecordBytes raw with
      | .error error => ⟨.error error, handle, file, none⟩
      | .ok encoded =>
        let line := encoded ++ [lf]
        let advanced : Handle := ⟨⟨record.seq, record.hash⟩, handle.verifiedOffset + line.length⟩
        match fate with
        | .written => ⟨.ok record, advanced, file ++ line, some record⟩
        | .unlockFailed =>
          ⟨.error (.io "cannot unlock"), advanced, file ++ line, some record⟩
        | .stopped bytes => ⟨.error (.io "cannot write"), handle, file ++ line.take bytes,
          if line.length ≤ bytes then some record else none⟩

/-! ## The file and its handles -/

structure System where
  file : Bytes
  handles : List Handle := []
  /-- Ghost: the records whose lines were written in full, and whether the append returned them. -/
  written : List (WitnessRecord × Bool) := []

inductive Act
  | open
  | append (handle : Nat) (body : WitnessBody) (fate : WriteFate)

namespace System

/-- The append through one of the handles. -/
def appended (system : System) (index : Nat) (body : WitnessBody) (fate : WriteFate) :
    Option Appended :=
  (system.handles[index]?).map fun handle => Witness.append system.file handle body fate

def step (system : System) : Act → System
  | .open =>
    match scanHead system.file with
    | (.error _, file) => { system with file }
    | (.ok handle, file) => { system with file, handles := system.handles ++ [handle] }
  | .append index body fate =>
    match system.appended index body fate with
    | none => system
    | some appended =>
      { file := appended.file, handles := system.handles.set index appended.handle
        written := system.written ++
          (appended.written.map fun record => (record, appended.reply.isOk)).toList }

def run (system : System) (acts : List Act) : System := acts.foldl step system

/-- The bytes of the complete lines. -/
def complete (system : System) : Bytes := system.file.take (completeLen lf system.file)

def records (system : System) : List WitnessRecord := (validRecords system.complete).map (·.record)

end System

/-- What makes a record the link that it is. -/
def link (record : WitnessRecord) : Nat × String × String := (record.seq, record.prevHash, record.hash)

/-! ## What a torn file is -/

/-- The bytes of entries in a chain and a torn line. -/
structure Torn (file : Bytes) (entries : List Entry) (torn : Bytes) : Prop where
  bytes : file = ledgerBytes entries ++ torn
  torn : lf ∉ torn
  chained : Chained genesis entries

theorem Torn.complete {file torn : Bytes} {entries : List Entry} (h : Torn file entries torn) :
    file.take (completeLen lf file) = ledgerBytes entries := by
  rw [h.bytes, completeLen_append (terminated_ledgerBytes entries) h.torn, List.take_left]

/-- The head of entries that start at the genesis. -/
def headOf (entries : List Entry) : ChainHead :=
  recordLinks.lastHead genesis (entries.map (·.record))

theorem stripCr_line (entry : Entry) : stripCr entry.line = entry.line := by
  have hcr : '\r' ∉ entry.line := not_mem_render rfl entry.raw
  rw [stripCr, if_neg]
  intro hlast
  exact hcr (List.mem_of_getLast? hlast)

theorem pieces_ledger (entries : List Entry) :
    (pieces '\n' (terminate '\n' (entries.map Entry.line))).map stripCr = entries.map Entry.line := by
  rw [pieces_of_complete (by rw [split_lines]), split_lines, List.map_map]
  exact List.map_congr_left fun entry _ => stripCr_line entry

theorem lastRecordHead_ledgerBytes {entries : List Entry} (h : entries ≠ []) :
    lastRecordHead (ledgerBytes entries) = .ok (headOf entries) := by
  obtain ⟨rest, last, rfl⟩ : ∃ rest last, entries = rest ++ [last] :=
    ⟨_, _, (List.dropLast_append_getLast h).symm⟩
  unfold lastRecordHead
  refine orError_bind_ok_iff.mpr ⟨_, decode_encode _, ?_⟩
  rw [pieces_ledger]
  refine orError_bind_ok_iff.mpr ⟨last.line, ?_, ?_⟩
  · rw [List.map_append, List.reverse_append]
    exact List.find?_cons_of_pos (by simp [last.blank_line])
  refine bind_ok_iff.mpr ⟨last.raw, mapError_eq_ok.mpr last.reads, ?_⟩
  refine bind_ok_iff.mpr ⟨last.record, mapError_eq_ok.mpr last.valid, ?_⟩
  rw [headOf, List.map_append, List.map_singleton, Links.lastHead_concat]
  rfl

/-- A scan that succeeds cuts off the torn line and finds the head; one that fails may cut it off. -/
theorem scanHead_torn {file torn : Bytes} {entries : List Entry} (h : Torn file entries torn) :
    (∃ error torn', scanHead file = (.error error, ledgerBytes entries ++ torn') ∧ lf ∉ torn') ∨
      scanHead file = (.ok ⟨headOf entries, (ledgerBytes entries).length⟩, ledgerBytes entries) := by
  have hok : (verifyReader (ledgerBytes entries)).ok = true :=
    verifyReader_ok_iff.mpr ⟨entries, rfl, h.chained⟩
  unfold scanHead
  split
  · next hempty =>
    have hnil : ledgerBytes entries = [] := by
      have hbytes := h.bytes
      rw [List.isEmpty_iff.mp hempty] at hbytes
      exact (List.append_eq_nil_iff.mp hbytes.symm).1
    obtain rfl : entries = [] := ledgerBytes_inj (by rw [hnil]; rfl)
    rw [List.isEmpty_iff.mp hempty]
    exact .inr rfl
  split
  · exact .inl ⟨_, torn, by rw [h.bytes], h.torn⟩
  · simp only [h.complete, hok, records_ledgerBytes, Bool.true_eq_false, if_false]
    split
    · next hzero =>
      rw [List.eq_nil_of_length_eq_zero hzero]
      exact .inr rfl
    · next hpos =>
      have hne : entries ≠ [] := fun hnil => hpos (by rw [hnil]; rfl)
      rw [lastRecordHead_ledgerBytes hne]
      exact .inr rfl

/-- The state of a handle: it has verified a part of the entries. -/
def Handle.Verified (handle : Handle) (entries : List Entry) : Prop :=
  ∃ part rest, entries = part ++ rest ∧ handle.head = headOf part ∧
    handle.verifiedOffset = (ledgerBytes part).length

theorem headOf_append (a b : List Entry) :
    headOf (a ++ b) = recordLinks.lastHead (headOf a) (b.map (·.record)) := by
  rw [headOf, List.map_append, Links.lastHead_append]
  rfl

theorem verifySuffix_torn {torn : Bytes} {part rest : List Entry} (htorn : lf ∉ torn)
    (hchained : Chained genesis (part ++ rest)) :
    verifySuffix (ledgerBytes (part ++ rest) ++ torn) ⟨headOf part, (ledgerBytes part).length⟩ =
      (.ok ⟨headOf (part ++ rest), (ledgerBytes (part ++ rest)).length⟩,
        ledgerBytes (part ++ rest)) := by
  have hdrop : (ledgerBytes (part ++ rest) ++ torn).drop (ledgerBytes part).length =
      ledgerBytes rest ++ torn := by
    rw [ledgerBytes_append, List.append_assoc, List.drop_left]
  have hlength : (ledgerBytes part).length + (ledgerBytes rest).length =
      (ledgerBytes (part ++ rest)).length := by
    rw [ledgerBytes_append, List.length_append]
  unfold verifySuffix
  dsimp only
  rw [hdrop]
  split
  · next hempty =>
    obtain ⟨hrest, rfl⟩ := List.append_eq_nil_iff.mp (List.isEmpty_iff.mp hempty)
    obtain rfl : rest = [] := ledgerBytes_inj (by rw [hrest]; rfl)
    rw [List.append_nil, List.append_nil]
  · rw [completeLen_append (terminated_ledgerBytes rest) htorn, List.take_left, hlength, List.take_left]
    have hsuffix : verifySuffixBytes (ledgerBytes rest) (headOf part) =
        .ok (rest.map (·.record)) := by
      rw [Chained, List.map_append, Links.chained_append] at hchained
      exact (verifySuffixBytes_eq_ok_iff (terminated_iff.mp (terminated_ledgerBytes rest))).mpr
        ⟨rest, rfl, hchained.2, rfl⟩
    simp only [hsuffix]
    rw [headOf_append, Links.lastHead_eq_getLast?]
    rfl

/-- A handle catches up with the file, whatever has happened since it was used. -/
theorem refresh_torn {file torn : Bytes} {entries : List Entry} {handle : Handle}
    (h : Torn file entries torn) (hhandle : handle.Verified entries) :
    refresh file handle = (.ok ⟨headOf entries, (ledgerBytes entries).length⟩, ledgerBytes entries) := by
  obtain ⟨part, rest, rfl, hhead, hoffset⟩ := hhandle
  obtain ⟨head, verifiedOffset⟩ := handle
  dsimp only at hhead hoffset
  subst hhead hoffset
  have hlength : file.length =
      (ledgerBytes part).length + (ledgerBytes rest).length + torn.length := by
    rw [h.bytes, ledgerBytes_append, List.length_append, List.length_append]
  unfold refresh
  rw [if_neg (by dsimp only; omega)]
  split
  · rw [h.bytes]
    exact verifySuffix_torn h.torn h.chained
  · next hle =>
    dsimp only at hle
    have hrest : rest = [] := ledgerBytes_inj (List.eq_nil_of_length_eq_zero (by omega))
    have htorn : torn = [] := List.eq_nil_of_length_eq_zero (by omega)
    rw [h.bytes, hrest, htorn, List.append_nil, List.append_nil]

/-! ## What an append writes -/

/-- Not composed, and no negative zero, which is read as zero. -/
def isScalar : Value → Bool
  | .array _ | .object _ => false
  | .number n => n.chars != ['-', '0']
  | .null | .bool _ | .string _ => true

/-- The member is read back: its key, and its value if that is a scalar. -/
def ReadBack (written read : String × Value) : Prop :=
  read.1 = written.1 ∧ (isScalar written.2 → read.2 = written.2)

/-- What the program relies on when it reads its own text: the text of an object with distinct keys
is read as an object with the same members. The exception is the mark of a number. -/
def ReadsMembers : Prop :=
  ∀ (fields : Fields) (raw : Value), (fields.map Prod.fst).Nodup →
    fields.head?.map Prod.fst ≠ some numberToken → fromStr (render (.object fields)) = .ok raw →
      ∃ members, raw = .object members ∧ List.Forall₂ ReadBack fields members

omit [Libraries] in
theorem get?_of_readBack {fields members : Fields} (h : List.Forall₂ ReadBack fields members)
    {key : String} {value : Value} (hget : fields.get? key = some value) (hscalar : isScalar value) :
    members.get? key = some value := by
  induction h with
  | nil => cases hget
  | @cons written read _ _ hread _ ih =>
    obtain ⟨k, v⟩ := written
    obtain ⟨k', v'⟩ := read
    obtain ⟨hkey, hvalue⟩ := hread
    dsimp only at hkey hvalue
    subst hkey
    rw [Fields.get?] at hget ⊢
    split at hget
    · next hk =>
      cases hget
      rw [if_pos hk, hvalue hscalar]
    · next hk =>
      rw [if_neg hk]
      exact ih hget

theorem get?_normalizeFields {fields normalized : List (String × Value)}
    (h : normalizeFields fields = .ok normalized) {key : String} {value : Value}
    (hget : Fields.get? fields key = some value)
    (hsame : normalizeWitnessNumbers value = .ok value) :
    Fields.get? normalized key = some value := by
  induction fields generalizing normalized with
  | nil => cases hget
  | cons field fields ih =>
    obtain ⟨k, v⟩ := field
    rw [normalizeFields] at h
    obtain ⟨v', hv, h⟩ := bind_ok_iff.mp h
    obtain ⟨rest, hrest, h⟩ := bind_ok_iff.mp h
    cases h
    rw [Fields.get?] at hget ⊢
    split at hget
    · next hk =>
      cases hget
      rw [hsame] at hv
      cases hv
      rw [if_pos hk]
    · next hk =>
      rw [if_neg hk]
      exact ih hrest hget

/-- Strings and integers of an object are the same in its stable form. -/
theorem get?_stableCanonicalValue (hreads : ReadsMembers) {fields : Fields} {raw : Value}
    (hkeys : (fields.map Prod.fst).Nodup) (hfirst : fields.head?.map Prod.fst ≠ some numberToken)
    (h : stableCanonicalValue (.object fields) = .ok raw) :
    ∃ stable, raw = .object stable ∧ ∀ key value, fields.get? key = some value → isScalar value →
      normalizeWitnessNumbers value = .ok value → Fields.get? stable key = some value := by
  unfold stableCanonicalValue at h
  obtain ⟨parsed, hparsed, h⟩ := bind_ok_iff.mp h
  obtain ⟨normalized, hnormalized, h⟩ := bind_ok_iff.mp h
  obtain ⟨_, -, h⟩ := bind_ok_iff.mp h
  obtain ⟨_, -, h⟩ := bind_ok_iff.mp h
  obtain ⟨-, h⟩ := ensure_bind_ok_iff.mp h
  cases h
  obtain ⟨members, rfl, hback⟩ := hreads fields parsed hkeys hfirst (mapError_eq_ok.mp hparsed)
  have hfields := mapError_eq_ok.mp hnormalized
  rw [normalizeWitnessNumbers] at hfields
  cases hstable : normalizeFields members with
  | error error =>
    rw [hstable] at hfields
    cases hfields
  | ok stable =>
    rw [hstable] at hfields
    cases hfields
    refine ⟨stable, rfl, fun key value hget hscalar hsame => ?_⟩
    exact get?_normalizeFields hstable (get?_of_readBack hback hget hscalar) hsame

omit [Libraries] in
theorem isScalar_natValue (n : Nat) : isScalar (natValue n) = true := by
  rw [natValue, isScalar, bne_iff_ne]
  intro h
  have hhead := head_toDigits_ne_sign n
  rw [show Nat.toDigits 10 n = ['-', '0'] from h] at hhead
  exact hhead rfl

theorem normalize_natValue (n : Nat) : normalizeWitnessNumbers (natValue n) = .ok (natValue n) := by
  have hdigits : ∀ c ∈ (Number.ofNat n).chars, ¬ (c = '.' ∨ c = 'e' ∨ c = 'E') := by
    intro c hc hmark
    have hdigit := Nat.isDigit_of_mem_toDigits (by decide) le_rfl hc
    rcases hmark with rfl | rfl | rfl <;> exact absurd hdigit (by decide)
  have hf64 : isF64 (.ofNat n) = false := by
    rw [isF64, Bool.and_eq_false_iff]
    refine .inl (List.any_eq_false.mpr fun c hc => ?_)
    have hmark := hdigits c hc
    simp only [Bool.or_eq_true, beq_iff_eq, or_assoc]
    exact hmark
  rw [natValue, normalizeWitnessNumbers, hf64, if_neg (by decide)]

/-- The record of a body whose collections are canonical. -/
def recordOf (body : WitnessBody) (head : ChainHead) (hash : String) : WitnessRecord :=
  { body with
    schemaVersion := witnessSchemaVersion, authorship := none, authorshipSessions := none
    extensions := [], seq := head.seq + 1, prevHash := head.hash, hash }

theorem buildRecordWithRaw_of_canonical {body : WitnessBody} {head : ChainHead}
    {initial fields : Fields}
    {hash : String} {record : WitnessRecord} {encoded : Bytes}
    (hpools : Poolset.canonicalize body.pools = .ok body.pools) (hstore : body.storePaths = none)
    (hdrv : body.drv = none)
    (hinitial : (recordOf body head "").toFields = initial)
    (hstable : stableCanonicalValue (.object initial) = .ok (.object fields))
    (hhash : computeHashValue (.object fields) = .ok hash)
    (hvalid : validateRecord (.object (fields.insert "hash" (.string hash))) = .ok record)
    (hbytes : canonicalRecordBytes (.object (fields.insert "hash" (.string hash))) = .ok encoded) :
    buildRecordWithRaw body head =
      .ok (recordOf body head hash, .object (fields.insert "hash" (.string hash))) := by
  unfold buildRecordWithRaw
  refine bind_ok_iff.mpr ⟨body.pools, mapError_eq_ok.mpr hpools, ?_⟩
  refine bind_ok_iff.mpr ⟨body.storePaths, by rw [hstore]; rfl, ?_⟩
  refine bind_ok_iff.mpr ⟨body.drv, by rw [hdrv]; rfl, ?_⟩
  refine bind_ok_iff.mpr ⟨.object fields, hinitial ▸ hstable, ?_⟩
  refine bind_ok_iff.mpr ⟨hash, hhash, ?_⟩
  refine orError_bind_ok_iff.mpr ⟨fields, rfl, ?_⟩
  refine bind_ok_iff.mpr ⟨record, mapError_eq_ok.mpr hvalid, ?_⟩
  refine bind_ok_iff.mpr ⟨encoded, hbytes, ?_⟩
  rfl

/-! ### The fields of a built record -/

omit [Libraries] in
theorem keys_present_sublist (members : List (String × Option Value)) :
    ((present members).map Prod.fst).Sublist (members.map Prod.fst) := by
  induction members with
  | nil => exact .slnil
  | cons member rest ih =>
    obtain ⟨key, value⟩ := member
    cases value with
    | none => exact ih.cons _
    | some value => exact ih.cons_cons _

/-- The keys of a record without extensions stand in the canonical order, those of the chain last. -/
theorem keys_content_sublist {content : RecordContent} (h : content.extensions = []) :
    (content.toFields.map Prod.fst).Sublist (canonicalFields.take 32) := by
  rw [RecordContent.toFields, h, List.append_nil]
  exact keys_present_sublist _

theorem keys_toFields_nodup {record : WitnessRecord} (h : record.extensions = []) :
    (record.toFields.map Prod.fst).Nodup := by
  have hsublist : (record.toFields.map Prod.fst).Sublist canonicalFields := by
    rw [WitnessRecord.toFields, List.map_append]
    exact (keys_content_sublist h).append (List.Sublist.refl _)
  exact hsublist.nodup (by decide)

theorem get?_toFields {record : WitnessRecord} (h : record.extensions = []) {key : String}
    (hkey : key ∉ canonicalFields.take 32) :
    record.toFields.get? key = Fields.get? [("seq", natValue record.seq),
      ("prevHash", .string record.prevHash), ("hash", .string record.hash)] key :=
  Fields.get?_append_of_not_mem fun hmem => hkey ((keys_content_sublist h).subset hmem)

theorem head?_toFields (record : WitnessRecord) :
    record.toFields.head?.map Prod.fst ≠ some numberToken := by
  intro h
  have hschema : some "schemaVersion" = some numberToken := h
  exact absurd hschema (by decide)

/-- A record that is built, written and read again is an entry that follows the head. -/
theorem exists_entry_of_build (hreads : ReadsMembers) {body : WitnessBody} {head : ChainHead}
    {record : WitnessRecord} {raw : Value} {encoded : Bytes}
    (hbuild : buildRecordWithRaw body head = .ok (record, raw))
    (hbytes : canonicalRecordBytes raw = .ok encoded) :
    ∃ entry : Entry, encoded = encode entry.line ∧ link entry.record = link record ∧
      recordLinks.Follows head entry.record := by
  unfold buildRecordWithRaw at hbuild
  obtain ⟨pools, -, hbuild⟩ := bind_ok_iff.mp hbuild
  obtain ⟨storePaths, -, hbuild⟩ := bind_ok_iff.mp hbuild
  obtain ⟨drv, -, hbuild⟩ := bind_ok_iff.mp hbuild
  obtain ⟨stable, hstable, hbuild⟩ := bind_ok_iff.mp hbuild
  obtain ⟨hash, hhash, hbuild⟩ := bind_ok_iff.mp hbuild
  obtain ⟨fields, hfields, hbuild⟩ := bind_ok_iff.mp hbuild
  obtain ⟨validated, hvalid, hbuild⟩ := bind_ok_iff.mp hbuild
  obtain ⟨_, -, hbuild⟩ := bind_ok_iff.mp hbuild
  cases hbuild
  rw [mapError_eq_ok] at hvalid
  obtain ⟨members, rfl, hmembers⟩ := get?_stableCanonicalValue hreads (keys_toFields_nodup rfl)
    (head?_toFields _) hstable
  obtain rfl : members = fields := Option.some.inj (orError_eq_ok.mp hfields)
  obtain ⟨_, hraw, hchain⟩ := validateRecord_fields hvalid
  cases hraw
  -- what stands in the line
  have hseq : validated.seq = head.seq + 1 := by
    obtain ⟨number, hget, hvalue⟩ := hchain.seq
    rw [Fields.get?_insert_of_ne (by decide), hmembers "seq" (natValue (head.seq + 1))
      (get?_toFields rfl (by decide)) (isScalar_natValue _) (normalize_natValue _)] at hget
    cases hget
    rw [Number.asU64_ofNat] at hvalue
    split at hvalue
    · exact (Option.some.inj hvalue).symm
    · cases hvalue
  have hprev : validated.prevHash = head.hash := by
    have hget := hchain.prevHash
    rw [Fields.get?_insert_of_ne (by decide), hmembers "prevHash" (.string head.hash)
      (get?_toFields rfl (by decide)) rfl (by rw [normalizeWitnessNumbers])] at hget
    exact (Value.string.inj (Option.some.inj hget)).symm
  have hstored : validated.hash = hash := by
    have hget := hchain.hash
    rw [Fields.get?_insert_self] at hget
    exact (Value.string.inj (Option.some.inj hget)).symm
  unfold canonicalRecordBytes at hbytes
  obtain ⟨normalized, hnormalized, hbytes⟩ := bind_ok_iff.mp hbytes
  obtain ⟨hcanonical, hbytes⟩ := ensure_bind_ok_iff.mp hbytes
  cases hbytes
  rw [render_inj.mp hcanonical] at hnormalized
  rw [computeHashValue_object] at hhash
  have hrecomputed : computeHashValue (.object (Fields.insert members "hash" (.string hash))) =
      .ok validated.hash := by
    rw [computeHashValue_object, Fields.get?_insert_self, hashInput, Fields.insert_insert, hstored]
    exact ⟨rfl, hhash.2⟩
  refine ⟨⟨_, validated, mapError_eq_ok.mp hnormalized, hvalid, hrecomputed⟩, rfl, ?_, hseq, hprev⟩
  rw [link, link, hseq, hprev, hstored]

/-! ## Appends -/

theorem headOf_concat (entries : List Entry) (entry : Entry) :
    headOf (entries ++ [entry]) = ⟨entry.record.seq, entry.record.hash⟩ := by
  rw [headOf, List.map_append, List.map_singleton, Links.lastHead_concat]
  rfl

theorem Handle.verified_self (entries : List Entry) :
    Handle.Verified ⟨headOf entries, (ledgerBytes entries).length⟩ entries :=
  ⟨entries, [], (List.append_nil _).symm, rfl, rfl⟩

theorem Handle.Verified.append {handle : Handle} {entries : List Entry} (h : handle.Verified entries)
    (more : List Entry) : handle.Verified (entries ++ more) := by
  obtain ⟨part, rest, rfl, hhead, hoffset⟩ := h
  exact ⟨part, rest ++ more, List.append_assoc _ _ _, hhead, hoffset⟩

theorem ledgerBytes_singleton (entry : Entry) : ledgerBytes [entry] = encode entry.line ++ [lf] := by
  rw [ledgerBytes, encode_terminate]
  simp

/-- A line of which not everything is written has no line feed. -/
theorem lf_not_mem_take (entry : Entry) {n : Nat} (h : n < (encode entry.line ++ [lf]).length) :
    lf ∉ (encode entry.line ++ [lf]).take n := by
  rw [List.length_append, List.length_singleton] at h
  rw [List.take_append_of_le_length (by omega)]
  intro hmem
  exact lf_not_mem_encode (newline_not_mem_render entry.raw) (List.mem_of_mem_take hmem)

/-- What an append leaves behind: the entries, with the one that it has written in full. -/
structure Extends (appended : Appended) (entries new : List Entry) (torn : Bytes) : Prop where
  torn : Torn appended.file (entries ++ new) torn
  handle : appended.handle.Verified (entries ++ new)
  written : new.map (link ·.record) = appended.written.toList.map link
  reply : ∀ record, appended.reply = .ok record → appended.written = some record

theorem append_torn (hreads : ReadsMembers) {file torn : Bytes} {entries : List Entry}
    {handle : Handle} (h : Torn file entries torn) (hhandle : handle.Verified entries)
    (body : WitnessBody) (fate : WriteFate) :
    ∃ new torn', Extends (append file handle body fate) entries new torn' := by
  have hbefore : Torn (ledgerBytes entries) entries [] :=
    ⟨(List.append_nil _).symm, List.not_mem_nil, h.chained⟩
  have hself := Handle.verified_self entries
  have hnothing : ∀ error, Extends ⟨.error error, ⟨headOf entries, (ledgerBytes entries).length⟩,
      ledgerBytes entries, none⟩ entries [] [] := by
    intro error
    rw [← List.append_nil entries] at hbefore hself
    exact ⟨by simpa using hbefore, by simpa using hself, rfl, fun record hreply => by cases hreply⟩
  unfold append
  rw [refresh_torn h hhandle]
  dsimp only
  cases hbuild : buildRecordWithRaw body (headOf entries) with
  | error error => exact ⟨[], [], hnothing error⟩
  | ok built =>
    obtain ⟨record, raw⟩ := built
    dsimp only
    cases hencoded : canonicalRecordBytes raw with
    | error error => exact ⟨[], [], hnothing error⟩
    | ok encoded =>
      obtain ⟨entry, rfl, hlink, hfollows⟩ := exists_entry_of_build hreads hbuild hencoded
      have hchained : Chained genesis (entries ++ [entry]) := by
        rw [Chained, List.map_append, List.map_singleton, Links.chained_concat]
        exact ⟨h.chained, hfollows⟩
      have hline : ledgerBytes (entries ++ [entry]) =
          ledgerBytes entries ++ (encode entry.line ++ [lf]) := by
        rw [ledgerBytes_append, ledgerBytes_singleton]
      have hafter : Torn (ledgerBytes entries ++ (encode entry.line ++ [lf]))
          (entries ++ [entry]) [] :=
        ⟨by rw [hline, List.append_nil], List.not_mem_nil, hchained⟩
      have hadvanced : Handle.Verified ⟨⟨record.seq, record.hash⟩,
          (ledgerBytes entries).length + (encode entry.line ++ [lf]).length⟩
          (entries ++ [entry]) := by
        refine ⟨entries ++ [entry], [], (List.append_nil _).symm, ?_, ?_⟩
        · rw [headOf_concat]
          simp only [link, Prod.mk.injEq] at hlink
          rw [hlink.1, hlink.2.2]
        · rw [hline, ← List.length_append]
      have hwritten : [entry].map (link ·.record) = [record].map link := by
        rw [List.map_singleton, List.map_singleton, hlink]
      cases fate with
      | written => exact ⟨[entry], [], hafter, hadvanced, hwritten, fun _ h => congrArg _ (Except.ok.inj h)⟩
      | unlockFailed => exact ⟨[entry], [], hafter, hadvanced, hwritten, fun _ h => by cases h⟩
      | stopped n =>
        dsimp only
        by_cases hn : (encode entry.line ++ [lf]).length ≤ n
        · rw [if_pos hn, List.take_of_length_le hn]
          exact ⟨[entry], [], hafter, hself.append [entry], hwritten, fun _ h => by cases h⟩
        · rw [if_neg hn]
          refine ⟨[], (encode entry.line ++ [lf]).take n, ⟨?_, lf_not_mem_take entry (by omega), ?_⟩, ?_,
            rfl, fun _ h => by cases h⟩
          · rw [List.append_nil]
          · rw [List.append_nil]
            exact h.chained
          · exact hself.append []

theorem reply_append_written {file file' : Bytes} {handle handle' : Handle} {body : WitnessBody}
    {record : WitnessRecord} {raw : Value} {encoded : Bytes}
    (hrefresh : refresh file handle = (.ok handle', file'))
    (hbuild : buildRecordWithRaw body handle'.head = .ok (record, raw))
    (hbytes : canonicalRecordBytes raw = .ok encoded) :
    (append file handle body .written).reply = .ok record := by
  unfold append
  rw [hrefresh]
  dsimp only
  rw [hbuild]
  dsimp only
  rw [hbytes]

theorem append_stopped {file file' : Bytes} {handle handle' : Handle} {body : WitnessBody}
    {record : WitnessRecord} {raw : Value} {encoded : Bytes} {bytes : Nat}
    (hrefresh : refresh file handle = (.ok handle', file'))
    (hbuild : buildRecordWithRaw body handle'.head = .ok (record, raw))
    (hbytes : canonicalRecordBytes raw = .ok encoded) (hlt : bytes < (encoded ++ [lf]).length) :
    append file handle body (.stopped bytes) =
      ⟨.error (.io "cannot write"), handle', file' ++ (encoded ++ [lf]).take bytes, none⟩ := by
  unfold append
  rw [hrefresh]
  dsimp only
  rw [hbuild]
  dsimp only
  rw [hbytes]
  dsimp only
  rw [if_neg (Nat.not_le_of_lt hlt)]

/-! ## Runs -/

namespace System

/-- The entries of the file, each verified by every handle or still before it. -/
structure Sound (system : System) (entries : List Entry) (torn : Bytes) : Prop where
  torn : Torn system.file entries torn
  handles : ∀ handle ∈ system.handles, handle.Verified entries

/-- Nothing is added to the entries. -/
theorem Sound.refl {system : System} {entries : List Entry} {torn : Bytes}
    (h : system.Sound entries torn) : system.Sound (entries ++ []) torn := by
  rw [List.append_nil]
  exact h

theorem Sound.open {system : System} {entries : List Entry} {torn : Bytes}
    (h : system.Sound entries torn) :
    (system.step .open).written = system.written ∧ ∃ torn', (system.step .open).Sound entries torn' := by
  unfold System.step
  rcases scanHead_torn h.torn with ⟨error, torn', hscan, htorn⟩ | hscan
  · rw [hscan]
    exact ⟨rfl, torn', ⟨rfl, htorn, h.torn.chained⟩, h.handles⟩
  · rw [hscan]
    refine ⟨rfl, [], ⟨(List.append_nil _).symm, List.not_mem_nil, h.torn.chained⟩, ?_⟩
    intro handle hmem
    rcases List.mem_append.mp hmem with hmem | hmem
    · exact h.handles handle hmem
    · rw [List.mem_singleton.mp hmem]
      exact Handle.verified_self entries

theorem Sound.append (hreads : ReadsMembers) {system : System} {entries : List Entry} {torn : Bytes}
    (h : system.Sound entries torn) {index : Nat} {body : WitnessBody} {fate : WriteFate}
    {appended : Appended} (happended : system.appended index body fate = some appended) :
    ∃ new torn', Extends appended entries new torn' ∧
      (system.step (.append index body fate)).Sound (entries ++ new) torn' := by
  obtain ⟨handle, hindex, rfl⟩ := Option.map_eq_some_iff.mp happended
  obtain ⟨new, torn', hextends⟩ :=
    append_torn hreads h.torn (h.handles handle (List.mem_of_getElem? hindex)) body fate
  rw [System.step, happended]
  refine ⟨new, torn', hextends, hextends.torn, ?_⟩
  intro other hother
  rcases List.mem_or_eq_of_mem_set hother with hmem | rfl
  · exact (h.handles other hmem).append new
  · exact hextends.handle

theorem written_append {system : System} {index : Nat} {body : WitnessBody} {fate : WriteFate}
    {appended : Appended} (h : system.appended index body fate = some appended) :
    (system.step (.append index body fate)).written = system.written ++
      (appended.written.map fun record => (record, appended.reply.isOk)).toList := by
  rw [System.step, h]

/-- A step adds the entries of the lines that it writes in full. -/
theorem Sound.step (hreads : ReadsMembers) {system : System} {entries : List Entry} {torn : Bytes}
    (h : system.Sound entries torn) (act : Act) :
    ∃ new torn' written, (system.step act).Sound (entries ++ new) torn' ∧
      (system.step act).written = system.written ++ written ∧
      new.map (link ·.record) = written.map (link ·.1) := by
  cases act with
  | «open» =>
    obtain ⟨hwritten, torn', hsound⟩ := h.open
    exact ⟨[], torn', [], hsound.refl, by rw [hwritten, List.append_nil], rfl⟩
  | append index body fate =>
    cases happended : system.appended index body fate with
    | none =>
      have hstep : system.step (.append index body fate) = system := by
        rw [System.step, happended]
      rw [hstep]
      exact ⟨[], torn, [], h.refl, (List.append_nil _).symm, rfl⟩
    | some appended =>
      obtain ⟨new, torn', hextends, hsound⟩ := h.append hreads happended
      refine ⟨new, torn', _, hsound, written_append happended, ?_⟩
      rw [hextends.written]
      cases appended.written <;> rfl

theorem Sound.run (hreads : ReadsMembers) {system : System} {entries : List Entry} {torn : Bytes}
    (h : system.Sound entries torn) (acts : List Act) :
    ∃ new torn' written, (system.run acts).Sound (entries ++ new) torn' ∧
      (system.run acts).written = system.written ++ written ∧
      new.map (link ·.record) = written.map (link ·.1) := by
  induction acts generalizing system entries torn with
  | nil => exact ⟨[], torn, [], h.refl, (List.append_nil _).symm, rfl⟩
  | cons act acts ih =>
    obtain ⟨new, torn', written, hstep, hwritten, hlinks⟩ := h.step hreads act
    obtain ⟨new', torn'', written', hrun, hwritten', hlinks'⟩ := ih hstep
    refine ⟨new ++ new', torn'', written ++ written', ?_, ?_, ?_⟩
    · rw [← List.append_assoc]
      exact hrun
    · rw [← List.append_assoc, ← hwritten]
      exact hwritten'
    · rw [List.map_append, List.map_append, hlinks, hlinks']

theorem Sound.complete {system : System} {entries : List Entry} {torn : Bytes}
    (h : system.Sound entries torn) : system.complete = ledgerBytes entries :=
  h.torn.complete

theorem Sound.records {system : System} {entries : List Entry} {torn : Bytes}
    (h : system.Sound entries torn) : system.records = entries.map (·.record) := by
  rw [System.records, h.complete, validRecords_ledgerBytes]

/-- A file whose complete lines verify is a sound start. -/
theorem exists_sound {file : Bytes}
    (h : (verifyReader (file.take (completeLen lf file))).ok = true) :
    ∃ entries torn, ({ file } : System).Sound entries torn := by
  obtain ⟨entries, hbytes, hchained⟩ := verifyReader_ok_iff.mp h
  refine ⟨entries, (split lf file).2, ⟨?_, (not_mem_split lf file).2, hchained⟩, fun _ hmem => by cases hmem⟩
  rw [← hbytes, take_completeLen]
  exact (terminate_split lf file).symm

end System

/-- Whatever the handles do, and wherever a write stops, the complete lines of the file verify, hold
the records written in full and no others in their order, and are only ever added to. An append that
succeeds adds its record. -/
theorem ledger_crash_safe (hreads : ReadsMembers) {file : Bytes}
    (hfile : (verifyReader (file.take (completeLen lf file))).ok = true) (acts : List Act) :
    let start : System := { file }
    let now := start.run acts
    (verifyReader now.complete).ok = true ∧
      now.records.map (·.seq) = List.range' 1 now.records.length ∧
      now.records.map link = start.records.map link ++ now.written.map (link ·.1) ∧
      (∀ later, now.complete <+: (now.run later).complete ∧ now.records <+: (now.run later).records) ∧
      ∀ index body fate record,
        (now.appended index body fate).map (·.reply) = some (.ok record) →
          (now.step (.append index body fate)).written = now.written ++ [(record, true)] ∧
          ∃ stored, link stored = link record ∧
            (now.step (.append index body fate)).records = now.records ++ [stored] := by
  intro start now
  obtain ⟨entries, torn, hstart⟩ := System.exists_sound hfile
  obtain ⟨new, torn', written, hnow, hwritten, hlinks⟩ := hstart.run hreads acts
  refine ⟨?_, ?_, ?_, fun later => ?_, fun index body fate record hreply => ?_⟩
  · rw [hnow.complete]
    exact verifyReader_ok_iff.mpr ⟨_, rfl, hnow.torn.chained⟩
  · rw [hnow.records, List.length_map]
    exact (Links.Chained.map_seq hnow.torn.chained).trans (by rw [List.length_map]; rfl)
  · rw [hnow.records, hstart.records, hwritten, List.nil_append, ← hlinks]
    simp [List.map_map]
  · obtain ⟨new', torn'', _, hlater, -, -⟩ := hnow.run hreads later
    rw [hnow.complete, hlater.complete, hnow.records, hlater.records]
    constructor
    · rw [ledgerBytes_append _ new']
      exact List.prefix_append _ _
    · exact (List.prefix_append _ new').map _
  · obtain ⟨appended, happended, hreply⟩ := Option.map_eq_some_iff.mp hreply
    obtain ⟨added, torn'', hextends, hstep⟩ := hnow.append hreads happended
    have hrecord := hextends.reply record hreply
    rw [System.written_append happended, hrecord, hreply]
    refine ⟨rfl, ?_⟩
    have hlink := hextends.written
    rw [hrecord] at hlink
    obtain ⟨entry, rfl⟩ : ∃ entry, added = [entry] := by
      refine List.length_eq_one_iff.mp ?_
      have hlength := congrArg List.length hlink
      rwa [List.length_map] at hlength
    refine ⟨entry.record, List.singleton_inj.mp hlink, ?_⟩
    rw [hstep.records, hnow.records, List.map_append, List.map_singleton]

end Tally.Witness

namespace Tally.Witness.Sample

open Tally.Lib

theorem readsMembers : ReadsMembers := by
  intro fields raw _ _ hraw
  obtain ⟨htext, -⟩ := readCompact_eq_some_iff.mp (orError_eq_ok.mp hraw)
  refine ⟨fields, (render_inj.mp htext).symm, ?_⟩
  exact List.forall₂_same.mpr fun field _ => ⟨rfl, fun _ => rfl⟩

theorem json_fromStr {value : Value} (h : depth value ≤ 127) :
    json (fromStr (render value)) = .ok value :=
  mapError_eq_ok.mpr (orError_eq_ok.mpr (readCompact_eq_some_iff.mpr ⟨rfl, h⟩))

theorem stable {value : Value} (hdepth : depth value ≤ 127)
    (hnumbers : normalizeWitnessNumbers value = .ok value) : stableCanonicalValue value = .ok value := by
  unfold stableCanonicalValue
  have hread := json_fromStr hdepth
  have hnormal : json (normalizeWitnessNumbers value) = .ok value := mapError_eq_ok.mpr hnumbers
  refine bind_ok_iff.mpr ⟨value, hread, bind_ok_iff.mpr ⟨value, hnormal, ?_⟩⟩
  refine bind_ok_iff.mpr ⟨value, hread, bind_ok_iff.mpr ⟨value, hnormal, ?_⟩⟩
  exact ensure_bind_ok_iff.mpr ⟨rfl, rfl⟩

theorem canonicalRecordBytes_raw {value : Value} (h : depth value ≤ 127) :
    canonicalRecordBytes value = .ok (encode (render value)) :=
  bind_ok_iff.mpr ⟨value, json_fromStr h, ensure_bind_ok_iff.mpr ⟨rfl, rfl⟩⟩

/-- The fields of the first record before it is hashed. -/
def fields1 : Fields :=
  contentFields ++ [("seq", natValue 1), ("prevHash", .string genesisPrevHash), ("hash", .string "")]

def hashed1 : Fields := fields1.insert "hash" (.string record1.hash)

theorem build_first : buildRecordWithRaw content.toWitnessBody genesis =
    .ok (recordOf content.toWitnessBody genesis record1.hash, .object hashed1) := by
  have hfields : (recordOf content.toWitnessBody genesis "").toFields = fields1 := by decide +kernel
  have hstable : stableCanonicalValue (.object fields1) = .ok (.object fields1) :=
    stable (by decide +kernel) (by decide +kernel)
  have hvalid : validateRecord (.object hashed1) = .ok record1 := entry1.valid
  have hbytes : canonicalRecordBytes (.object hashed1) = .ok (encode (render (.object hashed1))) :=
    canonicalRecordBytes_raw (by decide +kernel)
  have hhash : computeHashValue (.object fields1) = .ok record1.hash := by decide +kernel
  exact buildRecordWithRaw_of_canonical (by decide) rfl rfl hfields hstable hhash hvalid hbytes

/-- The line of the first record. -/
def line1 : Bytes := encode (render (.object hashed1)) ++ [lf]

theorem bytes_first :
    canonicalRecordBytes (.object hashed1) = .ok (encode (render (.object hashed1))) :=
  canonicalRecordBytes_raw (by decide +kernel)

theorem torn_first : 3 < line1.length ∧ lf ∉ line1.take 3 := by decide +kernel

/-- Two handles are opened, and a write of the first one stops inside its line. -/
def tornActs : List Act := [.open, .open, .append 0 content.toWitnessBody (.stopped 3)]

theorem run_tornActs : ({ file := [] } : System).run tornActs =
    { file := line1.take 3, handles := [⟨genesis, 0⟩, ⟨genesis, 0⟩] } := by
  have hopened : ({ file := [] } : System).run [.open, .open] =
      { file := [], handles := [⟨genesis, 0⟩, ⟨genesis, 0⟩] } := rfl
  have hstopped : append [] ⟨genesis, 0⟩ content.toWitnessBody (.stopped 3) =
      ⟨.error (.io "cannot write"), ⟨genesis, 0⟩, line1.take 3, none⟩ := by
    have hrefresh : refresh [] ⟨genesis, 0⟩ = (.ok ⟨genesis, 0⟩, []) := rfl
    rw [append_stopped hrefresh build_first bytes_first torn_first.1, List.nil_append, ← line1]
  have hrun : ({ file := [] } : System).run tornActs = (({ file := [] } : System).run
      [.open, .open]).step (.append 0 content.toWitnessBody (.stopped 3)) := rfl
  rw [hrun, hopened, System.step, System.appended, List.getElem?_cons_zero, Option.map_some, hstopped]
  rfl

/-- The other handle cuts off what the first one has left, and appends the first record. -/
theorem ledger_crash_safe_torn :
    let now := ({ file := [] } : System).run tornActs
    now.file ≠ [] ∧
      (now.appended 1 content.toWitnessBody .written).map (·.reply) =
        some (.ok (recordOf content.toWitnessBody genesis record1.hash)) ∧
      ∃ stored, link stored = (1, genesisPrevHash, record1.hash) ∧
        (now.step (.append 1 content.toWitnessBody .written)).records = now.records ++ [stored] := by
  intro now
  have hnow : now = { file := line1.take 3, handles := [⟨genesis, 0⟩, ⟨genesis, 0⟩] } := run_tornActs
  have hempty : (verifyReader (([] : Bytes).take (completeLen lf []))).ok = true := by decide +kernel
  have htorn : Torn (line1.take 3) [] (line1.take 3) := ⟨rfl, torn_first.2, trivial⟩
  have hrefresh : refresh (line1.take 3) ⟨genesis, 0⟩ = (.ok ⟨genesis, 0⟩, []) :=
    refresh_torn htorn ⟨[], [], rfl, rfl, rfl⟩
  have happended : (now.appended 1 content.toWitnessBody .written).map (·.reply) =
      some (.ok (recordOf content.toWitnessBody genesis record1.hash)) := by
    rw [hnow, System.appended, List.getElem?_cons_succ, List.getElem?_cons_zero, Option.map_some,
      Option.map_some, reply_append_written hrefresh build_first bytes_first]
  refine ⟨?_, happended, ((ledger_crash_safe readsMembers hempty tornActs).2.2.2.2 1 _ _ _ happended).2⟩
  rw [hnow]
  intro hnil
  have hlength := congrArg List.length hnil
  rw [List.length_take, Nat.min_eq_left (Nat.le_of_lt torn_first.1)] at hlength
  cases hlength

end Tally.Witness.Sample
