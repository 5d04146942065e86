import Tally.Witness.Ledger
import Mathlib.Data.List.DropRight

/-!
# The attestation chain and its cache

Attestations are advisory records in a chain of their own. A long-lived handle keeps the records that
it has verified and reads only the bytes behind them; a fresh handle reads the whole file. Both repair
a tail without its line feed first: a tail that is JSON gains the line feed, another one is cut off.
The two ways agree (`cache_equals_cold_read`) as long as every record that is written in full is read
back as it was written.
-/

namespace Tally.Witness

open Tally.Lib

structure AttestationRecord where
  observedAt : String
  payload : Value
  seq : Nat
  prevHash : String
  hash : String
  deriving DecidableEq

namespace AttestationRecord

def toValue (record : AttestationRecord) : Value :=
  .object [("observed_at", .string record.observedAt), ("payload", record.payload),
    ("seq", natValue record.seq), ("prev_hash", .string record.prevHash),
    ("hash", .string record.hash)]

def decodeText : Value → Except String String
  | .string text => .ok text
  | _ => .error "invalid type: expected a string"

def decodeSeq (value : Value) : Except String Nat :=
  orError (asU64 value) "invalid type: expected u64"

def required (fields : Fields) (key : String) : Except String Value :=
  orError (fields.get? key) ("missing field `" ++ key ++ "`")

/-- The derived decoder: the fields by name, or all of them in their order. -/
def fromValue [Libraries] : Value → Except String AttestationRecord
  | .object fields => do
    let observedAt ← decodeText (← required fields "observed_at")
    let payload ← decodeValue (← required fields "payload")
    let seq ← decodeSeq (← required fields "seq")
    let prevHash ← decodeText (← required fields "prev_hash")
    let hash ← decodeText (← required fields "hash")
    return { observedAt, payload, seq, prevHash, hash }
  | .array [observedAt, payload, seq, prevHash, hash] => do
    let observedAt ← decodeText observedAt
    let payload ← decodeValue payload
    let seq ← decodeSeq seq
    let prevHash ← decodeText prevHash
    let hash ← decodeText hash
    return { observedAt, payload, seq, prevHash, hash }
  | _ => .error "invalid type: expected struct AttestationRecord"

def head (record : AttestationRecord) : ChainHead := ⟨record.seq, record.hash⟩

end AttestationRecord

/-- The head after the records. -/
def lastHead (head : ChainHead) (records : List AttestationRecord) : ChainHead :=
  records.getLast?.elim head AttestationRecord.head

/-- The next sequence number, as a `u64`. -/
def nextSeq (head : ChainHead) : Nat := (head.seq + 1) % (u64Max + 1)

variable [Libraries]

/-! ## Reading -/

def checkAttestation (head : ChainHead) (line : List Char) :
    Except WitnessError AttestationRecord := do
  let raw ← json (fromStr line)
  let record ← json (AttestationRecord.fromValue raw)
  let broken := WitnessError.corrupt ("attestation chain breaks at seq " ++ record.seq.repr)
  ensure (record.seq = nextSeq head ∧ record.prevHash = head.hash) broken
  let hash ← computeHashValue raw
  ensure (hash = record.hash) broken
  return record

/-- The records of the lines, blank ones left out. -/
def checkLines (head : ChainHead) : List (List Char) → Except WitnessError (List AttestationRecord)
  | [] => .ok []
  | line :: rest =>
    if blank line then checkLines head rest
    else do
      let record ← checkAttestation head line
      let records ← checkLines record.head rest
      return record :: records

/-- `BufRead::lines` of a line: it loses its line feed and a carriage return before that. -/
def chomp (text : List Char) : List Char :=
  if text.getLast? = some '\n' then stripCr text.dropLast else text

/-- The lines of a file, each decoded on its own. -/
def checkChunks (head : ChainHead) : List Bytes → Except WitnessError (List AttestationRecord)
  | [] => .ok []
  | chunk :: rest =>
    match decode chunk with
    | none => .error (.io "stream did not contain valid UTF-8")
    | some text =>
      if blank (chomp text) then checkChunks head rest
      else do
        let record ← checkAttestation head (chomp text)
        let records ← checkChunks record.head rest
        return record :: records

def readAttestationChain (file : Bytes) : Except WitnessError (List AttestationRecord) :=
  checkChunks genesis (readLines file)

def scanAttestationHead (file : Bytes) : Except WitnessError ChainHead :=
  (readAttestationChain file).map (lastHead genesis)

/-- `serde_json::from_slice::<Value>(..).is_ok()`. -/
def parses (bytes : Bytes) : Bool :=
  match decode bytes with
  | none => false
  | some text => (fromStr text).isOk

/-- The result, and the file after it. -/
def truncateIncompleteAttestationTail (file : Bytes) : Except WitnessError Unit × Bytes :=
  if file = [] ∨ file.getLast? = some lf then (.ok (), file)
  else
    let complete := completeLen lf file
    if parses (file.drop complete) then
      match scanAttestationHead file with
      | .error error => (.error error, file)
      | .ok _ => (.ok (), file ++ [lf])
    else (.ok (), file.take complete)

namespace AttestationLedger

structure Handle where
  records : List AttestationRecord
  verifiedOffset : Nat
  deriving DecidableEq

def Handle.head (handle : Handle) : ChainHead := lastHead genesis handle.records

/-- The result, and the file after it. -/
def «open» (file : Bytes) : Except WitnessError Handle × Bytes :=
  match truncateIncompleteAttestationTail file with
  | (.error error, file) => (.error error, file)
  | (.ok _, file) =>
    match readAttestationChain file with
    | .error error => (.error error, file)
    | .ok records => (.ok ⟨records, file.length⟩, file)

/-- The bytes behind the offset, repaired, and the file with them. -/
def repairSuffix (file : Bytes) (offset : Nat) : Bytes × Bytes :=
  let bytes := file.drop offset
  if bytes.getLast? ≠ some lf then
    let complete := completeLen lf bytes
    if parses (bytes.drop complete) then (bytes ++ [lf], file ++ [lf])
    else (bytes.take complete, file.take (offset + complete))
  else (bytes, file)

def refreshLocked (file : Bytes) (handle : Handle) : Except WitnessError Handle × Bytes :=
  if file.length = handle.verifiedOffset then (.ok handle, file)
  else if file.length < handle.verifiedOffset then AttestationLedger.open file
  else
    let (bytes, file) := repairSuffix file handle.verifiedOffset
    match decode bytes with
    | none => (.error (.corrupt "attestation suffix is not UTF-8"), file)
    | some text =>
      match checkLines handle.head (pieces '\n' text) with
      | .error error => (.error error, file)
      | .ok appended =>
        (.ok ⟨handle.records ++ appended, handle.verifiedOffset + bytes.length⟩, file)

/-- `records`: the records or an error, and the file after it. -/
def records (file : Bytes) (handle : Handle) :
    Except WitnessError (List AttestationRecord) × Bytes :=
  let (result, file) := refreshLocked file handle
  (result.map (·.records), file)

end AttestationLedger

/-! ## Writing -/

/-- The record that is written next. -/
def attest (head : ChainHead) (payload : Value) (observedAt : String) :
    Except WitnessError AttestationRecord := do
  let record : AttestationRecord :=
    { observedAt, payload, seq := nextSeq head, prevHash := head.hash, hash := "" }
  let hash ← computeHashValue record.toValue
  return { record with hash }

/-- The line of a record, without its line feed. -/
def AttestationRecord.line (record : AttestationRecord) : Bytes := encode (render record.toValue)

/-- What the file holds after the write of a line. -/
def WriteFate.write (fate : WriteFate) (file line : Bytes) : Bytes :=
  match fate with
  | .written | .unlockFailed => file ++ line
  | .stopped bytes => file ++ line.take bytes

/-- The handle takes the line as written. -/
def WriteFate.completes : WriteFate → Bool
  | .written | .unlockFailed => true
  | .stopped _ => false

/-- The reply of a write. -/
def WriteFate.reply {α : Type} (fate : WriteFate) (value : α) : Except WitnessError α :=
  match fate with
  | .written => .ok value
  | .unlockFailed => .error (.io "cannot unlock")
  | .stopped _ => .error (.io "cannot write")

namespace AttestationLedger

/-- An append: its reply, and the handle and the file after it. -/
structure Appended where
  reply : Except WitnessError AttestationRecord
  handle : Handle
  file : Bytes

def append (file : Bytes) (handle : Handle) (payload : Value) (observedAt : String)
    (fate : WriteFate) : Appended :=
  match refreshLocked file handle with
  | (.error error, file) => ⟨.error error, handle, file⟩
  | (.ok handle, file) =>
    match attest handle.head payload observedAt with
    | .error error => ⟨.error error, handle, file⟩
    | .ok record =>
      let line := record.line ++ [lf]
      let advanced : Handle := ⟨handle.records ++ [record], handle.verifiedOffset + line.length⟩
      ⟨fate.reply record, if fate.completes then advanced else handle, fate.write file line⟩

end AttestationLedger

/-- The one-shot append: its reply, and the file after it. -/
def appendAttestation (file : Bytes) (payload : Value) (observedAt : String) (fate : WriteFate) :
    Except WitnessError AttestationRecord × Bytes :=
  match truncateIncompleteAttestationTail file with
  | (.error error, file) => (.error error, file)
  | (.ok _, file) =>
    match scanAttestationHead file with
    | .error error => (.error error, file)
    | .ok head =>
      match attest head payload observedAt with
      | .error error => (.error error, file)
      | .ok record => (fate.reply record, fate.write file (record.line ++ [lf]))

/-! ## The file, its handles and its writers -/

structure Attestations where
  file : Bytes
  handles : List AttestationLedger.Handle := []

inductive AttestationAct
  | open
  | records (handle : Nat)
  | append (handle : Nat) (payload : Value) (observedAt : String) (fate : WriteFate)
  | appendAttestation (payload : Value) (observedAt : String) (fate : WriteFate)

namespace Attestations

/-- What a reader gets and how it leaves the file: a fresh handle, or one of the old ones. -/
def read (system : Attestations) : Option Nat →
    Option (Except WitnessError (List AttestationRecord) × Bytes)
  | none =>
    let (result, file) := AttestationLedger.open system.file
    some (result.map (·.records), file)
  | some index => (system.handles[index]?).map (AttestationLedger.records system.file)

def step (system : Attestations) : AttestationAct → Attestations
  | .open =>
    match AttestationLedger.open system.file with
    | (.error _, file) => { system with file }
    | (.ok handle, file) => { file, handles := system.handles ++ [handle] }
  | .records index =>
    match system.handles[index]? with
    | none => system
    | some handle =>
      match AttestationLedger.refreshLocked system.file handle with
      | (.error _, file) => { system with file }
      | (.ok handle, file) => { file, handles := system.handles.set index handle }
  | .append index payload observedAt fate =>
    match system.handles[index]? with
    | none => system
    | some handle =>
      let appended := AttestationLedger.append system.file handle payload observedAt fate
      { file := appended.file, handles := system.handles.set index appended.handle }
  | .appendAttestation payload observedAt fate =>
    { system with file := (Witness.appendAttestation system.file payload observedAt fate).2 }

def run (system : Attestations) (acts : List AttestationAct) : Attestations :=
  acts.foldl step system

/-- The reply to a writer whose write does not stop. -/
def reply (system : Attestations) (payload : Value) (observedAt : String) :
    Option Nat → Option (Except WitnessError AttestationRecord)
  | none => some (Witness.appendAttestation system.file payload observedAt .written).1
  | some index => (system.handles[index]?).map fun handle =>
    (AttestationLedger.append system.file handle payload observedAt .written).reply

end Attestations

/-- The write of the one-shot append, or of a handle. -/
def AttestationAct.write (payload : Value) (observedAt : String) (fate : WriteFate) :
    Option Nat → AttestationAct
  | none => .appendAttestation payload observedAt fate
  | some index => .append index payload observedAt fate

/-! ## Lines and chunks -/

/-- What the program relies on in the reader of JSON: a carriage return behind a text is white space,
and the text of an object is complete with its last brace only. -/
structure JsonText : Prop where
  carriageReturn : ∀ text value, fromStr (text ++ ['\r']) = .ok value ↔ fromStr text = .ok value
  torn : ∀ (fields : Fields) (text : List Char), text <+: render (.object fields) →
    text ≠ render (.object fields) → ∀ value, fromStr text ≠ .ok value

theorem checkAttestation_congr {a b : List Char}
    (h : ∀ value, fromStr a = .ok value ↔ fromStr b = .ok value) {head : ChainHead}
    {record : AttestationRecord} :
    checkAttestation head a = .ok record ↔ checkAttestation head b = .ok record := by
  unfold checkAttestation
  simp only [bind_ok_iff, json, mapError_eq_ok, h]

omit [Libraries] in
theorem blank_stripCr (line : List Char) : blank (stripCr line) = blank line := by
  unfold stripCr
  split
  · next hlast =>
    obtain ⟨rest, rfl⟩ := List.getLast?_eq_some_iff.mp hlast
    rw [List.dropLast_concat, blank, blank, List.all_append]
    simp [isWhitespace]
  · rfl

theorem checkAttestation_stripCr (hjson : JsonText) {head : ChainHead} {line : List Char}
    {record : AttestationRecord} :
    checkAttestation head (stripCr line) = .ok record ↔ checkAttestation head line = .ok record := by
  refine checkAttestation_congr fun value => ?_
  unfold stripCr
  split
  · next hlast =>
    obtain ⟨rest, rfl⟩ := List.getLast?_eq_some_iff.mp hlast
    rw [List.dropLast_concat]
    exact (hjson.carriageReturn rest value).symm
  · exact Iff.rfl

omit [Libraries] in
theorem chomp_concat (line : List Char) : chomp (line ++ ['\n']) = stripCr line := by
  rw [chomp, if_pos (by simp), List.dropLast_concat]

theorem checkLines_cons {head : ChainHead} {line : List Char} {rest : List (List Char)}
    {records : List AttestationRecord} (hline : blank line = false) :
    checkLines head (line :: rest) = .ok records ↔ ∃ record more,
      checkAttestation head line = .ok record ∧ checkLines record.head rest = .ok more ∧
        records = record :: more := by
  rw [checkLines, if_neg (by rw [hline]; decide)]
  constructor
  · intro h
    obtain ⟨record, hrecord, h⟩ := bind_ok_iff.mp h
    obtain ⟨more, hmore, h⟩ := bind_ok_iff.mp h
    cases h
    exact ⟨record, more, hrecord, hmore, rfl⟩
  · rintro ⟨record, more, hrecord, hmore, rfl⟩
    exact bind_ok_iff.mpr ⟨record, hrecord, bind_ok_iff.mpr ⟨more, hmore, rfl⟩⟩

theorem checkChunks_cons {head : ChainHead} {text : List Char} {rest : List Bytes}
    {records : List AttestationRecord} (htext : blank (chomp text) = false) :
    checkChunks head (encode text :: rest) = .ok records ↔ ∃ record more,
      checkAttestation head (chomp text) = .ok record ∧ checkChunks record.head rest = .ok more ∧
        records = record :: more := by
  rw [checkChunks, decode_encode]
  dsimp only
  rw [if_neg (by rw [htext]; decide)]
  constructor
  · intro h
    obtain ⟨record, hrecord, h⟩ := bind_ok_iff.mp h
    obtain ⟨more, hmore, h⟩ := bind_ok_iff.mp h
    cases h
    exact ⟨record, more, hrecord, hmore, rfl⟩
  · rintro ⟨record, more, hrecord, hmore, rfl⟩
    exact bind_ok_iff.mpr ⟨record, hrecord, bind_ok_iff.mpr ⟨more, hmore, rfl⟩⟩

theorem checkChunks_cons_blank {head : ChainHead} {text : List Char} {rest : List Bytes}
    (htext : blank (chomp text) = true) :
    checkChunks head (encode text :: rest) = checkChunks head rest := by
  rw [checkChunks, decode_encode]
  dsimp only
  rw [if_pos htext]

/-- The chunks of lines are checked as the lines are. -/
theorem checkChunks_lines (hjson : JsonText) {head : ChainHead} {lines : List (List Char)}
    {records : List AttestationRecord} :
    checkChunks head (lines.map fun line => encode (line ++ ['\n'])) = .ok records ↔
      checkLines head lines = .ok records := by
  induction lines generalizing head records with
  | nil => exact Iff.rfl
  | cons line lines ih =>
    have hblank : blank (chomp (line ++ ['\n'])) = blank line := by
      rw [chomp_concat, blank_stripCr]
    rw [List.map_cons]
    cases hline : blank line with
    | true =>
      rw [hline] at hblank
      rw [checkChunks_cons_blank hblank, checkLines, if_pos hline]
      exact ih
    | false =>
      rw [hline] at hblank
      rw [checkChunks_cons hblank, checkLines_cons hline]
      simp only [chomp_concat, checkAttestation_stripCr hjson, ih]

/-- Chunks that are checked are text. -/
theorem exists_texts {head : ChainHead} {chunks : List Bytes} {records : List AttestationRecord}
    (h : checkChunks head chunks = .ok records) : ∃ texts : List (List Char), chunks = texts.map encode := by
  induction chunks generalizing head records with
  | nil => exact ⟨[], rfl⟩
  | cons chunk chunks ih =>
    cases hdecode : decode chunk with
    | none =>
      rw [checkChunks, hdecode] at h
      cases h
    | some text =>
      obtain rfl := decode_eq_some_iff.mp hdecode
      obtain ⟨texts, rfl⟩ : ∃ texts : List (List Char), chunks = texts.map encode := by
        cases hblank : blank (chomp text) with
        | true =>
          rw [checkChunks_cons_blank hblank] at h
          exact ih h
        | false =>
          obtain ⟨_, _, -, hrest, -⟩ := (checkChunks_cons hblank).mp h
          exact ih hrest
      exact ⟨text :: texts, rfl⟩

omit [Libraries] in
theorem flatten_map_encode (texts : List (List Char)) :
    (texts.map encode).flatten = encode texts.flatten := by
  induction texts with
  | nil => rfl
  | cons text texts ih => rw [List.map_cons, List.flatten_cons, List.flatten_cons, encode_append, ih]

omit [Libraries] in
theorem readLines_encode {text : List Char} (h : Terminated lf (encode text)) :
    readLines (encode text) = (pieces '\n' text).map fun line => encode (line ++ ['\n']) := by
  rw [terminated_iff, split_encode] at h
  have htail : (split '\n' text).2 = [] := encode_inj.mp (h.trans encode_nil.symm)
  rw [readLines, split_encode, htail, pieces_of_complete htail]
  simp only [encode_nil, List.isEmpty_nil, if_true, List.append_nil, List.map_map]
  refine List.map_congr_left fun line _ => ?_
  rw [Function.comp_apply, encode_append]
  rfl

/-- Complete lines are checked in the same way from the file and from the text of the suffix. -/
theorem checkChunks_readLines (hjson : JsonText) {bytes : Bytes} (h : Terminated lf bytes)
    {head : ChainHead} {records : List AttestationRecord} :
    checkChunks head (readLines bytes) = .ok records ↔
      ∃ text, decode bytes = some text ∧ checkLines head (pieces '\n' text) = .ok records := by
  constructor
  · intro hok
    obtain ⟨texts, htexts⟩ := exists_texts hok
    have hbytes : bytes = encode texts.flatten := by
      rw [← flatten_readLines bytes, htexts, flatten_map_encode]
    subst hbytes
    refine ⟨_, decode_encode _, ?_⟩
    rw [readLines_encode h] at hok
    exact (checkChunks_lines hjson).mp hok
  · rintro ⟨text, htext, hok⟩
    obtain rfl := decode_eq_some_iff.mp htext
    rw [readLines_encode h]
    exact (checkChunks_lines hjson).mpr hok

/-! ## Reading piece by piece -/

omit [Libraries] in
theorem lastHead_cons (head : ChainHead) (record : AttestationRecord)
    (records : List AttestationRecord) :
    lastHead head (record :: records) = lastHead record.head records := by
  cases records with
  | nil => rfl
  | cons next rest =>
    rw [lastHead, lastHead, List.getLast?_cons_cons, List.getLast?_cons]
    rfl

theorem checkChunks_append {head : ChainHead} {a b : List Bytes} {records : List AttestationRecord} :
    checkChunks head (a ++ b) = .ok records ↔ ∃ first more,
      checkChunks head a = .ok first ∧ checkChunks (lastHead head first) b = .ok more ∧
        records = first ++ more := by
  induction a generalizing head records with
  | nil => simp [checkChunks, lastHead]
  | cons chunk chunks ih =>
    rw [List.cons_append]
    cases hdecode : decode chunk with
    | none => simp [checkChunks, hdecode]
    | some text =>
      obtain rfl := decode_eq_some_iff.mp hdecode
      cases hblank : blank (chomp text) with
      | true => rw [checkChunks_cons_blank hblank, checkChunks_cons_blank hblank, ih]
      | false =>
        simp only [checkChunks_cons hblank, ih]
        constructor
        · rintro ⟨record, _, hrecord, ⟨first, more, hfirst, hmore, rfl⟩, rfl⟩
          refine ⟨record :: first, more, ⟨record, first, hrecord, hfirst, rfl⟩, ?_, rfl⟩
          rwa [lastHead_cons]
        · rintro ⟨_, more, ⟨record, first, hrecord, hfirst, rfl⟩, hmore, rfl⟩
          rw [lastHead_cons] at hmore
          exact ⟨record, first ++ more, hrecord, ⟨first, more, hfirst, hmore, rfl⟩, rfl⟩

omit [Libraries] in
theorem readLines_append {body : Bytes} (h : Terminated lf body) (more : Bytes) :
    readLines (body ++ more) = readLines body ++ readLines more := by
  have htail := terminated_iff.mp h
  unfold readLines
  rw [split_append htail]
  simp [htail]

omit [Libraries] in
theorem readLines_tail {tail : Bytes} (h : lf ∉ tail) (hne : tail ≠ []) : readLines tail = [tail] := by
  rw [readLines, split_of_not_mem h]
  simp [hne]

omit [Libraries] in
theorem readLines_line {line : Bytes} (h : lf ∉ line) : readLines (line ++ [lf]) = [line ++ [lf]] := by
  rw [readLines, split_append_sep h, split]
  rfl

/-- The chain of a file goes on behind a part with complete lines. -/
theorem readAttestationChain_append {body more : Bytes} (h : Terminated lf body)
    {records : List AttestationRecord} :
    readAttestationChain (body ++ more) = .ok records ↔ ∃ first rest,
      readAttestationChain body = .ok first ∧
        checkChunks (lastHead genesis first) (readLines more) = .ok rest ∧ records = first ++ rest := by
  rw [readAttestationChain, readLines_append h, checkChunks_append]
  rfl

omit [Libraries] in
theorem encode_line (text : List Char) : encode text ++ [lf] = encode (text ++ ['\n']) := by
  rw [encode_append]
  rfl

omit [Libraries] in
/-- A line is text when it is text with its line feed. -/
theorem exists_text_of_line {line : Bytes} {text : List Char} (h : lf ∉ line)
    (htext : line ++ [lf] = encode text) : ∃ text', line = encode text' := by
  have hsplit : split lf (line ++ [lf]) = ([line], []) := by
    rw [split_append_sep h, split]
  rw [htext, split_encode, Prod.mk.injEq] at hsplit
  obtain ⟨text', -, hline⟩ : ∃ text' ∈ (split '\n' text).1, encode text' = line := by
    rw [← List.mem_map, hsplit.1]
    exact List.mem_singleton_self line
  exact ⟨text', hline.symm⟩

/-- A tail without its line feed is checked as if it had it. -/
theorem checkChunks_tail (hjson : JsonText) {tail : Bytes} (h : lf ∉ tail) (hne : tail ≠ [])
    {head : ChainHead} {records : List AttestationRecord} :
    checkChunks head (readLines (tail ++ [lf])) = .ok records ↔
      checkChunks head (readLines tail) = .ok records := by
  have htext : ∀ text, tail = encode text →
      (checkChunks head [tail ++ [lf]] = .ok records ↔ checkChunks head [tail] = .ok records) := by
    rintro text rfl
    have hchomp : chomp text = text := by
      rw [chomp, if_neg]
      intro hlast
      obtain ⟨rest, rfl⟩ := List.getLast?_eq_some_iff.mp hlast
      rw [← encode_line] at h
      exact h (by simp)
    have hblank : blank (chomp (text ++ ['\n'])) = blank (chomp text) := by
      rw [chomp_concat, blank_stripCr, hchomp]
    rw [encode_line]
    cases hline : blank (chomp text) with
    | true => rw [checkChunks_cons_blank (hblank.trans hline), checkChunks_cons_blank hline]
    | false =>
      rw [checkChunks_cons (hblank.trans hline), checkChunks_cons hline, chomp_concat, hchomp]
      simp only [checkAttestation_stripCr hjson]
  rw [readLines_line h, readLines_tail h hne]
  constructor
  · intro hok
    obtain ⟨texts, htexts⟩ := exists_texts hok
    obtain ⟨text, -, hline⟩ := List.mem_map.mp (htexts ▸ List.mem_singleton_self (tail ++ [lf]))
    obtain ⟨text', htail⟩ := exists_text_of_line h hline.symm
    exact (htext text' htail).mp hok
  · intro hok
    obtain ⟨texts, htexts⟩ := exists_texts hok
    obtain ⟨text, -, hline⟩ := List.mem_map.mp (htexts ▸ List.mem_singleton_self tail)
    exact (htext text hline.symm).mpr hok

/-! ## Repairs -/

/-- What a repair makes of the tail. -/
def repairTail (tail : Bytes) : Bytes :=
  if tail = [] then [] else if parses tail then tail ++ [lf] else []

theorem terminated_repairTail (tail : Bytes) : Terminated lf (repairTail tail) := by
  unfold repairTail
  split
  · exact .inl rfl
  · split
    · exact terminated_concat tail
    · exact .inl rfl

section

variable {body tail : Bytes} (hbody : Terminated lf body) (htail : lf ∉ tail)

include hbody htail

theorem truncateIncompleteAttestationTail_eq :
    truncateIncompleteAttestationTail (body ++ tail) =
      if tail = [] then (.ok (), body)
      else if parses tail then
        match scanAttestationHead (body ++ tail) with
        | .error error => (.error error, body ++ tail)
        | .ok _ => (.ok (), body ++ tail ++ [lf])
      else (.ok (), body) := by
  unfold truncateIncompleteAttestationTail
  rw [completeLen_append hbody htail]
  dsimp only
  rw [List.drop_left, List.take_left]
  by_cases hnil : tail = []
  · subst hnil
    have hlast : body = [] ∨ body.getLast? = some lf := hbody
    rw [List.append_nil, if_pos rfl, if_pos hlast]
  · have hlast : ¬ (body ++ tail = [] ∨ (body ++ tail).getLast? = some lf) := fun h =>
      hnil ((terminated_append_iff hbody htail).mp h)
    rw [if_neg hlast, if_neg hnil]

/-- The whole file is in order with its line feed when it is without. -/
theorem readAttestationChain_concat (hjson : JsonText) (hne : tail ≠ [])
    {records : List AttestationRecord} :
    readAttestationChain (body ++ tail ++ [lf]) = .ok records ↔
      readAttestationChain (body ++ tail) = .ok records := by
  rw [List.append_assoc, readAttestationChain_append hbody, readAttestationChain_append hbody]
  simp only [checkChunks_tail hjson htail hne]

/-- How a fresh handle is opened: the tail is repaired, and the chain is read. -/
theorem open_eq_ok_iff (hjson : JsonText) {handle : AttestationLedger.Handle} {file : Bytes} :
    AttestationLedger.open (body ++ tail) = (.ok handle, file) ↔
      file = body ++ repairTail tail ∧ readAttestationChain file = .ok handle.records ∧
        handle.verifiedOffset = file.length := by
  have hfinish : ∀ repaired : Bytes,
      ((match readAttestationChain repaired with
        | .error error => (.error error, repaired)
        | .ok records => (.ok ⟨records, repaired.length⟩, repaired)) =
          ((.ok handle : Except WitnessError AttestationLedger.Handle), file)) ↔
        file = repaired ∧ readAttestationChain file = .ok handle.records ∧
          handle.verifiedOffset = file.length := by
    intro repaired
    cases hchain : readAttestationChain repaired with
    | error error =>
      constructor
      · intro h
        cases h
      · rintro ⟨rfl, h, -⟩
        rw [hchain] at h
        cases h
    | ok records =>
      constructor
      · intro h
        cases h
        exact ⟨rfl, hchain, rfl⟩
      · rintro ⟨rfl, h, hoffset⟩
        rw [hchain] at h
        cases h
        rw [← hoffset]
  unfold AttestationLedger.open repairTail
  rw [truncateIncompleteAttestationTail_eq hbody htail]
  by_cases hnil : tail = []
  · rw [if_pos hnil, if_pos hnil, List.append_nil]
    exact hfinish body
  rw [if_neg hnil, if_neg hnil]
  by_cases hparses : parses tail
  · rw [if_pos hparses, if_pos hparses, ← List.append_assoc]
    unfold scanAttestationHead
    cases hscan : readAttestationChain (body ++ tail) with
    | error error =>
      constructor
      · intro h
        cases h
      · rintro ⟨rfl, h, -⟩
        rw [readAttestationChain_concat hbody htail hjson hnil, hscan] at h
        cases h
    | ok records => exact hfinish (body ++ tail ++ [lf])
  · rw [if_neg hparses, if_neg hparses, List.append_nil]
    exact hfinish body

/-- The repair of a suffix is the repair of the file. -/
theorem repairSuffix_eq (verified : Bytes) (hne : body ++ tail ≠ []) :
    AttestationLedger.repairSuffix (verified ++ (body ++ tail)) verified.length =
      (body ++ repairTail tail, verified ++ (body ++ repairTail tail)) := by
  unfold AttestationLedger.repairSuffix repairTail
  dsimp only
  rw [List.drop_left, completeLen_append hbody htail, List.drop_left, List.take_left]
  by_cases hnil : tail = []
  · subst hnil
    rw [List.append_nil] at hne ⊢
    rw [if_neg fun h => h (hbody.resolve_left hne), if_pos rfl, List.append_nil]
  · have hlast : (body ++ tail).getLast? ≠ some lf := fun h =>
      hnil ((terminated_append_iff hbody htail).mp (.inr h))
    rw [if_pos hlast, if_neg hnil]
    split
    · simp only [List.append_assoc]
    · rw [List.append_nil, List.take_length_add_append, List.take_left]

end

namespace AttestationLedger

/-- The handle has verified the beginning of the file. -/
def Handle.Verified (handle : Handle) (file : Bytes) : Prop :=
  ∃ verified, verified <+: file ∧ Terminated lf verified ∧
    handle.verifiedOffset = verified.length ∧ readAttestationChain verified = .ok handle.records

/-- The chain of a file behind a verified part is what the suffix adds to it. -/
theorem readAttestationChain_verified (hjson : JsonText) {verified suffix : Bytes}
    (hverified : Terminated lf verified) (hsuffix : Terminated lf suffix) {handle : Handle}
    (hchain : readAttestationChain verified = .ok handle.records) {records : List AttestationRecord} :
    readAttestationChain (verified ++ suffix) = .ok records ↔ ∃ text appended,
      decode suffix = some text ∧ checkLines handle.head (pieces '\n' text) = .ok appended ∧
        records = handle.records ++ appended := by
  rw [readAttestationChain_append hverified, hchain]
  constructor
  · rintro ⟨first, appended, hfirst, happended, rfl⟩
    cases hfirst
    obtain ⟨text, htext, hlines⟩ := (checkChunks_readLines hjson hsuffix).mp happended
    exact ⟨text, appended, htext, hlines, rfl⟩
  · rintro ⟨text, appended, htext, hlines, rfl⟩
    refine ⟨_, appended, rfl, ?_, rfl⟩
    exact (checkChunks_readLines hjson hsuffix).mpr ⟨text, htext, hlines⟩

/-- A handle catches up with the file as a fresh one would read it. -/
theorem refreshLocked_eq_ok_iff (hjson : JsonText) {body tail : Bytes} (hbody : Terminated lf body)
    (htail : lf ∉ tail) {handle : Handle} (hhandle : handle.Verified (body ++ tail))
    {handle' : Handle} {file : Bytes} :
    refreshLocked (body ++ tail) handle = (.ok handle', file) ↔
      file = body ++ repairTail tail ∧ readAttestationChain file = .ok handle'.records ∧
        handle'.verifiedOffset = file.length := by
  obtain ⟨verified, hverified, hterminated, hoffset, hchain⟩ := hhandle
  obtain ⟨rest, rfl⟩ := hterminated.prefix_complete htail hverified
  have hrest : Terminated lf rest := hbody.of_append
  rw [List.append_assoc, List.append_assoc]
  unfold refreshLocked
  rw [hoffset, List.length_append]
  by_cases hnil : rest ++ tail = []
  · obtain ⟨rfl, rfl⟩ := List.append_eq_nil_iff.mp hnil
    rw [if_pos (by simp)]
    simp only [repairTail, if_true, List.append_nil]
    constructor
    · intro h
      cases h
      exact ⟨rfl, hchain, hoffset⟩
    · rintro ⟨rfl, hrecords, hlength⟩
      rw [hchain] at hrecords
      obtain ⟨records, offset⟩ := handle
      obtain ⟨records', offset'⟩ := handle'
      cases hrecords
      dsimp only at hoffset hlength
      rw [hoffset, hlength]
  · have hpos : 0 < (rest ++ tail).length := List.length_pos_of_ne_nil hnil
    rw [if_neg (by omega), if_neg (by omega), repairSuffix_eq hrest htail verified hnil]
    dsimp only
    have hsuffix := hrest.append (terminated_repairTail tail)
    constructor
    · intro h
      split at h
      · cases h
      · next text htext =>
        split at h
        · cases h
        · next appended happended =>
          cases h
          refine ⟨rfl, ?_, List.length_append.symm⟩
          exact (readAttestationChain_verified hjson hterminated hsuffix hchain).mpr
            ⟨text, appended, htext, happended, rfl⟩
    · rintro ⟨rfl, hrecords, hlength⟩
      obtain ⟨text, appended, htext, happended, hrecords⟩ :=
        (readAttestationChain_verified hjson hterminated hsuffix hchain).mp hrecords
      rw [htext]
      dsimp only
      rw [happended]
      dsimp only
      rw [← List.length_append, ← hrecords, ← hlength]

end AttestationLedger

/-! ## What is written -/

/-- A record that carries the payload is read as it was written: its text gives its value, and the
decoder of the record leaves the payload as it is. -/
structure ReadsBack (payload : Value) : Prop where
  text : ∀ record : AttestationRecord, record.payload = payload →
    fromStr (render record.toValue) = .ok record.toValue
  decoded : decodeValue payload = .ok payload

theorem fromValue_toValue {record : AttestationRecord} (h : record.seq ≤ u64Max)
    (hpayload : decodeValue record.payload = .ok record.payload) :
    AttestationRecord.fromValue record.toValue = .ok record := by
  have hseq : AttestationRecord.decodeSeq (natValue record.seq) = .ok record.seq := by
    rw [AttestationRecord.decodeSeq, orError_eq_ok, natValue, asU64, Number.asU64_ofNat, if_pos h]
  unfold AttestationRecord.fromValue AttestationRecord.toValue
  refine bind_ok_iff.mpr ⟨_, rfl, bind_ok_iff.mpr ⟨_, rfl, bind_ok_iff.mpr ⟨_, rfl, ?_⟩⟩⟩
  refine bind_ok_iff.mpr ⟨_, hpayload, bind_ok_iff.mpr ⟨_, rfl, bind_ok_iff.mpr ⟨_, hseq, ?_⟩⟩⟩
  rfl

theorem attest_eq_ok {head : ChainHead} {payload : Value} {observedAt : String}
    {record : AttestationRecord} (h : attest head payload observedAt = .ok record) :
    record.payload = payload ∧ record.seq = nextSeq head ∧ record.prevHash = head.hash ∧
      computeHashValue record.toValue = .ok record.hash := by
  unfold attest at h
  obtain ⟨hash, hhash, h⟩ := bind_ok_iff.mp h
  cases h
  refine ⟨rfl, rfl, rfl, ?_⟩
  rw [AttestationRecord.toValue, computeHashValue_object] at hhash ⊢
  exact ⟨rfl, hhash.2⟩

theorem checkAttestation_attest {head : ChainHead} {payload : Value} {observedAt : String}
    {record : AttestationRecord} (h : attest head payload observedAt = .ok record)
    (hback : ReadsBack payload) :
    checkAttestation head (render record.toValue) = .ok record := by
  obtain ⟨hpayload, hseq, hprev, hhash⟩ := attest_eq_ok h
  have hbound : record.seq ≤ u64Max := by
    rw [hseq, nextSeq]
    exact Nat.le_of_lt_succ (Nat.mod_lt _ (Nat.succ_pos _))
  unfold checkAttestation
  refine bind_ok_iff.mpr ⟨_, mapError_eq_ok.mpr (hback.text record hpayload), ?_⟩
  refine bind_ok_iff.mpr ⟨_, mapError_eq_ok.mpr (fromValue_toValue hbound (hpayload ▸ hback.decoded)), ?_⟩
  refine ensure_bind_ok_iff.mpr ⟨⟨hseq, hprev⟩, bind_ok_iff.mpr ⟨_, hhash, ?_⟩⟩
  exact ensure_bind_ok_iff.mpr ⟨rfl, rfl⟩

omit [Libraries] in
theorem lf_not_mem_line (record : AttestationRecord) : lf ∉ record.line :=
  lf_not_mem_encode (newline_not_mem_render _)

omit [Libraries] in
theorem line_ne_nil (record : AttestationRecord) : record.line ≠ [] := by
  intro hnil
  obtain ⟨rest, hrest⟩ : ∃ rest, render record.toValue = '\x7b' :: rest := exists_render_object _
  rw [AttestationRecord.line, ← encode_nil, encode_inj, hrest] at hnil
  cases hnil

omit [Libraries] in
theorem chomp_render (value : Value) : chomp (render value ++ ['\n']) = render value := by
  have hcr : '\r' ∉ render value := not_mem_render rfl _
  rw [chomp_concat, stripCr, if_neg]
  intro hlast
  exact hcr (List.mem_of_getLast? hlast)

/-- A record that reads back is the next one in the chain. -/
theorem readAttestationChain_attest {base : Bytes} {records : List AttestationRecord}
    (hbase : Terminated lf base) (hchain : readAttestationChain base = .ok records) {payload : Value}
    {observedAt : String} {record : AttestationRecord}
    (h : attest (lastHead genesis records) payload observedAt = .ok record)
    (hback : ReadsBack payload) :
    readAttestationChain (base ++ (record.line ++ [lf])) = .ok (records ++ [record]) := by
  have hchomp := chomp_render record.toValue
  refine (readAttestationChain_append hbase).mpr ⟨records, [record], hchain, ?_, rfl⟩
  rw [readLines_line (lf_not_mem_line record), AttestationRecord.line, encode_line,
    checkChunks_cons (by rw [hchomp]; exact blank_object _), hchomp]
  exact ⟨record, [], checkAttestation_attest h hback, rfl, rfl⟩

theorem repairTail_line {record : AttestationRecord} (hback : ReadsBack record.payload) :
    repairTail record.line = record.line ++ [lf] := by
  have hparses : parses record.line := by
    rw [parses, AttestationRecord.line, decode_encode]
    dsimp only
    rw [hback.text record rfl]
    rfl
  rw [repairTail, if_neg (line_ne_nil record), if_pos hparses]

/-- A torn record is not JSON. -/
theorem repairTail_take (hjson : JsonText) (record : AttestationRecord) {n : Nat}
    (h : n < record.line.length) : repairTail (record.line.take n) = [] := by
  have hparses : parses (record.line.take n) = false := by
    unfold parses
    split
    · rfl
    · next text htext =>
      have hbytes := decode_eq_some_iff.mp htext
      have hpre : text <+: render record.toValue := by
        refine prefix_of_encode_prefix ?_
        rw [← hbytes]
        exact List.take_prefix n _
      have hne : text ≠ render record.toValue := by
        rintro rfl
        have hlength := congrArg List.length hbytes
        rw [List.length_take, AttestationRecord.line] at hlength
        rw [AttestationRecord.line] at h
        omega
      cases hread : fromStr text with
      | error error => rfl
      | ok value => exact absurd hread (hjson.torn _ text hpre hne value)
  rw [repairTail]
  split
  · rfl
  · rw [if_neg (by rw [hparses]; decide)]

/-! ## Steps -/

omit [Libraries] in
theorem prefix_write (fate : WriteFate) (file line : Bytes) : file <+: fate.write file line := by
  cases fate <;> exact List.prefix_append _ _

section

variable {body tail : Bytes} (hbody : Terminated lf body) (htail : lf ∉ tail)

include hbody htail

/-- A repair keeps the complete lines. -/
theorem prefix_truncate : body <+: (truncateIncompleteAttestationTail (body ++ tail)).2 := by
  rw [truncateIncompleteAttestationTail_eq hbody htail]
  split
  · exact List.prefix_refl body
  split
  · split
    · exact List.prefix_append body tail
    · rw [List.append_assoc]
      exact List.prefix_append body _
  · exact List.prefix_refl body

theorem prefix_open : body <+: (AttestationLedger.open (body ++ tail)).2 := by
  have htruncate := prefix_truncate hbody htail
  unfold AttestationLedger.open
  rcases htruncated : truncateIncompleteAttestationTail (body ++ tail) with ⟨result, file⟩
  rw [htruncated] at htruncate
  cases result with
  | error error => exact htruncate
  | ok _ =>
    dsimp only
    cases readAttestationChain file <;> exact htruncate

theorem prefix_appendAttestation (payload : Value) (observedAt : String) (fate : WriteFate) :
    body <+: (appendAttestation (body ++ tail) payload observedAt fate).2 := by
  have htruncate := prefix_truncate hbody htail
  unfold appendAttestation
  rcases htruncated : truncateIncompleteAttestationTail (body ++ tail) with ⟨result, file⟩
  rw [htruncated] at htruncate
  cases result with
  | error error => exact htruncate
  | ok _ =>
    dsimp only
    cases scanAttestationHead file with
    | error error => exact htruncate
    | ok head =>
      dsimp only
      cases attest head payload observedAt with
      | error error => exact htruncate
      | ok record => exact htruncate.trans (prefix_write fate file _)

namespace AttestationLedger

theorem prefix_refreshLocked {handle : Handle} (hhandle : handle.Verified (body ++ tail)) :
    body <+: (refreshLocked (body ++ tail) handle).2 := by
  obtain ⟨verified, hverified, hterminated, hoffset, -⟩ := hhandle
  obtain ⟨rest, rfl⟩ := hterminated.prefix_complete htail hverified
  unfold refreshLocked
  rw [hoffset]
  split
  · exact List.prefix_append _ tail
  split
  · exact prefix_open hbody htail
  · next hlength hshort =>
    have hne : rest ++ tail ≠ [] := by
      intro hnil
      rw [List.append_assoc, hnil, List.append_nil] at hlength
      exact hlength rfl
    have hpre : verified ++ rest <+: verified ++ (rest ++ repairTail tail) := by
      rw [← List.append_assoc]
      exact List.prefix_append _ _
    rw [List.append_assoc, repairSuffix_eq hbody.of_append htail verified hne]
    dsimp only
    split
    · exact hpre
    · split <;> exact hpre

end AttestationLedger

end

namespace AttestationLedger

/-- What is verified stays verified where the complete lines are kept. -/
theorem Handle.Verified.of_isPrefix {handle : Handle} {body tail file : Bytes} (htail : lf ∉ tail)
    (h : handle.Verified (body ++ tail)) (hpre : body <+: file) : handle.Verified file := by
  obtain ⟨verified, hverified, hterminated, hoffset, hchain⟩ := h
  exact ⟨verified, (hterminated.prefix_complete htail hverified).trans hpre, hterminated, hoffset,
    hchain⟩

/-- A handle that has been opened, or has caught up, has verified all of the file. -/
structure Handle.Current (handle : Handle) (file : Bytes) : Prop where
  terminated : Terminated lf file
  chain : readAttestationChain file = .ok handle.records
  offset : handle.verifiedOffset = file.length

theorem Handle.Current.verified {handle : Handle} {file more : Bytes} (h : handle.Current file)
    (hpre : file <+: more) : handle.Verified more :=
  ⟨file, hpre, h.terminated, h.offset, h.chain⟩

theorem current_of_open (hjson : JsonText) {file file' : Bytes} {handle : Handle}
    (h : AttestationLedger.open file = (.ok handle, file')) : handle.Current file' := by
  obtain ⟨body, tail, rfl, hbody, htail⟩ := exists_complete lf file
  obtain ⟨rfl, hchain, hoffset⟩ := (open_eq_ok_iff hbody htail hjson).mp h
  exact ⟨hbody.append (terminated_repairTail tail), hchain, hoffset⟩

/-- Catching up succeeds when opening does, with the same result. -/
theorem refreshLocked_eq_open (hjson : JsonText) {file file' : Bytes} {handle handle' : Handle}
    (hhandle : handle.Verified file) :
    refreshLocked file handle = (.ok handle', file') ↔
      AttestationLedger.open file = (.ok handle', file') := by
  obtain ⟨body, tail, rfl, hbody, htail⟩ := exists_complete lf file
  rw [refreshLocked_eq_ok_iff hjson hbody htail hhandle, open_eq_ok_iff hbody htail hjson]

/-- The handle of an append takes its own record as it would be read. -/
theorem append_verified (hjson : JsonText) {body tail : Bytes} (hbody : Terminated lf body)
    (htail : lf ∉ tail) {handle : Handle} (hhandle : handle.Verified (body ++ tail)) {payload : Value}
    {fate : WriteFate} (hback : fate.completes = true → ReadsBack payload) (observedAt : String) :
    body <+: (append (body ++ tail) handle payload observedAt fate).file ∧
      (append (body ++ tail) handle payload observedAt fate).handle.Verified
        (append (body ++ tail) handle payload observedAt fate).file := by
  have hpre := prefix_refreshLocked hbody htail hhandle
  unfold append
  rcases hrefresh : refreshLocked (body ++ tail) handle with ⟨result, file⟩
  rw [hrefresh] at hpre
  cases result with
  | error error => exact ⟨hpre, hhandle.of_isPrefix htail hpre⟩
  | ok current =>
    have hcurrent : current.Current file :=
      current_of_open hjson ((refreshLocked_eq_open hjson hhandle).mp hrefresh)
    dsimp only
    cases hattest : attest current.head payload observedAt with
    | error error => exact ⟨hpre, hcurrent.verified (List.prefix_refl file)⟩
    | ok record =>
      have hwrite := prefix_write fate file (record.line ++ [lf])
      refine ⟨hpre.trans hwrite, ?_⟩
      dsimp only
      split
      · next hcompletes =>
        have hfile : fate.write file (record.line ++ [lf]) = file ++ (record.line ++ [lf]) := by
          cases fate with
          | written => rfl
          | unlockFailed => rfl
          | stopped n => cases hcompletes
        rw [hfile]
        refine ⟨_, List.prefix_refl _, ?_, ?_, ?_⟩
        · rw [← List.append_assoc]
          exact terminated_concat _
        · rw [hcurrent.offset]
          exact List.length_append.symm
        · exact readAttestationChain_attest hcurrent.terminated hcurrent.chain hattest
            (hback hcompletes)
      · exact hcurrent.verified hwrite

end AttestationLedger

/-- The payload reads back if the handle takes its record as written. -/
def AttestationAct.ReadsBack : AttestationAct → Prop
  | .append _ payload _ fate => fate.completes = true → Witness.ReadsBack payload
  | .open | .records _ | .appendAttestation .. => True

namespace Attestations

/-- Every handle has verified the beginning of the file. -/
def Sound (system : Attestations) : Prop := ∀ handle ∈ system.handles, handle.Verified system.file

theorem Sound.step (hjson : JsonText) {system : Attestations} (h : system.Sound)
    {act : AttestationAct} (hback : act.ReadsBack) : (system.step act).Sound := by
  obtain ⟨file, handles⟩ := system
  obtain ⟨body, tail, rfl, hbody, htail⟩ := exists_complete lf file
  cases act with
  | «open» =>
    have hpre := prefix_open hbody htail
    rw [Attestations.step]
    dsimp only
    rcases hopen : AttestationLedger.open (body ++ tail) with ⟨result, file⟩
    rw [hopen] at hpre
    cases result with
    | error error => exact fun handle hmem => (h handle hmem).of_isPrefix htail hpre
    | ok opened =>
      intro handle hmem
      rcases List.mem_append.mp hmem with hmem | hmem
      · exact (h handle hmem).of_isPrefix htail hpre
      · rw [List.mem_singleton.mp hmem]
        exact (AttestationLedger.current_of_open hjson hopen).verified (List.prefix_refl file)
  | records index =>
    rw [Attestations.step]
    dsimp only
    cases hindex : handles[index]? with
    | none => exact h
    | some handle =>
      have hhandle := h handle (List.mem_of_getElem? hindex)
      have hpre := AttestationLedger.prefix_refreshLocked hbody htail hhandle
      dsimp only at hpre ⊢
      rcases hrefresh : AttestationLedger.refreshLocked (body ++ tail) handle with ⟨result, file⟩
      rw [hrefresh] at hpre
      cases result with
      | error error => exact fun handle hmem => (h handle hmem).of_isPrefix htail hpre
      | ok current =>
        intro other hother
        rcases List.mem_or_eq_of_mem_set hother with hmem | rfl
        · exact (h other hmem).of_isPrefix htail hpre
        · have hopen := (AttestationLedger.refreshLocked_eq_open hjson hhandle).mp hrefresh
          exact (AttestationLedger.current_of_open hjson hopen).verified (List.prefix_refl file)
  | append index payload observedAt fate =>
    rw [Attestations.step]
    dsimp only
    cases hindex : handles[index]? with
    | none => exact h
    | some handle =>
      have hhandle := h handle (List.mem_of_getElem? hindex)
      obtain ⟨hpre, hverified⟩ :=
        AttestationLedger.append_verified hjson hbody htail hhandle hback observedAt
      intro other hother
      rcases List.mem_or_eq_of_mem_set hother with hmem | rfl
      · exact (h other hmem).of_isPrefix htail hpre
      · exact hverified
  | appendAttestation payload observedAt fate =>
    intro handle hmem
    exact (h handle hmem).of_isPrefix htail (prefix_appendAttestation hbody htail payload observedAt fate)

theorem Sound.run (hjson : JsonText) {system : Attestations} (h : system.Sound)
    {acts : List AttestationAct} (hback : ∀ act ∈ acts, act.ReadsBack) : (system.run acts).Sound := by
  induction acts generalizing system with
  | nil => exact h
  | cons act acts ih =>
    refine ih (h.step hjson (hback act List.mem_cons_self)) ?_
    exact fun other hother => hback other (List.mem_cons_of_mem _ hother)

theorem lt_of_read {system : Attestations} {index : Nat}
    {result : Except WitnessError (List AttestationRecord) × Bytes}
    (h : system.read (some index) = some result) : index < system.handles.length := by
  by_contra hle
  rw [Attestations.read, List.getElem?_eq_none (Nat.le_of_not_lt hle)] at h
  cases h

/-- A handle reads what a fresh one reads. -/
theorem Sound.read (hjson : JsonText) {system : Attestations} (h : system.Sound) {index : Nat}
    {records : List AttestationRecord} {file : Bytes} (hindex : index < system.handles.length) :
    system.read (some index) = some (.ok records, file) ↔
      system.read none = some (.ok records, file) := by
  have hresult : ∀ result : Except WitnessError AttestationLedger.Handle × Bytes,
      (result.1.map (·.records), result.2) = (Except.ok records, file) ↔
        ∃ handle, result = (.ok handle, file) ∧ handle.records = records := by
    rintro ⟨result, file'⟩
    cases result with
    | error error => simp [Except.map]
    | ok handle => simp [Except.map, and_comm]
  have hhandle := h _ (List.getElem_mem hindex)
  rw [Attestations.read, Attestations.read, List.getElem?_eq_getElem hindex, Option.map_some,
    Option.some_inj, Option.some_inj]
  refine (hresult (AttestationLedger.refreshLocked _ _)).trans ?_
  refine Iff.trans ?_ (hresult (AttestationLedger.open _)).symm
  simp only [AttestationLedger.refreshLocked_eq_open hjson hhandle]

theorem read_none {system : Attestations} {handle : AttestationLedger.Handle} {file : Bytes}
    (h : AttestationLedger.open system.file = (.ok handle, file)) :
    system.read none = some (.ok handle.records, file) := by
  rw [Attestations.read, h]
  rfl

/-- Where a fresh handle succeeds, every reader does. -/
theorem Sound.read_eq (hjson : JsonText) {system : Attestations} (h : system.Sound)
    {records : List AttestationRecord} {file : Bytes}
    (hopen : system.read none = some (.ok records, file)) {reader : Option Nat}
    {result : Except WitnessError (List AttestationRecord) × Bytes}
    (hread : system.read reader = some result) : result = (.ok records, file) := by
  cases reader with
  | none => exact Option.some.inj (hread.symm.trans hopen)
  | some index =>
    exact Option.some.inj (hread.symm.trans ((h.read hjson (lt_of_read hread)).mpr hopen))

end Attestations

/-- A writer that succeeds repairs the file, reads its chain and writes the next record behind it. -/
theorem appendAttestation_eq_ok {file : Bytes} {payload : Value} {observedAt : String}
    {record : AttestationRecord}
    (h : (appendAttestation file payload observedAt .written).1 = .ok record) :
    ∃ handle base, AttestationLedger.open file = (.ok handle, base) ∧
      attest handle.head payload observedAt = .ok record ∧
      ∀ fate, (appendAttestation file payload observedAt fate).2 =
        fate.write base (record.line ++ [lf]) := by
  unfold appendAttestation scanAttestationHead at h ⊢
  unfold AttestationLedger.open
  rcases htruncate : truncateIncompleteAttestationTail file with ⟨result, base⟩
  rw [htruncate] at h
  cases result with
  | error error => cases h
  | ok _ =>
    dsimp only at h ⊢
    cases hchain : readAttestationChain base with
    | error error =>
      rw [hchain] at h
      cases h
    | ok records =>
      rw [hchain] at h
      dsimp only [Except.map] at h ⊢
      cases hattest : attest (lastHead genesis records) payload observedAt with
      | error error =>
        rw [hattest] at h
        cases h
      | ok written =>
        rw [hattest] at h
        cases h
        exact ⟨⟨records, base.length⟩, base, rfl, hattest, fun _ => rfl⟩

theorem AttestationLedger.append_eq_ok (hjson : JsonText) {file : Bytes} {handle : Handle}
    (hhandle : handle.Verified file) {payload : Value} {observedAt : String}
    {record : AttestationRecord}
    (h : (append file handle payload observedAt .written).reply = .ok record) :
    ∃ current base, AttestationLedger.open file = (.ok current, base) ∧
      attest current.head payload observedAt = .ok record ∧
      ∀ fate, (append file handle payload observedAt fate).file =
        fate.write base (record.line ++ [lf]) := by
  unfold append at h ⊢
  rcases hrefresh : refreshLocked file handle with ⟨result, base⟩
  rw [hrefresh] at h
  cases result with
  | error error => cases h
  | ok current =>
    dsimp only at h ⊢
    cases hattest : attest current.head payload observedAt with
    | error error =>
      rw [hattest] at h
      cases h
    | ok written =>
      rw [hattest] at h
      cases h
      exact ⟨current, base, (refreshLocked_eq_open hjson hhandle).mp hrefresh, hattest, fun _ => rfl⟩

namespace Attestations

theorem Sound.write (hjson : JsonText) {system : Attestations} (h : system.Sound) {payload : Value}
    {observedAt : String} {writer : Option Nat} {record : AttestationRecord}
    (hreply : system.reply payload observedAt writer = some (.ok record)) :
    ∃ handle base, AttestationLedger.open system.file = (.ok handle, base) ∧
      attest handle.head payload observedAt = .ok record ∧
      ∀ fate, (system.step (.write payload observedAt fate writer)).file =
        fate.write base (record.line ++ [lf]) := by
  cases writer with
  | none => exact appendAttestation_eq_ok (Option.some.inj hreply)
  | some index =>
    obtain ⟨handle, hindex, hreply⟩ := Option.map_eq_some_iff.mp hreply
    have hhandle := h handle (List.mem_of_getElem? hindex)
    obtain ⟨current, base, hopen, hattest, hwrite⟩ :=
      AttestationLedger.append_eq_ok hjson hhandle hreply
    refine ⟨current, base, hopen, hattest, fun fate => ?_⟩
    rw [AttestationAct.write, Attestations.step, hindex]
    exact hwrite fate

end Attestations

/-- A write that stops does not ask for its payload to read back. -/
theorem AttestationAct.readsBack_stopped (payload : Value) (observedAt : String) (n : Nat)
    (writer : Option Nat) :
    (AttestationAct.write payload observedAt (.stopped n) writer).ReadsBack := by
  cases writer with
  | none => trivial
  | some index => exact fun h => nomatch h

theorem open_of_terminated {file : Bytes} (h : Terminated lf file)
    {records : List AttestationRecord} (hchain : readAttestationChain file = .ok records) :
    AttestationLedger.open file = (.ok ⟨records, file.length⟩, file) := by
  have hlast : file = [] ∨ file.getLast? = some lf := h
  unfold AttestationLedger.open truncateIncompleteAttestationTail
  rw [if_pos hlast]
  dsimp only
  rw [hchain]

/-- What a fresh handle makes of a record whose write has stopped. -/
theorem open_stopped (hjson : JsonText) {base : Bytes} {handle : AttestationLedger.Handle}
    (hcurrent : handle.Current base) {payload : Value} {observedAt : String}
    {record : AttestationRecord} (hattest : attest handle.head payload observedAt = .ok record)
    (n : Nat) :
    (n < record.line.length →
      AttestationLedger.open (base ++ (record.line ++ [lf]).take n) = (.ok handle, base)) ∧
    (record.line.length ≤ n → ReadsBack payload →
      AttestationLedger.open (base ++ (record.line ++ [lf]).take n) =
        (.ok ⟨handle.records ++ [record], (base ++ (record.line ++ [lf])).length⟩,
          base ++ (record.line ++ [lf]))) := by
  have hbase := hcurrent.terminated
  have hline := lf_not_mem_line record
  constructor
  · intro hn
    rw [List.take_append_of_le_length (Nat.le_of_lt hn)]
    refine (open_eq_ok_iff hbase (fun hmem => hline (List.mem_of_mem_take hmem)) hjson).mpr ?_
    rw [repairTail_take hjson record hn, List.append_nil]
    exact ⟨rfl, hcurrent.chain, hcurrent.offset⟩
  · intro hn hback
    obtain ⟨rfl, -⟩ := attest_eq_ok hattest
    have hchain := readAttestationChain_attest hbase hcurrent.chain hattest hback
    rcases Nat.eq_or_lt_of_le hn with rfl | hlt
    · rw [List.take_left]
      refine (open_eq_ok_iff hbase hline hjson).mpr ?_
      rw [repairTail_line hback]
      exact ⟨rfl, hchain, rfl⟩
    · have hlength : (record.line ++ [lf]).length ≤ n := by
        rw [List.length_append, List.length_singleton]
        omega
      have hterminated : Terminated lf (base ++ (record.line ++ [lf])) :=
        hbase.append (terminated_concat record.line)
      rw [List.take_of_length_le hlength]
      exact open_of_terminated hterminated hchain

/-- A handle reads what a fresh one would read from the same bytes, and leaves the same file. Of a
write that stops, all readers keep a record that lacks its line feed only, and remove less. -/
theorem cache_equals_cold_read (hjson : JsonText) (file : Bytes) (acts : List AttestationAct)
    (hback : ∀ act ∈ acts, act.ReadsBack) :
    let now := ({ file } : Attestations).run acts
    (∀ index records file', now.read (some index) = some (.ok records, file') →
      now.read none = some (.ok records, file')) ∧
    ∀ writer payload observedAt record, now.reply payload observedAt writer = some (.ok record) →
      ∃ records base, now.read none = some (.ok records, base) ∧
        ∀ n reader result,
          (now.step (.write payload observedAt (.stopped n) writer)).read reader = some result →
            (n < record.line.length → result = (.ok records, base)) ∧
            (record.line.length ≤ n → ReadsBack payload →
              result = (.ok (records ++ [record]), base ++ (record.line ++ [lf]))) := by
  intro now
  have hsound : now.Sound := by
    refine Attestations.Sound.run hjson ?_ hback
    intro handle hmem
    cases hmem
  constructor
  · intro index records file' hread
    exact (hsound.read hjson (Attestations.lt_of_read hread)).mp hread
  intro writer payload observedAt record hreply
  obtain ⟨handle, base, hopen, hattest, hwrite⟩ := hsound.write hjson hreply
  have hcurrent := AttestationLedger.current_of_open hjson hopen
  refine ⟨handle.records, base, Attestations.read_none hopen, fun n reader result hread => ?_⟩
  have htorn := hsound.step hjson (AttestationAct.readsBack_stopped payload observedAt n writer)
  obtain ⟨hremoved, hkept⟩ := open_stopped hjson hcurrent hattest n
  have hfile := hwrite (.stopped n)
  rw [WriteFate.write] at hfile
  rw [← hfile] at hremoved hkept
  constructor
  · intro hn
    exact htorn.read_eq hjson (Attestations.read_none (hremoved hn)) hread
  · intro hn hpayload
    exact htorn.read_eq hjson (Attestations.read_none (hkept hn hpayload)) hread

end Tally.Witness

/-! Two payloads, and the libraries as far as their records need them. -/

namespace Tally.Witness.AttestationSample

open Tally.Lib

def observedAt : String := "2026-01-01T00:00:00.000Z"

def counted : Value := .object [("n", natValue 1)]

/-- An empty array within arrays. -/
def nested : Nat → Value
  | 0 => .array []
  | n + 1 => .array [nested n]

/-- As deep as a text may be that is read. -/
def deep : Value := nested 126

def unhashed (payload : Value) : AttestationRecord :=
  { observedAt, payload, seq := 1, prevHash := genesisPrevHash, hash := "" }

/-- SHA-256 of the two inputs. -/
def digest (input : Bytes) : String :=
  if input = (unhashed counted).line then
    "a6374775287a01f3e531c4d7f57187bc4add55cecdfb63891a37bff2e14a28cb"
  else if input = (unhashed deep).line then
    "4ba21eb1c65ee0e895889c87d03b60d14811c240b70e1660edd45ea997a62c48"
  else ""

/-- The reader of compact text with the limit of the library, carriage returns behind it left out. -/
local instance libraries : Libraries :=
  { Sample.libraries with
    fromStr := fun text =>
      orError (readCompact 127 (text.rdropWhile (· == '\r'))) "not a compact text"
    sha256 := digest }

def record (payload : Value) : AttestationRecord :=
  { unhashed payload with hash := "sha256:" ++ digest (unhashed payload).line }

theorem attest_genesis (payload : Value) :
    attest genesis payload observedAt = .ok (record payload) := by
  unfold attest
  refine bind_ok_iff.mpr ⟨(record payload).hash, ?_, rfl⟩
  rw [AttestationRecord.toValue, computeHashValue_object]
  exact ⟨rfl, rfl⟩

theorem fromStr_eq_ok {text : List Char} {value : Value} :
    fromStr text = .ok value ↔ text.rdropWhile (· == '\r') = render value ∧ depth value ≤ 127 := by
  rw [← readCompact_eq_some_iff]
  exact orError_eq_ok

theorem rdropWhile_render (value : Value) :
    (render value).rdropWhile (· == '\r') = render value := by
  rw [List.rdropWhile_eq_self_iff]
  intro hne hlast
  have hcr : '\r' ∉ render value := not_mem_render rfl value
  rw [beq_iff_eq] at hlast
  exact hcr (hlast ▸ List.getLast_mem hne)

theorem jsonText : JsonText where
  carriageReturn text value := by
    rw [fromStr_eq_ok, fromStr_eq_ok, List.rdropWhile_concat_pos _ _ _ rfl]
  torn fields text hpre hne value hread := by
    obtain ⟨htext, -⟩ := fromStr_eq_ok.mp hread
    have hstripped : render value <+: text := htext ▸ List.rdropWhile_prefix _ _
    obtain ⟨rest, hrest⟩ := hstripped.trans hpre
    obtain ⟨rfl, -⟩ := eq_of_render_append hrest
    exact hne (hpre.eq_of_length_le hstripped.length_le)

theorem depth_nested (n : Nat) : depth (nested n) = n + 1 := by
  induction n with
  | zero => simp [nested, depth, itemsDepth]
  | succ n ih => simp [nested, depth, itemsDepth, ih]

theorem depth_toValue (record : AttestationRecord) :
    depth record.toValue = depth record.payload + 1 := by
  simp [AttestationRecord.toValue, depth, fieldsDepth, natValue]

theorem fromStr_render {value : Value} (h : depth value ≤ 127) :
    fromStr (render value) = .ok value :=
  fromStr_eq_ok.mpr ⟨rdropWhile_render value, h⟩

/-- A handle on an empty file appends a payload. -/
def appended (payload : Value) : Attestations :=
  ({ file := [] } : Attestations).run [.open, .append 0 payload observedAt .written]

theorem appended_eq (payload : Value) : appended payload =
    { file := (record payload).line ++ [lf]
      handles := [⟨[record payload], ((record payload).line ++ [lf]).length⟩] } := by
  have happend : AttestationLedger.append [] ⟨[], 0⟩ payload observedAt .written =
      ⟨.ok (record payload), ⟨[record payload], 0 + ((record payload).line ++ [lf]).length⟩,
        (record payload).line ++ [lf]⟩ := by
    have hrefresh : AttestationLedger.refreshLocked [] ⟨[], 0⟩ = (.ok ⟨[], 0⟩, []) := rfl
    unfold AttestationLedger.append
    rw [hrefresh]
    dsimp only
    have hattest : attest (AttestationLedger.Handle.head ⟨[], 0⟩) payload observedAt =
        .ok (record payload) := attest_genesis payload
    rw [hattest]
    rfl
  rw [Nat.zero_add] at happend
  exact congrArg
    (fun a : AttestationLedger.Appended => (⟨a.file, [a.handle]⟩ : Attestations)) happend

/-- The handle returns what it has cached. -/
theorem read_appended (payload : Value) : (appended payload).read (some 0) =
    some (.ok [record payload], (record payload).line ++ [lf]) := by
  rw [appended_eq, Attestations.read, List.getElem?_cons_zero, Option.map_some,
    AttestationLedger.records, AttestationLedger.refreshLocked, if_pos rfl]
  rfl

theorem readsBack_counted : ReadsBack counted := by
  refine ⟨fun record hpayload => fromStr_render ?_, rfl⟩
  rw [depth_toValue, hpayload]
  decide

/-- A fresh handle reads the record that the first handle has cached. -/
theorem cache_equals_cold_read_counted :
    (appended counted).read (some 0) = some (.ok [record counted], (record counted).line ++ [lf]) ∧
      (appended counted).read none = some (.ok [record counted], (record counted).line ++ [lf]) := by
  refine ⟨read_appended counted, ?_⟩
  refine (cache_equals_cold_read jsonText [] _ ?_).1 0 _ _ (read_appended counted)
  intro act hact
  rcases List.mem_cons.mp hact with rfl | hact
  · trivial
  · rw [List.mem_singleton.mp hact]
    exact fun _ => readsBack_counted

/-- A fresh handle does not read a record that is too deep. -/
theorem open_too_deep {payload : Value} (h : 127 ≤ depth payload)
    {handle : AttestationLedger.Handle} {file : Bytes} :
    AttestationLedger.open ((record payload).line ++ [lf]) ≠ (.ok handle, file) := by
  intro hopen
  rw [← List.append_nil ((record payload).line ++ [lf])] at hopen
  obtain ⟨hfile, hchain, -⟩ := (open_eq_ok_iff (terminated_concat (record payload).line)
    List.not_mem_nil jsonText).mp hopen
  have hrepair : repairTail [] = [] := if_pos rfl
  have hchomp : chomp (render (record payload).toValue ++ ['\n']) =
      render (record payload).toValue := chomp_render _
  rw [hrepair, List.append_nil] at hfile
  rw [hfile, readAttestationChain, readLines_line (lf_not_mem_line _), AttestationRecord.line,
    encode_line, checkChunks_cons (by rw [hchomp]; exact blank_object _), hchomp] at hchain
  obtain ⟨read, _, hcheck, -, -⟩ := hchain
  obtain ⟨raw, hraw, -⟩ := bind_ok_iff.mp hcheck
  obtain ⟨htext, hdepth⟩ := fromStr_eq_ok.mp (mapError_eq_ok.mp hraw)
  rw [rdropWhile_render, render_inj] at htext
  rw [← htext, depth_toValue] at hdepth
  have hpayload : (record payload).payload = payload := rfl
  rw [hpayload] at hdepth
  omega

theorem read_too_deep {payload : Value} (h : 127 ≤ depth payload)
    {records : List AttestationRecord} {file : Bytes} :
    (appended payload).read none ≠ some (.ok records, file) := by
  intro hread
  rw [appended_eq, Attestations.read] at hread
  rcases hopen : AttestationLedger.open ((record payload).line ++ [lf]) with ⟨result, file'⟩
  cases result with
  | error error =>
    dsimp only at hread
    rw [hopen] at hread
    cases hread
  | ok handle => exact open_too_deep h hopen

theorem depth_deep : depth deep = 127 := by
  rw [deep, depth_nested]

/-- A payload that can be read is cached in a record that cannot. -/
theorem deep_payload_cached :
    (fromStr (render deep) = .ok deep) ∧
      (appended deep).read (some 0) = some (.ok [record deep], (record deep).line ++ [lf]) ∧
      ∀ records file, (appended deep).read none ≠ some (.ok records, file) :=
  ⟨fromStr_render depth_deep.le, read_appended deep, fun _ _ => read_too_deep depth_deep.ge⟩

end Tally.Witness.AttestationSample
