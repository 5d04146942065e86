import Tally.Witness.Record
import Tally.Lib.Log
import Mathlib.Data.List.Sort
import Mathlib.Data.List.Dedup
import Mathlib.Data.Set.Function

/-!
# Verification of a ledger

`verify_reader` collects the problems of a whole ledger in passes over its valid lines;
`verify_suffix_bytes` fails at the first line that does not go on from a head. Both accept the same
bytes: the lines of entries that pass on their own and form a chain (`verifyReader_ok_iff`,
`verifySuffixBytes_eq_ok_iff`). So a ledger can be verified piece by piece, and the hash of its last
record determines all of it.
-/

namespace Tally.Witness

open Tally.Lib

variable [Libraries]

/-! ## The full verifier -/

structure VerifyProblem where
  seq : Option Nat
  line : Nat
  kind : VerifyProblemKind
  reason : String
  deriving DecidableEq

structure VerifyReport where
  ok : Bool
  records : Nat
  firstSeq : Option Nat
  lastSeq : Option Nat
  problems : List VerifyProblem
  deriving DecidableEq

structure ParsedRecord where
  record : WitnessRecord
  raw : Value
  line : Nat
  deriving DecidableEq

/-- What `read_line` returns one after the other. -/
def readLines (bytes : Bytes) : List Bytes :=
  let (lines, tail) := split lf bytes
  lines.map (· ++ [lf]) ++ if tail.isEmpty then [] else [tail]

/-- `raw.get("seq").and_then(Value::as_u64)`. -/
def rawSeq (raw : Value) : Option Nat :=
  (asObject raw).bind fun fields => (fields.get? "seq").bind asU64

/-- The first byte in which the texts differ. -/
def mismatchOffset (a b : List Char) : Nat :=
  (((encode a).zip (encode b)).findIdx? fun (x, y) => x ≠ y).getD
    (min (encode a).length (encode b).length)

/-- One line of the file, with its line feed. -/
def verifyLine (number : Nat) (text : List Char) : Except VerifyProblem ParsedRecord := do
  ensure (text.getLast? = some '\n') ⟨none, number, .parseError, "record is not LF-terminated"⟩
  let line := text.dropLast
  ensure (blank line = false)
    ⟨none, number, .parseError, "blank lines are not canonical witness records"⟩
  let raw ← (fromStr line).mapError fun _ => ⟨none, number, .parseError, "line is not valid JSON"⟩
  ensure (render raw = line) ⟨rawSeq raw, number, .invalidRecord,
    "record bytes are not compact canonical JSON at byte " ++ (mismatchOffset line (render raw)).repr⟩
  let record ← (validateRecord raw).mapError fun failure =>
    ⟨rawSeq raw, number, failure.kind, failure.reason⟩
  return { record, raw, line := number }

/-- The problems of the lines and the valid ones. A line that is not text ends the reading. -/
def readLoop (number : Nat) : List Bytes → List VerifyProblem × List ParsedRecord
  | [] => ([], [])
  | chunk :: rest =>
    match decode chunk with
    | none => ([⟨none, number + 1, .parseError,
        "cannot read line: stream did not contain valid UTF-8"⟩], [])
    | some text =>
      let (problems, valid) := readLoop (number + 1) rest
      match verifyLine (number + 1) text with
      | .error problem => (problem :: problems, valid)
      | .ok parsed => (problems, parsed :: valid)

def hashProblem (parsed : ParsedRecord) : Option VerifyProblem :=
  match computeHashValue parsed.raw with
  | .ok recomputed =>
    if recomputed ≠ parsed.record.hash then
      some ⟨some parsed.record.seq, parsed.line, .hashMismatch,
        "stored hash " ++ parsed.record.hash ++ " != recomputed " ++ recomputed ++ " (line tampered)"⟩
    else none
  | .error error => some ⟨some parsed.record.seq, parsed.line, .invalidRecord, error.message⟩

def linkProblems (previousHash : String) : List ParsedRecord → List VerifyProblem
  | [] => []
  | parsed :: rest =>
    let problems := linkProblems parsed.record.hash rest
    if parsed.record.prevHash ≠ previousHash then
      ⟨some parsed.record.seq, parsed.line, .prevHashMismatch,
        "prev_hash " ++ parsed.record.prevHash ++ " != predecessor hash " ++ previousHash ++
          " (chain broken)"⟩ :: problems
    else problems

def orderProblems (previousSeq : Nat) : List ParsedRecord → List VerifyProblem
  | [] => []
  | parsed :: rest =>
    let problems := orderProblems parsed.record.seq rest
    if parsed.record.seq ≤ previousSeq then
      ⟨some parsed.record.seq, parsed.line, .seqOrder,
        "seq " ++ parsed.record.seq.repr ++ " does not strictly follow " ++ previousSeq.repr ++
          " (reordered or duplicate)"⟩ :: problems
    else problems

def duplicateProblems (sequences : List Nat) : List ParsedRecord → List VerifyProblem
  | [] => []
  | parsed :: rest =>
    let problems := duplicateProblems (parsed.record.seq :: sequences) rest
    if parsed.record.seq ∈ sequences then
      ⟨some parsed.record.seq, parsed.line, .seqDuplicate,
        "seq " ++ parsed.record.seq.repr ++ " appears more than once"⟩ :: problems
    else problems

/-- The sequence numbers in increasing order, each once. -/
def sequences (valid : List ParsedRecord) : List Nat :=
  (valid.map (·.record.seq)).dedup.insertionSort (· ≤ ·)

/-- The line of the last record with a sequence number. -/
def sequenceLine (valid : List ParsedRecord) (seq : Nat) : Nat :=
  (valid.reverse.find? fun parsed => parsed.record.seq = seq).elim 0 (·.line)

/-- The first of the sequence numbers that is not the expected one. -/
def gapProblem (valid : List ParsedRecord) (expected : Nat) : List Nat → Option VerifyProblem
  | [] => none
  | sequence :: rest =>
    if sequence ≠ expected then
      some ⟨some sequence, sequenceLine valid sequence, .seqGap,
        "expected seq " ++ expected.repr ++ " but found " ++ sequence.repr ++ " (missing line)"⟩
    else gapProblem valid (expected + 1) rest

/-- The valid lines of a ledger. -/
def validRecords (bytes : Bytes) : List ParsedRecord := (readLoop 0 (readLines bytes)).2

def verifyReader (bytes : Bytes) : VerifyReport :=
  let (problems, valid) := readLoop 0 (readLines bytes)
  let problems := problems ++ valid.filterMap hashProblem ++ linkProblems genesisPrevHash valid ++
    orderProblems 0 valid ++ duplicateProblems [] valid ++ (gapProblem valid 1 (sequences valid)).toList
  { ok := problems.isEmpty, records := valid.length, firstSeq := valid.head?.map (·.record.seq)
    lastSeq := valid.getLast?.map (·.record.seq), problems }

/-! ## The suffix verifier -/

def suffixLoop (head : ChainHead) : List (List Char) → Except WitnessError (List WitnessRecord)
  | [] => .ok []
  | line :: rest => do
    ensure (blank line = false) (.corrupt "blank lines are not canonical witness records")
    let raw ← (fromStr line).mapError fun _ => .corrupt "suffix line is not valid JSON"
    ensure (render raw = line) (.corrupt "suffix record bytes are not compact canonical JSON")
    let record ← (validateRecord raw).mapError fun failure => .corrupt failure.reason
    let hash ← computeHashValue raw
    ensure (hash = record.hash)
      (.corrupt ("suffix record " ++ record.seq.repr ++ " hash does not match its bytes"))
    ensure (record.prevHash = head.hash ∧ record.seq = head.seq + 1)
      (.corrupt ("suffix record " ++ record.seq.repr ++ " does not chain from the verified head " ++
        head.seq.repr))
    let records ← suffixLoop (recordLinks.headOf record) rest
    return record :: records

def verifySuffixBytes (bytes : Bytes) (head : ChainHead) : Except WitnessError (List WitnessRecord) :=
  do
    let text ← orError (decode bytes) (.corrupt "ledger suffix is not UTF-8")
    suffixLoop head (pieces '\n' text)

/-! ## Entries -/

/-- A line that passes on its own. -/
structure Entry where
  raw : Value
  record : WitnessRecord
  reads : fromStr (render raw) = .ok raw
  valid : validateRecord raw = .ok record
  hashed : computeHashValue raw = .ok record.hash

namespace Entry

def line (entry : Entry) : List Char := render entry.raw

theorem newline_not_mem_line (entry : Entry) : '\n' ∉ entry.line := newline_not_mem_render entry.raw

theorem blank_line (entry : Entry) : blank entry.line = false := by
  obtain ⟨fields, hraw, -⟩ := validateRecord_fields entry.valid
  rw [line, hraw]
  exact blank_object fields

/-- A line is read in one way. -/
theorem ext_line {a b : Entry} (h : a.line = b.line) : a = b := by
  obtain ⟨raw, record, _, valid, _⟩ := a
  obtain ⟨raw', record', _, valid', _⟩ := b
  obtain rfl : raw = raw' := render_inj.mp h
  rw [valid] at valid'
  cases valid'
  rfl

end Entry

/-- The bytes of a ledger. -/
def ledgerBytes (entries : List Entry) : Bytes := encode (terminate '\n' (entries.map Entry.line))

/-- The entries of a ledger, in the chain that starts at a head. -/
def Chained (head : ChainHead) (entries : List Entry) : Prop :=
  recordLinks.Chained head (entries.map (·.record))

theorem ledgerBytes_append (a b : List Entry) :
    ledgerBytes (a ++ b) = ledgerBytes a ++ ledgerBytes b := by
  rw [ledgerBytes, List.map_append, terminate_append, encode_append]
  rfl

theorem split_lines (entries : List Entry) :
    split '\n' (terminate '\n' (entries.map Entry.line)) = (entries.map Entry.line, []) := by
  refine split_terminated fun line hline => ?_
  obtain ⟨entry, -, rfl⟩ := List.mem_map.mp hline
  exact entry.newline_not_mem_line

theorem terminated_ledgerBytes (entries : List Entry) : Terminated lf (ledgerBytes entries) := by
  rw [terminated_iff, ledgerBytes, split_encode, split_lines]
  rfl

/-- A ledger has one list of entries. -/
theorem ledgerBytes_inj {a b : List Entry} (h : ledgerBytes a = ledgerBytes b) : a = b := by
  have htext := congrArg (fun text => (split '\n' text).1) (encode_inj.mp h)
  simp only [split_lines] at htext
  exact (List.map_inj_right fun _ _ => Entry.ext_line).mp htext

/-! ## What the suffix verifier accepts -/

/-- A line that is accepted after a head is an entry that follows it. -/
theorem suffixLoop_cons_eq_ok {head : ChainHead} {line : List Char} {rest : List (List Char)}
    {records : List WitnessRecord} :
    suffixLoop head (line :: rest) = .ok records ↔ ∃ (entry : Entry) (more : List WitnessRecord),
      line = entry.line ∧ recordLinks.Follows head entry.record ∧
        suffixLoop (recordLinks.headOf entry.record) rest = .ok more ∧
        records = entry.record :: more := by
  rw [suffixLoop]
  constructor
  · intro h
    obtain ⟨-, h⟩ := ensure_bind_ok_iff.mp h
    obtain ⟨raw, hraw, h⟩ := bind_ok_iff.mp h
    rw [mapError_eq_ok] at hraw
    obtain ⟨hcanonical, h⟩ := ensure_bind_ok_iff.mp h
    obtain ⟨record, hrecord, h⟩ := bind_ok_iff.mp h
    rw [mapError_eq_ok] at hrecord
    obtain ⟨hash, hhash, h⟩ := bind_ok_iff.mp h
    obtain ⟨hstored, h⟩ := ensure_bind_ok_iff.mp h
    obtain ⟨hfollows, h⟩ := ensure_bind_ok_iff.mp h
    obtain ⟨more, hmore, h⟩ := bind_ok_iff.mp h
    cases h
    subst hcanonical hstored
    exact ⟨⟨raw, record, hraw, hrecord, hhash⟩, more, rfl, hfollows.symm, hmore, rfl⟩
  · rintro ⟨entry, more, rfl, hfollows, hmore, rfl⟩
    refine ensure_bind_ok_iff.mpr ⟨entry.blank_line, ?_⟩
    refine bind_ok_iff.mpr ⟨entry.raw, mapError_eq_ok.mpr entry.reads, ?_⟩
    refine ensure_bind_ok_iff.mpr ⟨rfl, ?_⟩
    refine bind_ok_iff.mpr ⟨entry.record, mapError_eq_ok.mpr entry.valid, ?_⟩
    refine bind_ok_iff.mpr ⟨entry.record.hash, entry.hashed, ?_⟩
    refine ensure_bind_ok_iff.mpr ⟨rfl, ?_⟩
    refine ensure_bind_ok_iff.mpr ⟨hfollows.symm, ?_⟩
    exact bind_ok_iff.mpr ⟨more, hmore, rfl⟩

theorem suffixLoop_eq_ok {head : ChainHead} {lines : List (List Char)}
    {records : List WitnessRecord} :
    suffixLoop head lines = .ok records ↔ ∃ entries : List Entry,
      lines = entries.map Entry.line ∧ Chained head entries ∧
        records = entries.map (·.record) := by
  induction lines generalizing head records with
  | nil =>
    constructor
    · intro h
      cases h
      exact ⟨[], rfl, trivial, rfl⟩
    · rintro ⟨entries, hlines, -, rfl⟩
      rw [List.map_eq_nil_iff.mp hlines.symm]
      rfl
  | cons line rest ih =>
    rw [suffixLoop_cons_eq_ok]
    constructor
    · rintro ⟨entry, more, rfl, hfollows, hmore, rfl⟩
      obtain ⟨entries, rfl, hchained, rfl⟩ := ih.mp hmore
      exact ⟨entry :: entries, rfl, ⟨hfollows, hchained⟩, rfl⟩
    · rintro ⟨entries, hlines, hchained, rfl⟩
      cases entries with
      | nil => cases hlines
      | cons entry entries =>
        cases hlines
        exact ⟨entry, _, rfl, hchained.1, ih.mpr ⟨entries, rfl, hchained.2, rfl⟩, rfl⟩

/-- The suffix verifier accepts the lines of a chain that goes on from the head. -/
theorem verifySuffixBytes_eq_ok_iff {bytes : Bytes} {head : ChainHead}
    {records : List WitnessRecord} (hterminated : (split lf bytes).2 = []) :
    verifySuffixBytes bytes head = .ok records ↔ ∃ entries : List Entry,
      bytes = ledgerBytes entries ∧ Chained head entries ∧ records = entries.map (·.record) := by
  unfold verifySuffixBytes
  rw [orError_bind_ok_iff]
  constructor
  · rintro ⟨text, htext, h⟩
    obtain rfl := decode_eq_some_iff.mp htext
    obtain ⟨entries, hlines, hchained, rfl⟩ := suffixLoop_eq_ok.mp h
    refine ⟨entries, ?_, hchained, rfl⟩
    rw [split_encode] at hterminated
    have htail : (split '\n' text).2 = [] := encode_inj.mp hterminated
    have htext := terminate_split '\n' text
    rw [pieces_of_complete htail] at hlines
    rw [htail, List.append_nil, hlines] at htext
    rw [ledgerBytes, htext]
  · rintro ⟨entries, rfl, hchained, rfl⟩
    refine ⟨_, decode_encode _, suffixLoop_eq_ok.mpr ⟨entries, ?_, hchained, rfl⟩⟩
    rw [pieces_of_complete (by rw [split_lines]), split_lines]

/-! ## What the full verifier accepts -/

theorem verifyLine_eq_ok {number : Nat} {text : List Char} {parsed : ParsedRecord} :
    verifyLine number text = .ok parsed ↔ text = render parsed.raw ++ ['\n'] ∧
      blank (render parsed.raw) = false ∧ fromStr (render parsed.raw) = .ok parsed.raw ∧
      validateRecord parsed.raw = .ok parsed.record ∧ parsed.line = number := by
  unfold verifyLine
  constructor
  · intro h
    obtain ⟨hlf, h⟩ := ensure_bind_ok_iff.mp h
    obtain ⟨hblank, h⟩ := ensure_bind_ok_iff.mp h
    obtain ⟨raw, hraw, h⟩ := bind_ok_iff.mp h
    rw [mapError_eq_ok] at hraw
    obtain ⟨hcanonical, h⟩ := ensure_bind_ok_iff.mp h
    obtain ⟨record, hrecord, h⟩ := bind_ok_iff.mp h
    rw [mapError_eq_ok] at hrecord
    cases h
    rw [← hcanonical] at hblank hraw
    refine ⟨?_, hblank, hraw, hrecord, rfl⟩
    rw [hcanonical]
    exact (List.dropLast_append_getLast? _ hlf).symm
  · rintro ⟨rfl, hblank, hraw, hrecord, rfl⟩
    have hdrop : (render parsed.raw ++ ['\n']).dropLast = render parsed.raw := List.dropLast_concat
    refine ensure_bind_ok_iff.mpr ⟨by simp, ?_⟩
    dsimp only
    rw [hdrop]
    refine ensure_bind_ok_iff.mpr ⟨hblank, ?_⟩
    refine bind_ok_iff.mpr ⟨parsed.raw, mapError_eq_ok.mpr hraw, ?_⟩
    refine ensure_bind_ok_iff.mpr ⟨rfl, ?_⟩
    exact bind_ok_iff.mpr ⟨parsed.record, mapError_eq_ok.mpr hrecord, rfl⟩

/-- The bytes of a line with its line feed. -/
def chunk (raw : Value) : Bytes := encode (render raw ++ ['\n'])

/-- Lines without problems are the texts of the valid ones. -/
theorem readLoop_clean {number : Nat} {chunks : List Bytes}
    (h : (readLoop number chunks).1 = []) :
    chunks = (readLoop number chunks).2.map (chunk ·.raw) ∧
      ∀ parsed ∈ (readLoop number chunks).2, fromStr (render parsed.raw) = .ok parsed.raw ∧
        validateRecord parsed.raw = .ok parsed.record := by
  induction chunks generalizing number with
  | nil =>
    refine ⟨rfl, fun parsed hparsed => ?_⟩
    rw [readLoop] at hparsed
    cases hparsed
  | cons bytes rest ih =>
    rw [readLoop] at h ⊢
    cases hdecode : decode bytes with
    | none => simp [hdecode] at h
    | some text =>
      simp only [hdecode] at h ⊢
      cases hline : verifyLine (number + 1) text with
      | error problem => simp [hline] at h
      | ok parsed =>
        simp only [hline] at h ⊢
        obtain ⟨hrest, hall⟩ := ih h
        obtain ⟨htext, -, hreads, hvalid, -⟩ := verifyLine_eq_ok.mp hline
        refine ⟨?_, ?_⟩
        · rw [List.map_cons, ← hrest, decode_eq_some_iff.mp hdecode, htext]
          rfl
        · rintro other (_ | ⟨_, hother⟩)
          · exact ⟨hreads, hvalid⟩
          · exact hall other hother

/-- The entries as the reading loop returns them. -/
def parsedEntries (number : Nat) : List Entry → List ParsedRecord
  | [] => []
  | entry :: rest =>
    { record := entry.record, raw := entry.raw, line := number + 1 } :: parsedEntries (number + 1) rest

theorem map_record_parsedEntries (number : Nat) (entries : List Entry) :
    (parsedEntries number entries).map (·.record) = entries.map (·.record) := by
  induction entries generalizing number with
  | nil => rfl
  | cons entry rest ih => rw [parsedEntries, List.map_cons, ih, List.map_cons]

theorem hashed_of_mem_parsedEntries {number : Nat} {entries : List Entry} {parsed : ParsedRecord}
    (h : parsed ∈ parsedEntries number entries) :
    computeHashValue parsed.raw = .ok parsed.record.hash := by
  induction entries generalizing number with
  | nil => cases h
  | cons entry rest ih =>
    rcases List.mem_cons.mp h with rfl | h
    · exact entry.hashed
    · exact ih h

theorem readLoop_entries (number : Nat) (entries : List Entry) :
    readLoop number (entries.map (chunk ·.raw)) = ([], parsedEntries number entries) := by
  induction entries generalizing number with
  | nil => rfl
  | cons entry rest ih =>
    have hline : verifyLine (number + 1) (render entry.raw ++ ['\n']) =
        .ok { record := entry.record, raw := entry.raw, line := number + 1 } :=
      verifyLine_eq_ok.mpr ⟨rfl, entry.blank_line, entry.reads, entry.valid, rfl⟩
    rw [List.map_cons, readLoop, chunk, decode_encode]
    simp only [ih, hline]
    rfl

theorem readLines_ledgerBytes (entries : List Entry) :
    readLines (ledgerBytes entries) = entries.map (chunk ·.raw) := by
  rw [readLines, ledgerBytes, split_encode, split_lines]
  simp only [encode_nil, List.isEmpty_nil, if_true, List.append_nil, List.map_map]
  refine List.map_congr_left fun entry _ => ?_
  simp only [Function.comp_apply, chunk, Entry.line, encode_append]
  rfl

omit [Libraries] in
theorem flatten_readLines (bytes : Bytes) : (readLines bytes).flatten = bytes := by
  have hsplit := terminate_split lf bytes
  unfold readLines
  rcases hlines : split lf bytes with ⟨lines, tail⟩
  rw [hlines] at hsplit
  dsimp only at hsplit ⊢
  rw [← hsplit]
  rw [List.flatten_append, terminate, List.flatMap_def]
  congr 1
  cases tail with
  | nil => rfl
  | cons byte tail => exact List.append_nil _

/-! ## The passes -/

theorem hashProblem_eq_none {parsed : ParsedRecord} :
    hashProblem parsed = none ↔ computeHashValue parsed.raw = .ok parsed.record.hash := by
  unfold hashProblem
  cases computeHashValue parsed.raw with
  | error error => simp
  | ok recomputed => simp

section Passes

omit [Libraries]

theorem linkProblems_eq_nil {hash : String} {valid : List ParsedRecord} :
    linkProblems hash valid = [] ↔ recordLinks.Linked hash (valid.map (·.record)) := by
  induction valid generalizing hash with
  | nil => simp [linkProblems, Links.Linked]
  | cons parsed rest ih =>
    rw [linkProblems, List.map_cons, Links.Linked]
    split
    · next hne => exact ⟨fun h => (by cases h), fun h => absurd h.1 hne⟩
    · next heq => exact ⟨fun h => ⟨of_not_not heq, ih.mp h⟩, fun h => ih.mpr h.2⟩

theorem orderProblems_eq_nil {previous : Nat} {valid : List ParsedRecord} :
    orderProblems previous valid = [] ↔ (previous :: valid.map (·.record.seq)).IsChain (· < ·) := by
  induction valid generalizing previous with
  | nil => simp [orderProblems]
  | cons parsed rest ih =>
    rw [orderProblems, List.map_cons, List.isChain_cons_cons, ← ih]
    split
    · next hle => exact ⟨fun h => (by cases h), fun h => absurd h.1 (by omega)⟩
    · next hlt => exact ⟨fun h => ⟨by omega, h⟩, fun h => h.2⟩

theorem duplicateProblems_eq_nil {seen : List Nat} {valid : List ParsedRecord}
    (hnodup : (valid.map (·.record.seq)).Nodup)
    (hseen : ∀ parsed ∈ valid, parsed.record.seq ∉ seen) : duplicateProblems seen valid = [] := by
  induction valid generalizing seen with
  | nil => rfl
  | cons parsed rest ih =>
    rw [List.map_cons, List.nodup_cons] at hnodup
    rw [duplicateProblems, if_neg (hseen parsed List.mem_cons_self)]
    refine ih hnodup.2 fun other hother => ?_
    rw [List.mem_cons, not_or]
    refine ⟨fun heq => hnodup.1 ?_, hseen other (List.mem_cons_of_mem _ hother)⟩
    exact List.mem_map.mpr ⟨other, hother, heq⟩

theorem gapProblem_eq_none {valid : List ParsedRecord} {expected : Nat} {seqs : List Nat} :
    gapProblem valid expected seqs = none ↔ seqs = List.range' expected seqs.length := by
  induction seqs generalizing expected with
  | nil => simp [gapProblem]
  | cons sequence rest ih =>
    rw [gapProblem, List.length_cons, List.range'_succ, List.cons.injEq, ← ih]
    split
    · next hne => exact ⟨fun h => (by cases h), fun h => absurd h.1 hne⟩
    · next heq => exact ⟨fun h => ⟨of_not_not heq, h⟩, fun h => h.2⟩

/-- In strict order the sequence numbers are already sorted and distinct. -/
theorem sequences_eq {valid : List ParsedRecord}
    (h : (valid.map (·.record.seq)).Pairwise (· < ·)) :
    sequences valid = valid.map (·.record.seq) := by
  have hnodup : (valid.map (·.record.seq)).Nodup := h.imp fun hlt => Nat.ne_of_lt hlt
  rw [sequences, hnodup.dedup]
  exact (h.imp fun hlt => Nat.le_of_lt hlt).insertionSort_eq

/-- The four passes over the links and the numbers are clean for a chain. -/
theorem passes_clean_iff {valid : List ParsedRecord} :
    (linkProblems genesisPrevHash valid = [] ∧ orderProblems 0 valid = [] ∧
      duplicateProblems [] valid = [] ∧ gapProblem valid 1 (sequences valid) = none) ↔
    recordLinks.Chained genesis (valid.map (·.record)) := by
  have hseq : (valid.map (·.record)).map recordLinks.seq = valid.map (·.record.seq) := by
    rw [List.map_map]
    rfl
  rw [Links.chained_iff, hseq, List.length_map, linkProblems_eq_nil, orderProblems_eq_nil]
  constructor
  · rintro ⟨hlinked, horder, -, hgap⟩
    have hpairwise := (List.isChain_iff_pairwise.mp horder).tail
    rw [List.tail_cons] at hpairwise
    rw [sequences_eq hpairwise, gapProblem_eq_none, List.length_map] at hgap
    exact ⟨hlinked, hgap⟩
  · rintro ⟨hlinked, hrange⟩
    have hpairwise : (valid.map (·.record.seq)).Pairwise (· < ·) := by
      rw [hrange]
      exact List.pairwise_lt_range'
    refine ⟨hlinked, ?_, ?_, ?_⟩
    · rw [List.isChain_iff_pairwise, List.pairwise_cons]
      refine ⟨fun seq hseq => ?_, hpairwise⟩
      rw [hrange, List.mem_range'_1] at hseq
      have hgenesis : genesis.seq = 0 := rfl
      omega
    · exact duplicateProblems_eq_nil (hpairwise.imp fun hlt => Nat.ne_of_lt hlt) fun _ _ => List.not_mem_nil
    · rw [sequences_eq hpairwise, gapProblem_eq_none, List.length_map]
      exact hrange

end Passes

theorem verifyReader_ok {bytes : Bytes} : (verifyReader bytes).ok = true ↔
    (readLoop 0 (readLines bytes)).1 = [] ∧
    (∀ parsed ∈ validRecords bytes, computeHashValue parsed.raw = .ok parsed.record.hash) ∧
    recordLinks.Chained genesis ((validRecords bytes).map (·.record)) := by
  rw [← passes_clean_iff, verifyReader, validRecords]
  rcases readLoop 0 (readLines bytes) with ⟨problems, valid⟩
  simp only [List.isEmpty_iff, List.append_eq_nil_iff, List.filterMap_eq_nil_iff,
    hashProblem_eq_none, Option.toList_eq_nil_iff, and_assoc]

/-- The entries of lines that pass on their own. -/
theorem exists_entries {valid : List ParsedRecord}
    (h : ∀ parsed ∈ valid, (fromStr (render parsed.raw) = .ok parsed.raw ∧
      validateRecord parsed.raw = .ok parsed.record) ∧
      computeHashValue parsed.raw = .ok parsed.record.hash) :
    ∃ entries : List Entry, entries.map (·.raw) = valid.map (·.raw) ∧
      entries.map (·.record) = valid.map (·.record) := by
  induction valid with
  | nil => exact ⟨[], rfl, rfl⟩
  | cons parsed rest ih =>
    obtain ⟨entries, hraw, hrecord⟩ := ih fun other hother => h other (List.mem_cons_of_mem _ hother)
    obtain ⟨⟨hreads, hvalid⟩, hhashed⟩ := h parsed List.mem_cons_self
    refine ⟨⟨parsed.raw, parsed.record, hreads, hvalid, hhashed⟩ :: entries, ?_, ?_⟩
    · rw [List.map_cons, List.map_cons, hraw]
    · rw [List.map_cons, List.map_cons, hrecord]

/-- The full verifier accepts the lines of a chain that starts at the genesis. -/
theorem verifyReader_ok_iff {bytes : Bytes} : (verifyReader bytes).ok = true ↔
    ∃ entries : List Entry, bytes = ledgerBytes entries ∧ Chained genesis entries := by
  constructor
  · intro h
    obtain ⟨hclean, hhashed, hchained⟩ := verifyReader_ok.mp h
    obtain ⟨hchunks, hvalid⟩ := readLoop_clean hclean
    obtain ⟨entries, hraw, hrecord⟩ := exists_entries fun parsed hparsed =>
      ⟨hvalid parsed hparsed, hhashed parsed hparsed⟩
    refine ⟨entries, ?_, by rw [Chained, hrecord]; exact hchained⟩
    have hmap : (readLoop 0 (readLines bytes)).2.map (chunk ·.raw) = entries.map (chunk ·.raw) := by
      have hchunk := congrArg (List.map chunk) hraw
      rw [List.map_map, List.map_map] at hchunk
      exact hchunk.symm
    rw [← flatten_readLines bytes, hchunks, hmap, ← readLines_ledgerBytes, flatten_readLines]
  · rintro ⟨entries, rfl, hchained⟩
    rw [verifyReader_ok, validRecords, readLines_ledgerBytes, readLoop_entries]
    refine ⟨rfl, fun parsed hparsed => hashed_of_mem_parsedEntries hparsed, ?_⟩
    rw [map_record_parsedEntries]
    exact hchained

theorem validRecords_ledgerBytes (entries : List Entry) :
    (validRecords (ledgerBytes entries)).map (·.record) = entries.map (·.record) := by
  rw [validRecords, readLines_ledgerBytes, readLoop_entries, map_record_parsedEntries]

theorem records_ledgerBytes (entries : List Entry) :
    (verifyReader (ledgerBytes entries)).records = entries.length := by
  have hlength := congrArg List.length (validRecords_ledgerBytes entries)
  rwa [List.length_map, List.length_map] at hlength

/-! ## Piece by piece -/

/-- The sequence number and the hash of the last record, or the genesis. -/
def ledgerHead (bytes : Bytes) : ChainHead :=
  match (validRecords bytes).getLast? with
  | none => genesis
  | some parsed => ⟨parsed.record.seq, parsed.record.hash⟩

theorem ledgerHead_ledgerBytes (entries : List Entry) :
    ledgerHead (ledgerBytes entries) = recordLinks.lastHead genesis (entries.map (·.record)) := by
  rw [← validRecords_ledgerBytes, Links.lastHead_eq_getLast?, List.getLast?_map, ledgerHead]
  cases (validRecords (ledgerBytes entries)).getLast? <;> rfl

/-- The suffix verifier accepts a file from the genesis when the full verifier does. -/
theorem verifyReader_ok_iff_suffix {bytes : Bytes} (h : Terminated lf bytes) :
    (verifyReader bytes).ok = true ↔ ∃ records, verifySuffixBytes bytes genesis = .ok records := by
  rw [verifyReader_ok_iff]
  constructor
  · rintro ⟨entries, hbytes, hchained⟩
    exact ⟨_, (verifySuffixBytes_eq_ok_iff (terminated_iff.mp h)).mpr
      ⟨entries, hbytes, hchained, rfl⟩⟩
  · rintro ⟨records, hrecords⟩
    obtain ⟨entries, hbytes, hchained, -⟩ :=
      (verifySuffixBytes_eq_ok_iff (terminated_iff.mp h)).mp hrecords
    exact ⟨entries, hbytes, hchained⟩

/-- A ledger that begins with another one has its entries first. -/
theorem exists_suffix_entries {a : List Entry} {s : Bytes} {entries : List Entry}
    (h : ledgerBytes a ++ s = ledgerBytes entries) :
    ∃ b : List Entry, entries = a ++ b ∧ s = ledgerBytes b := by
  have hlines : ∀ es : List Entry, split lf (ledgerBytes es) =
      (es.map fun e => encode e.line, []) := by
    intro es
    rw [ledgerBytes, split_encode, split_lines, List.map_map, encode_nil]
    rfl
  have hsplit : entries.map (fun e => encode e.line) =
      a.map (fun e => encode e.line) ++ (split lf s).1 := by
    have happend := split_append (congrArg Prod.snd (hlines a)) s
    rw [h, hlines, hlines] at happend
    exact congrArg Prod.fst happend
  obtain ⟨a', b, rfl, ha, -⟩ := List.map_eq_append_iff.mp hsplit
  have haa : a' = a := (List.map_inj_right fun _ _ heq => Entry.ext_line (encode_inj.mp heq)).mp ha
  subst haa
  refine ⟨b, rfl, ?_⟩
  rw [ledgerBytes_append] at h
  exact List.append_cancel_left h

/-- A ledger can be verified piece by piece: behind a verified part, the suffix verifier accepts what
the full verifier accepts as a whole, and returns the records that are new. -/
theorem verify_suffix_agrees {p s : Bytes} (hp : Terminated lf p) (hs : Terminated lf s) :
    ((verifyReader p).ok = true →
      ((verifyReader (p ++ s)).ok = true ↔
        ∃ records, verifySuffixBytes s (ledgerHead p) = .ok records) ∧
      ∀ records, verifySuffixBytes s (ledgerHead p) = .ok records →
        (validRecords (p ++ s)).map (·.record) = (validRecords p).map (·.record) ++ records) ∧
    ((verifyReader s).ok = true ↔ ∃ records, verifySuffixBytes s genesis = .ok records) := by
  refine ⟨fun hok => ?_, verifyReader_ok_iff_suffix hs⟩
  have hsuffix := terminated_iff.mp hs
  obtain ⟨a, rfl, ha⟩ := verifyReader_ok_iff.mp hok
  rw [ledgerHead_ledgerBytes]
  refine ⟨⟨fun h => ?_, fun ⟨records, h⟩ => ?_⟩, fun records h => ?_⟩
  · obtain ⟨entries, hbytes, hchained⟩ := verifyReader_ok_iff.mp h
    obtain ⟨b, rfl, rfl⟩ := exists_suffix_entries hbytes
    rw [Chained, List.map_append, Links.chained_append] at hchained
    exact ⟨_, (verifySuffixBytes_eq_ok_iff hsuffix).mpr ⟨b, rfl, hchained.2, rfl⟩⟩
  · obtain ⟨b, rfl, hb, -⟩ := (verifySuffixBytes_eq_ok_iff hsuffix).mp h
    refine verifyReader_ok_iff.mpr ⟨a ++ b, (ledgerBytes_append a b).symm, ?_⟩
    rw [Chained, List.map_append, Links.chained_append]
    exact ⟨ha, hb⟩
  · obtain ⟨b, rfl, hb, rfl⟩ := (verifySuffixBytes_eq_ok_iff hsuffix).mp h
    rw [← ledgerBytes_append, validRecords_ledgerBytes, validRecords_ledgerBytes, List.map_append]

/-! ## What the last hash commits to -/

/-- The texts that are hashed when a ledger is verified. -/
def hashInputs (bytes : Bytes) : Set Bytes :=
  { input | ∃ parsed ∈ validRecords bytes, ∃ text, canonicalHashInput parsed.raw = .ok text ∧
    input = encode text }

theorem mem_hashInputs {entries : List Entry} {entry : Entry} {fields : Fields}
    (hentry : entry ∈ entries) (hraw : entry.raw = .object fields) :
    hashInput fields ∈ hashInputs (ledgerBytes entries) := by
  have hmem : ∀ {number : Nat} {entries : List Entry}, entry ∈ entries →
      ∃ parsed ∈ parsedEntries number entries, parsed.raw = entry.raw := by
    intro number entries hentry
    induction entries generalizing number with
    | nil => cases hentry
    | cons first rest ih =>
      rcases List.mem_cons.mp hentry with rfl | hentry
      · exact ⟨_, List.mem_cons_self, rfl⟩
      · obtain ⟨parsed, hparsed, hraw⟩ := ih hentry
        exact ⟨parsed, List.mem_cons_of_mem _ hparsed, hraw⟩
  obtain ⟨parsed, hparsed, hsame⟩ := hmem hentry
  refine ⟨parsed, ?_, render (.object (Fields.insert fields "hash" (.string ""))), ?_, rfl⟩
  · rw [validRecords, readLines_ledgerBytes, readLoop_entries]
    exact hparsed
  · have hhashed := entry.hashed
    rw [hraw, computeHashValue_object] at hhashed
    rw [hsame, hraw, canonicalHashInput]
    refine bind_ok_iff.mpr ⟨fields, rfl, ?_⟩
    exact ensure_bind_ok_iff.mpr ⟨hhashed.1, rfl⟩

/-- Where the hash function keeps their inputs apart, entries with the same hash are the same. -/
theorem Entry.eq_of_hash_eq {x y : Entry} {inputs : Set Bytes} (hinj : Set.InjOn sha256 inputs)
    (hx : ∀ fields, x.raw = .object fields → hashInput fields ∈ inputs)
    (hy : ∀ fields, y.raw = .object fields → hashInput fields ∈ inputs)
    (h : x.record.hash = y.record.hash) : x = y := by
  obtain ⟨fields, hraw, hchain⟩ := validateRecord_fields x.valid
  obtain ⟨fields', hraw', hchain'⟩ := validateRecord_fields y.valid
  have hhash := x.hashed
  have hhash' := y.hashed
  rw [hraw, computeHashValue_object] at hhash
  rw [hraw', computeHashValue_object] at hhash'
  have hdigest : sha256 (hashInput fields) = sha256 (hashInput fields') := by
    have heq := hhash.2.symm.trans (h.trans hhash'.2)
    exact (String.append_right_inj _).mp heq
  have hcleared : Fields.insert fields "hash" (.string "") =
      Fields.insert fields' "hash" (.string "") := by
    have hinput := hinj (hx fields hraw) (hy fields' hraw') hdigest
    exact Value.object.inj (render_inj.mp (encode_inj.mp hinput))
  -- the hash of the record, put back into its place
  have hfields : fields = fields' := by
    have hback := congrArg (Fields.insert · "hash" (.string x.record.hash)) hcleared
    simp only [Fields.insert_insert] at hback
    rw [Fields.insert_eq_self hchain.hash, h, Fields.insert_eq_self hchain'.hash] at hback
    exact hback
  refine ext_line ?_
  rw [line, line, hraw, hraw', hfields]

/-- The hash of the last record commits to the whole ledger. -/
theorem last_hash_commits {a b : Bytes} (ha : (verifyReader a).ok = true)
    (hb : (verifyReader b).ok = true) (hna : 0 < (verifyReader a).records)
    (hnb : 0 < (verifyReader b).records)
    (hinj : Set.InjOn sha256 (hashInputs a ∪ hashInputs b))
    (h : (ledgerHead a).hash = (ledgerHead b).hash) : a = b := by
  have hne : ∀ {entries : List Entry}, 0 < (verifyReader (ledgerBytes entries)).records →
      entries ≠ [] := by
    rintro entries hpos rfl
    rw [records_ledgerBytes] at hpos
    cases hpos
  obtain ⟨xs, rfl, hxs⟩ := verifyReader_ok_iff.mp ha
  obtain ⟨ys, rfl, hys⟩ := verifyReader_ok_iff.mp hb
  rw [ledgerHead_ledgerBytes, ledgerHead_ledgerBytes, Links.lastHead_map, Links.lastHead_map] at h
  rw [Chained, Links.chained_map] at hxs hys
  refine congrArg ledgerBytes (hxs.eq_of_hash_eq hys (fun x hx y hy hhash => ?_) (hne hna) (hne hnb) h)
  exact Entry.eq_of_hash_eq hinj (fun fields hraw => .inl (mem_hashInputs hx hraw))
    (fun fields hraw => .inr (mem_hashInputs hy hraw)) hhash

end Tally.Witness

/-! Two records, and the libraries as far as these records need them. -/

namespace Tally.Witness.Sample

open Tally.Lib

def content : RecordContent where
  taskUuid := none
  transitionTimestamp := "2026-01-01T00:00:00.000Z"
  verdict := .pass
  exitCode := 0
  artifactContentHash := none
  storePaths := none
  drv := none
  gpuSeconds := none
  wallClock := ⟨0x3ff8000000000000⟩
  attempt := 1
  leaseEpoch := 1
  dedupKey := none
  payloadHash := none
  briefHash := none
  origin := { schemaVersion := 1, source := .manual, producer := none }
  orchestration := none
  laborClass := .fresh
  traceRef := none
  pools := ["cpu"]
  executor := none
  hostId := none
  charge := none
  model := none
  evidenceClass := none
  manifestHash := none
  completion := none
  error := none
  resultRevision := none
  schemaVersion := witnessSchemaVersion
  authorship := none
  authorshipSessions := none
  extensions := []

def oneAndAHalf : Value := .number ⟨['1', '.', '5'], rfl⟩

def contentFields : Fields :=
  [("schemaVersion", natValue 2), ("recordType", .string "verdict"),
    ("transitionTimestamp", .string "2026-01-01T00:00:00.000Z"), ("verdict", .string "pass"),
    ("exitCode", natValue 0), ("wallClock", oneAndAHalf), ("attempt", natValue 1),
    ("leaseEpoch", natValue 1),
    ("origin", .object [("schemaVersion", natValue 1), ("source", .string "manual")]),
    ("laborClass", .string "fresh"), ("pools", strings ["cpu"])]

def raw (seq : Nat) (prevHash hash : String) : Value :=
  .object (contentFields ++ [("seq", natValue seq), ("prevHash", .string prevHash),
    ("hash", .string hash)])

def digest1 : String := "a999dfe10716d115f46225e28982fd84d22c0db5e90bddbbd1fde4feb9c6b32f"

def digest2 : String := "2a966735b00b6b4be428e97cc614dbaedac1dba5cf56e246b86ce0af6f5a99fd"

/-- SHA-256 of the two inputs. -/
def digest (input : Bytes) : String :=
  if input = encode (render (raw 1 genesisPrevHash "")) then digest1
  else if input = encode (render (raw 2 ("sha256:" ++ digest1) "")) then digest2
  else ""

/-- The reader of compact text with the limit of the library, and the other functions on the values
that occur here. -/
instance libraries : Libraries where
  fromStr text := orError (readCompact 127 text) "not a compact text"
  decodeValue value := .ok value
  sha256 := digest
  decodeContent fields :=
    if fields.take contentFields.length = contentFields then .ok content else .error "unknown record"
  f64ToValue x := if x = content.wallClock then oneAndAHalf else .null
  isFiniteLexeme _ := true
  legacyF64 n := .ok n
  rfc3339Millis text := some text
  isUuid text := (Nibbles.parseStr text).isSome

def record1 : WitnessRecord :=
  { content with seq := 1, prevHash := genesisPrevHash, hash := "sha256:" ++ digest1 }

def record2 : WitnessRecord :=
  { content with seq := 2, prevHash := record1.hash, hash := "sha256:" ++ digest2 }

def entry1 : Entry where
  raw := raw 1 genesisPrevHash record1.hash
  record := record1
  reads := orError_eq_ok.mpr (readCompact_eq_some_iff.mpr ⟨rfl, by decide +kernel⟩)
  valid := by decide +kernel
  hashed := by decide +kernel

def entry2 : Entry where
  raw := raw 2 record1.hash record2.hash
  record := record2
  reads := orError_eq_ok.mpr (readCompact_eq_some_iff.mpr ⟨rfl, by decide +kernel⟩)
  valid := by decide +kernel
  hashed := by decide +kernel

theorem chained : Chained genesis [entry1, entry2] := ⟨⟨rfl, rfl⟩, ⟨rfl, rfl⟩, trivial⟩

/-- The second record is accepted behind the first one, and in the whole ledger. -/
theorem verify_suffix_agrees_second :
    (verifyReader (ledgerBytes [entry1])).ok = true ∧
      (verifyReader (ledgerBytes [entry1] ++ ledgerBytes [entry2])).ok = true ∧
      ∃ records, verifySuffixBytes (ledgerBytes [entry2]) (ledgerHead (ledgerBytes [entry1])) =
        .ok records := by
  have hfirst : (verifyReader (ledgerBytes [entry1])).ok = true :=
    verifyReader_ok_iff.mpr ⟨[entry1], rfl, ⟨⟨rfl, rfl⟩, trivial⟩⟩
  have hwhole : (verifyReader (ledgerBytes [entry1] ++ ledgerBytes [entry2])).ok = true :=
    verifyReader_ok_iff.mpr ⟨[entry1, entry2], (ledgerBytes_append _ _).symm, chained⟩
  have hagrees := verify_suffix_agrees (terminated_ledgerBytes [entry1])
    (terminated_ledgerBytes [entry2])
  exact ⟨hfirst, hwhole, (hagrees.1 hfirst).1.mp hwhole⟩

/-- The two inputs are kept apart. -/
theorem injOn_hashInputs : Set.InjOn sha256 (hashInputs (ledgerBytes [entry1, entry2])) := by
  have hinput : ∀ {input}, input ∈ hashInputs (ledgerBytes [entry1, entry2]) →
      input = encode (render (raw 1 genesisPrevHash "")) ∨
        input = encode (render (raw 2 record1.hash "")) := by
    rintro input ⟨parsed, hparsed, text, htext, rfl⟩
    rw [validRecords, readLines_ledgerBytes, readLoop_entries] at hparsed
    rcases List.mem_cons.mp hparsed with rfl | hparsed
    · cases htext
      exact .inl rfl
    · rw [List.mem_singleton.mp hparsed] at htext
      cases htext
      exact .inr rfl
  have hne : sha256 (encode (render (raw 1 genesisPrevHash ""))) ≠
      sha256 (encode (render (raw 2 record1.hash ""))) := by
    decide +kernel
  intro x hx y hy h
  rcases hinput hx with rfl | rfl <;> rcases hinput hy with rfl | rfl
  · rfl
  · exact absurd h hne
  · exact absurd h.symm hne
  · rfl

theorem last_hash_commits_two :
    (verifyReader (ledgerBytes [entry1, entry2])).ok = true ∧
      (ledgerHead (ledgerBytes [entry1, entry2])).hash = record2.hash ∧
      ledgerBytes [entry1] ++ ledgerBytes [entry2] = ledgerBytes [entry1, entry2] := by
  have hok : (verifyReader (ledgerBytes [entry1, entry2])).ok = true :=
    verifyReader_ok_iff.mpr ⟨[entry1, entry2], rfl, chained⟩
  have hrecords : 0 < (verifyReader (ledgerBytes [entry1, entry2])).records := by
    rw [records_ledgerBytes]
    exact Nat.succ_pos 1
  have hbytes : ledgerBytes [entry1] ++ ledgerBytes [entry2] = ledgerBytes [entry1, entry2] :=
    (ledgerBytes_append _ _).symm
  have hinj : Set.InjOn sha256 (hashInputs (ledgerBytes [entry1] ++ ledgerBytes [entry2]) ∪
      hashInputs (ledgerBytes [entry1, entry2])) := by
    rw [hbytes, Set.union_self]
    exact injOn_hashInputs
  refine ⟨hok, congrArg Head.hash (ledgerHead_ledgerBytes _), ?_⟩
  exact last_hash_commits (by rw [hbytes, hok]) hok (by rw [hbytes]; exact hrecords) hrecords hinj
    (by rw [hbytes])

end Tally.Witness.Sample
