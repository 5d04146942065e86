import Tally.Lib.Index
import Tally.Witness.Ledger

/-!
# The view of the ledger

`WitnessView` (`daemon/witness_view.rs`): the verified records in memory with two indexes, kept up to date
by verifying what has been appended since the last look. The offset from which it goes on is computed
from the records that it opened with, so it is right when those are written as long as they were read
(`Exact`). Then every query says what a scan of the whole ledger would (`view_agrees_with_ledger`),
whatever the writers do between two looks.
-/

namespace Tally.Witness

open Tally.Lib

/-- The view in memory. -/
structure View where
  records : List WitnessRecord
  head : ChainHead
  verifiedOffset : Nat
  byTask : Dict String (List Nat)
  byDedup : Dict String (List Nat)

namespace View

/-- The record goes to the end. -/
def indexRecord (view : View) (record : WitnessRecord) : View :=
  { view with
    records := view.records ++ [record]
    byTask := note (·.taskUuid) view.byTask record view.records.length
    byDedup := note (·.dedupKey) view.byDedup record view.records.length }

def lastHeadOr (head : ChainHead) (records : List WitnessRecord) : ChainHead :=
  records.getLast?.elim head fun record => ⟨record.seq, record.hash⟩

/-- `report`. -/
def report (view : View) : VerifyReport where
  ok := true
  records := view.records.length
  firstSeq := view.records.head?.map (·.seq)
  lastSeq := view.records.getLast?.map (·.seq)
  problems := []

/-- The answer of `latest_for_task`, after the refresh. -/
def latestForTask (view : View) (taskUuid : String) (attempt : Option Nat) : Option WitnessRecord :=
  (lookup view.byTask view.records taskUuid).reverse.find? fun record =>
    attempt.all fun attempt => record.attempt = attempt

/-- The answer of `governing_for_dedup`, after the refresh. -/
def governingForDedup (view : View) (dedupKey : String) : Option WitnessRecord :=
  (lookup view.byDedup view.records dedupKey).getLast?

theorem indexed_foldl {view : View} (htask : Indexes (·.taskUuid) view.byTask view.records)
    (hdedup : Indexes (·.dedupKey) view.byDedup view.records) (appended : List WitnessRecord) :
    (appended.foldl indexRecord view).records = view.records ++ appended ∧
      (appended.foldl indexRecord view).head = view.head ∧
      (appended.foldl indexRecord view).verifiedOffset = view.verifiedOffset ∧
      Indexes (·.taskUuid) (appended.foldl indexRecord view).byTask (appended.foldl indexRecord view).records ∧
      Indexes (·.dedupKey) (appended.foldl indexRecord view).byDedup
        (appended.foldl indexRecord view).records := by
  induction appended generalizing view with
  | nil => exact ⟨(List.append_nil _).symm, rfl, rfl, htask, hdedup⟩
  | cons record rest ih =>
    obtain ⟨hrecords, hhead, hoffset, htasks, hdedups⟩ :=
      @ih (view.indexRecord record) (htask.concat record) (hdedup.concat record)
    refine ⟨?_, hhead, hoffset, htasks, hdedups⟩
    rw [List.foldl_cons, hrecords, indexRecord, List.append_assoc]
    rfl

end View

variable [Libraries]

/-- `read_verified_records`. -/
def readVerifiedRecords (file : Bytes) : Except WitnessError (VerifyReport × List WitnessRecord) := do
  let report := verifyReader file
  if report.ok = false then return (report, [])
  else
    let text ← orError (decode file) (.io "stream did not contain valid UTF-8")
    let records ← (((pieces '\n' text).map stripCr).filter fun line => !blank line).mapM fun line => do
      let raw ← json (fromStr line)
      (validateRecord raw).mapError fun failure => WitnessError.corrupt failure.reason
    return (report, records)

/-- The bytes of the line that the record is written as. -/
def serializedLineLen (record : WitnessRecord) : Nat := (encode (render (.object record.toFields))).length + 1

namespace View

def fromRecords (records : List WitnessRecord) : View :=
  records.foldl indexRecord {
    records := []
    head := lastHeadOr genesis records
    verifiedOffset := (records.map serializedLineLen).sum
    byTask := ∅
    byDedup := ∅ }

def «open» (file : Bytes) : Except WitnessError View := do
  let (report, records) ← readVerifiedRecords file
  ensure report.ok (.corrupt (String.ofList (render (.array (report.problems.map (·.toValue))))))
  return fromRecords records

/-- Take in what has been appended. The view stays as it is when this fails. -/
def refresh (file : Bytes) (view : View) : Except WitnessError View :=
  if file.length = view.verifiedOffset then return view
  else if file.length < view.verifiedOffset then View.open file
  else
    let bytes := file.drop view.verifiedOffset
    let complete := bytes.take (completeLen lf bytes)
    if complete.isEmpty then return view
    else do
      let appended ← verifySuffixBytes complete view.head
      return appended.foldl indexRecord { view with
        head := lastHeadOr view.head appended
        verifiedOffset := view.verifiedOffset + complete.length }

end View

/-! ## What a view holds -/

/-- The view of the entries. -/
structure View.Of (view : View) (entries : List Entry) : Prop where
  records : view.records = entries.map (·.record)
  head : view.head = headOf entries
  offset : view.verifiedOffset = (ledgerBytes entries).length
  byTask : Indexes (·.taskUuid) view.byTask view.records
  byDedup : Indexes (·.dedupKey) view.byDedup view.records

namespace View

omit [Libraries] in
theorem lastHeadOr_eq (head : ChainHead) (records : List WitnessRecord) :
    lastHeadOr head records = recordLinks.lastHead head records := by
  rw [Links.lastHead_eq_getLast?]
  rfl

/-! ## Opening -/

theorem readVerifiedRecords_ledgerBytes {entries : List Entry} (h : Chained genesis entries) :
    readVerifiedRecords (ledgerBytes entries) =
      .ok (verifyReader (ledgerBytes entries), entries.map (·.record)) := by
  have hok : (verifyReader (ledgerBytes entries)).ok = true := verifyReader_ok_iff.mpr ⟨entries, rfl, h⟩
  rw [readVerifiedRecords, if_neg (by rw [hok]; exact Bool.true_eq_false_eq_False)]
  refine orError_bind_ok_iff.mpr ⟨_, decode_encode _, ?_⟩
  have hlines : ((pieces '\n' (terminate '\n' (entries.map Entry.line))).map stripCr).filter
      (fun line => !blank line) = entries.map Entry.line := by
    rw [pieces_ledger, List.filter_eq_self]
    intro line hline
    obtain ⟨entry, -, rfl⟩ := List.mem_map.mp hline
    rw [entry.blank_line]
    rfl
  rw [hlines]
  refine bind_ok_iff.mpr ⟨entries.map (·.record), ?_, rfl⟩
  clear hok hlines h
  induction entries with
  | nil => rfl
  | cons entry rest ih =>
    rw [List.map_cons, List.mapM_cons]
    refine bind_ok_iff.mpr ⟨entry.record, ?_, bind_ok_iff.mpr ⟨_, ih, rfl⟩⟩
    refine bind_ok_iff.mpr ⟨entry.raw, mapError_eq_ok.mpr entry.reads, ?_⟩
    exact mapError_eq_ok.mpr entry.valid

/-- A view opens on a verified file without a torn line. -/
theorem open_eq_ok {file : Bytes} {view : View} (h : View.open file = .ok view) :
    ∃ entries, file = ledgerBytes entries ∧ Chained genesis entries ∧
      view = fromRecords (entries.map (·.record)) := by
  obtain ⟨⟨report, records⟩, hread, h⟩ := bind_ok_iff.mp h
  obtain ⟨hok, h⟩ := ensure_bind_ok_iff.mp h
  cases h
  have hreport : report = verifyReader file := by
    rw [readVerifiedRecords] at hread
    split at hread
    · cases hread
      rfl
    · obtain ⟨_, -, hread⟩ := orError_bind_ok_iff.mp hread
      obtain ⟨_, -, hread⟩ := bind_ok_iff.mp hread
      cases hread
      rfl
  subst hreport
  obtain ⟨entries, rfl, hchained⟩ := verifyReader_ok_iff.mp hok
  rw [readVerifiedRecords_ledgerBytes hchained] at hread
  cases hread
  exact ⟨entries, rfl, hchained, rfl⟩

end View

/-- Every record of the file is written in as many bytes as its line has. -/
def Exact (file : Bytes) : Prop :=
  ∀ parsed ∈ validRecords file, serializedLineLen parsed.record = (chunk parsed.raw).length

theorem sum_serializedLineLen {number : Nat} {entries : List Entry}
    (h : ∀ parsed ∈ parsedEntries number entries,
      serializedLineLen parsed.record = (chunk parsed.raw).length) :
    ((entries.map (·.record)).map serializedLineLen).sum = (ledgerBytes entries).length := by
  induction entries generalizing number with
  | nil => rfl
  | cons entry rest ih =>
    rw [parsedEntries] at h
    obtain ⟨hfirst, hrest⟩ := List.forall_mem_cons.mp h
    have hrest := ih hrest
    dsimp only at hfirst
    have hbytes : ledgerBytes (entry :: rest) = chunk entry.raw ++ ledgerBytes rest := by
      rw [← List.singleton_append, ledgerBytes_append, ledgerBytes_singleton, chunk, encode_append]
      rfl
    rw [List.map_cons, List.map_cons, List.sum_cons, hfirst, hrest, hbytes, List.length_append]

theorem View.of_open {entries : List Entry} (hexact : Exact (ledgerBytes entries)) :
    (View.fromRecords (entries.map (·.record))).Of entries := by
  obtain ⟨hrecords, hhead, hoffset, htask, hdedup⟩ := @View.indexed_foldl
    { records := []
      head := View.lastHeadOr genesis (entries.map (·.record))
      verifiedOffset := ((entries.map (·.record)).map serializedLineLen).sum
      byTask := ∅
      byDedup := ∅ } .empty .empty (entries.map (·.record))
  have hsum : ((entries.map (·.record)).map serializedLineLen).sum = (ledgerBytes entries).length := by
    refine @sum_serializedLineLen _ 0 entries ?_
    rw [Exact, validRecords, readLines_ledgerBytes, readLoop_entries] at hexact
    exact hexact
  exact ⟨hrecords, hhead.trans (View.lastHeadOr_eq _ _), hoffset.trans hsum, htask, hdedup⟩

/-! ## Refreshing -/

/-- A view takes in what has been appended. -/
theorem View.Of.refresh {view : View} {part rest : List Entry} {torn : Bytes} (h : view.Of part)
    (htorn : lf ∉ torn) (hchained : Chained genesis (part ++ rest)) :
    ∃ view', view.refresh (ledgerBytes (part ++ rest) ++ torn) = .ok view' ∧ view'.Of (part ++ rest) := by
  have hlength : (ledgerBytes (part ++ rest) ++ torn).length =
      view.verifiedOffset + ((ledgerBytes rest).length + torn.length) := by
    rw [h.offset, ledgerBytes_append, List.append_assoc, List.length_append, List.length_append]
  have hsame : (ledgerBytes rest).length = 0 → view.Of (part ++ rest) := by
    intro hzero
    have hrest : rest = [] := ledgerBytes_inj (List.eq_nil_of_length_eq_zero hzero)
    rw [hrest, List.append_nil]
    exact h
  have hdrop : (ledgerBytes (part ++ rest) ++ torn).drop view.verifiedOffset = ledgerBytes rest ++ torn := by
    rw [h.offset, ledgerBytes_append, List.append_assoc, List.drop_left]
  rw [View.refresh, hlength]
  split
  · exact ⟨view, rfl, hsame (by omega)⟩
  rw [if_neg (by omega)]
  dsimp only
  rw [hdrop, completeLen_append (terminated_ledgerBytes rest) htorn, List.take_left]
  split
  · next hempty => exact ⟨view, rfl, hsame (by rw [List.isEmpty_iff.mp hempty]; rfl)⟩
  rw [Chained, List.map_append, Links.chained_append] at hchained
  have hsuffix : verifySuffixBytes (ledgerBytes rest) view.head = .ok (rest.map (·.record)) := by
    rw [h.head]
    exact (verifySuffixBytes_eq_ok_iff (terminated_iff.mp (terminated_ledgerBytes rest))).mpr
      ⟨rest, rfl, hchained.2, rfl⟩
  obtain ⟨hrecords, hhead, hoffset, htask, hdedup⟩ := @View.indexed_foldl
    { view with
      head := View.lastHeadOr view.head (rest.map (·.record))
      verifiedOffset := view.verifiedOffset + (ledgerBytes rest).length } h.byTask h.byDedup
    (rest.map (·.record))
  refine ⟨_, bind_ok_iff.mpr ⟨_, hsuffix, rfl⟩, ?_, ?_, ?_, htask, hdedup⟩
  · rw [hrecords, h.records, List.map_append]
  · rw [hhead, View.lastHeadOr_eq, h.head, headOf_append]
  · rw [hoffset, h.offset, ledgerBytes_append, List.length_append]

/-! ## Looks between the acts of the writers -/

/-- The file with its handles, and a view of it. -/
structure Watched where
  system : System
  view : View

inductive Watched.Act
  | ledger (act : Witness.Act)
  | read

namespace Watched

def step (watched : Watched) : Act → Watched
  | .ledger act => { watched with system := watched.system.step act }
  | .read =>
    match watched.view.refresh watched.system.file with
    | .ok view => { watched with view }
    | .error _ => watched

def run (watched : Watched) (acts : List Act) : Watched := acts.foldl step watched

/-- The view has taken in a part of the entries in the file. -/
structure Follows (watched : Watched) (part rest : List Entry) (torn : Bytes) : Prop where
  system : watched.system.Sound (part ++ rest) torn
  view : watched.view.Of part

theorem Follows.refresh {watched : Watched} {part rest : List Entry} {torn : Bytes}
    (h : watched.Follows part rest torn) :
    ∃ view, watched.view.refresh watched.system.file = .ok view ∧ view.Of (part ++ rest) := by
  rw [h.system.torn.bytes]
  exact h.view.refresh h.system.torn.torn h.system.torn.chained

theorem Follows.step (hreads : ReadsMembers) {watched : Watched} {part rest : List Entry} {torn : Bytes}
    (h : watched.Follows part rest torn) (act : Act) :
    ∃ part' rest' torn', (watched.step act).Follows part' rest' torn' := by
  cases act with
  | ledger act =>
    obtain ⟨new, torn', -, hsystem, -, -⟩ := h.system.step hreads act
    rw [List.append_assoc] at hsystem
    exact ⟨part, rest ++ new, torn', hsystem, h.view⟩
  | read =>
    obtain ⟨view, hrefresh, hview⟩ := h.refresh
    rw [Watched.step, hrefresh]
    refine ⟨part ++ rest, [], torn, ?_, hview⟩
    rw [List.append_nil]
    exact h.system

theorem Follows.run (hreads : ReadsMembers) {watched : Watched} {part rest : List Entry} {torn : Bytes}
    (h : watched.Follows part rest torn) (acts : List Act) :
    ∃ part' rest' torn', (watched.run acts).Follows part' rest' torn' := by
  induction acts generalizing watched part rest torn with
  | nil => exact ⟨part, rest, torn, h⟩
  | cons act acts ih =>
    obtain ⟨part', rest', torn', hstep⟩ := h.step hreads act
    exact ih hstep

end Watched

/-! ## The answers -/

namespace View.Of

variable {view : View} {entries : List Entry}

theorem pairwise_seq (h : view.Of entries) (hchained : Chained genesis entries) :
    (view.records.map (·.seq)).Pairwise (· < ·) := by
  have hseq := Links.Chained.map_seq hchained
  rw [h.records]
  exact hseq ▸ List.pairwise_lt_range'

theorem report_eq (h : view.Of entries) (hchained : Chained genesis entries) :
    view.report = verifyReader (ledgerBytes entries) := by
  have hok : (verifyReader (ledgerBytes entries)).ok = true :=
    verifyReader_ok_iff.mpr ⟨entries, rfl, hchained⟩
  have hvalid := validRecords_ledgerBytes entries
  have hproblems : (verifyReader (ledgerBytes entries)).problems = [] := List.isEmpty_iff.mp hok
  have hfirst : (verifyReader (ledgerBytes entries)).firstSeq = view.report.firstSeq := by
    rw [report, h.records, ← hvalid, List.head?_map, Option.map_map]
    rfl
  have hlast : (verifyReader (ledgerBytes entries)).lastSeq = view.report.lastSeq := by
    rw [report, h.records, ← hvalid, List.getLast?_map, Option.map_map]
    rfl
  have hcount : (verifyReader (ledgerBytes entries)).records = view.report.records := by
    rw [records_ledgerBytes, report, h.records, List.length_map]
  generalize verifyReader (ledgerBytes entries) = full at hok hproblems hfirst hlast hcount
  obtain ⟨ok, records, firstSeq, lastSeq, problems⟩ := full
  dsimp only at hok hproblems hfirst hlast hcount
  rw [hok, hproblems, hfirst, hlast, hcount]
  rfl

theorem latestForTask (h : view.Of entries) (hchained : Chained genesis entries) (task : String)
    (attempt : Option Nat) :
    Greatest (·.seq) (fun record => record.taskUuid = some task &&
      attempt.all fun attempt => record.attempt = attempt) view.records
      (view.latestForTask task attempt) := by
  rw [View.latestForTask, h.byTask.lookup]
  exact greatest_newest (h.pairwise_seq hchained) _ _

theorem governingForDedup (h : view.Of entries) (hchained : Chained genesis entries) (key : String) :
    Greatest (·.seq) (fun record => record.dedupKey = some key) view.records
      (view.governingForDedup key) := by
  have hnewest := greatest_newest (h.pairwise_seq hchained)
    (fun record => decide (record.dedupKey = some key)) fun _ => true
  simp only [Bool.and_true] at hnewest
  have hfind : ∀ found : List WitnessRecord, found.find? (fun _ => true) = found.head? := by
    intro found
    cases found <;> rfl
  rw [hfind, List.head?_reverse] at hnewest
  rw [View.governingForDedup, h.byDedup.lookup]
  exact hnewest

end View.Of

/-- Whatever the writers do between the looks and wherever they stop, the view that opened on the
ledger takes in what has come, and answers as a scan of the whole ledger does. -/
theorem view_agrees_with_ledger (hreads : ReadsMembers) {file : Bytes} {view : View}
    (hopen : View.open file = .ok view) (hexact : Exact file) (acts : List Watched.Act) :
    let now := Watched.run ⟨{ file }, view⟩ acts
    ∃ view', now.view.refresh now.system.file = .ok view' ∧
      view'.records = now.system.records ∧
      view'.verifiedOffset = now.system.complete.length ∧
      view'.head = ledgerHead now.system.complete ∧
      view'.report = verifyReader now.system.complete ∧
      (∀ task attempt, Greatest (·.seq) (fun record => record.taskUuid = some task &&
        attempt.all fun attempt => record.attempt = attempt) now.system.records
        (view'.latestForTask task attempt)) ∧
      ∀ key, Greatest (·.seq) (fun record => record.dedupKey = some key) now.system.records
        (view'.governingForDedup key) := by
  intro now
  obtain ⟨entries, rfl, hchained, rfl⟩ := View.open_eq_ok hopen
  have hstart : Watched.Follows ⟨{ file := ledgerBytes entries }, View.fromRecords (entries.map (·.record))⟩
      entries [] [] := by
    refine ⟨⟨⟨?_, List.not_mem_nil, ?_⟩, fun handle hmem => nomatch hmem⟩, View.of_open hexact⟩
    · rw [List.append_nil, List.append_nil]
    · rw [List.append_nil]
      exact hchained
  obtain ⟨part, rest, torn, hnow⟩ := hstart.run hreads acts
  obtain ⟨view', hrefresh, hview⟩ := hnow.refresh
  have hchained := hnow.system.torn.chained
  have hrecords : now.system.records = view'.records := by rw [hnow.system.records, hview.records]
  refine ⟨view', hrefresh, hrecords.symm, ?_, ?_, ?_, ?_, ?_⟩
  · rw [hview.offset, hnow.system.complete]
  · rw [hview.head, hnow.system.complete, ledgerHead_ledgerBytes, headOf]
  · rw [hview.report_eq hchained, hnow.system.complete]
  · intro task attempt
    rw [hrecords]
    exact hview.latestForTask hchained task attempt
  · intro key
    rw [hrecords]
    exact hview.governingForDedup hchained key

end Tally.Witness

namespace Tally.Witness.Sample

open Tally.Lib

theorem open_first : View.open (ledgerBytes [entry1]) = .ok (View.fromRecords [record1]) := by
  have hchained : Chained genesis [entry1] := ⟨⟨rfl, rfl⟩, trivial⟩
  refine bind_ok_iff.mpr ⟨_, View.readVerifiedRecords_ledgerBytes hchained, ?_⟩
  exact ensure_bind_ok_iff.mpr ⟨verifyReader_ok_iff.mpr ⟨[entry1], rfl, hchained⟩, rfl⟩

theorem exact_first : Exact (ledgerBytes [entry1]) := by
  rw [Exact, validRecords, readLines_ledgerBytes, readLoop_entries]
  intro parsed hparsed
  rcases List.mem_cons.mp hparsed with rfl | hparsed
  · decide +kernel
  · cases hparsed

/-- A second record is appended between two looks at the ledger of one. -/
theorem view_agrees_with_ledger_second :
    let now := Watched.run ⟨{ file := ledgerBytes [entry1] }, View.fromRecords [record1]⟩
      [.read, .ledger .open, .ledger (.append 0 content.toWitnessBody .written)]
    ∃ view', now.view.refresh now.system.file = .ok view' ∧ view'.records = now.system.records := by
  intro now
  obtain ⟨view', hrefresh, hrecords, -⟩ := view_agrees_with_ledger readsMembers open_first exact_first
    [.read, .ledger .open, .ledger (.append 0 content.toWitnessBody .written)]
  exact ⟨view', hrefresh, hrecords⟩

end Tally.Witness.Sample
