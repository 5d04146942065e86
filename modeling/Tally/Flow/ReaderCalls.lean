import Tally.Flow.ReaderState
import Tally.Lib.Inodes

/-!
# Calls on the reader state

Calls of `set_reader_state` by any number of processes, step by step (`reader_state.rs`). A call locks
the file that it has opened, reads the path, and appends to the file that it has opened. A compaction
puts another file under the path, so a call that waited for the lock may get one on a file that has lost
the path, and what it appends is lost (`ReaderSample.archive_is_lost`). As long as every call that gets
the lock has opened the file that is still under the path, no update is lost (`updates_survive`).
-/

namespace Tally.Flow

open Tally.Lib

inductive StorePath
  | store
  /-- `jsonl.compact`. -/
  | temporary
  deriving DecidableEq

/-- Where a call is. The ticket is the number of the call, `file` the file that it has opened. -/
inductive SetPhase
  | idle
  | opened (ticket : Nat) (call : ReaderCall) (file : Nat)
  | locked (ticket : Nat) (call : ReaderCall) (file : Nat)
  /-- A torn tail has to be cut off before the line is appended. -/
  | truncating (ticket : Nat) (call : ReaderCall) (file : Nat) (line : Bytes)
  /-- The rest of the line has to be appended. -/
  | appending (ticket : Nat) (call : ReaderCall) (file : Nat) (rest : Bytes)
  /-- The folded store has to be written to the temporary file. -/
  | staging (ticket : Nat) (call : ReaderCall) (file : Nat) (bytes : Bytes)
  | filling (ticket : Nat) (call : ReaderCall) (file : Nat) (bytes : Bytes) (temporary written : Nat)
  /-- What is left are syncs. -/
  | written (ticket : Nat) (call : ReaderCall) (file : Nat)

/-- The file that a call has the lock of. -/
def SetPhase.owned : SetPhase → Option Nat
  | idle | opened .. => none
  | locked _ _ file | truncating _ _ file _ | appending _ _ file _ | staging _ _ file _
  | filling _ _ file _ _ _ | written _ _ file => some file

/-- The call has the lock, and its write is not complete. -/
def SetPhase.active : SetPhase → Bool
  | .idle | .opened .. | .written .. => false
  | .locked .. | .truncating .. | .appending .. | .staging .. | .filling .. => true

inductive SetEvent (Process : Type)
  /-- The call begins and opens the path. -/
  | start (process : Process) (call : ReaderCall)
  /-- The lock is granted. -/
  | lock (process : Process)
  /-- The path is read. -/
  | read (process : Process)
  | truncate (process : Process)
  /-- The next bytes of the line are appended. -/
  | append (process : Process) (bytes : Nat)
  /-- The temporary file is opened and truncated. -/
  | stage (process : Process)
  /-- The next bytes of the temporary file are written. -/
  | fill (process : Process) (bytes : Nat)
  | rename (process : Process)
  /-- The call returns Ok. -/
  | finish (process : Process)
  /-- The call crashes or returns an error. -/
  | fail (process : Process)

/-- The files, the calls, and what has happened: the calls that have written, in the order of their
writes, and the calls that have returned Ok. -/
structure ReaderWorld (Process : Type) where
  inodes : Inodes StorePath Process Bytes
  phases : Process → SetPhase
  tickets : Nat
  writes : List (Nat × ReaderCall)
  returned : List Nat

/-- A write at an offset; a gap is filled with zeros. -/
def writeAt (content : Bytes) (offset : Nat) (bytes : Bytes) : Bytes :=
  content.take offset ++ List.replicate (offset - content.length) 0 ++ bytes ++
    content.drop (offset + bytes.length)

namespace ReaderWorld

variable {Process : Type}

/-- The store is a file or missing, and there is no call. -/
def initial (store : Option Bytes) : ReaderWorld Process where
  inodes :=
    { named := fun path => if path = .store then store.map fun _ => 0 else none
      next := 1
      content := fun _ => store.getD []
      lock := fun _ => none
      named_lt := fun path file h => by
        split at h
        · obtain ⟨_, -, rfl⟩ := Option.map_eq_some_iff.mp h
          exact Nat.one_pos
        · cases h }
  phases _ := .idle
  tickets := 0
  writes := []
  returned := []

/-- What a reader of the path finds; a missing store is an empty one. -/
def stored (inodes : Inodes StorePath Process Bytes) : Bytes :=
  match inodes.named .store with
  | none => []
  | some file => inodes.content file

section

variable [DecidableEq Process]

def setPhase (world : ReaderWorld Process) (process : Process) (phase : SetPhase) :
    ReaderWorld Process :=
  { world with phases := Function.update world.phases process phase }

/-- The call is over, and its file is closed. -/
def close (world : ReaderWorld Process) (process : Process) : ReaderWorld Process :=
  let inodes := match (world.phases process).owned with
    | none => world.inodes
    | some file => world.inodes.setLock file none
  { world with inodes, phases := Function.update world.phases process .idle }

/-- The write of a call is complete. -/
def complete (world : ReaderWorld Process) (process : Process) (ticket : Nat) (call : ReaderCall)
    (file : Nat) (inodes : Inodes StorePath Process Bytes) : ReaderWorld Process :=
  { world with
    inodes := inodes
    phases := Function.update world.phases process (.written ticket call file)
    writes := world.writes ++ [(ticket, call)] }

variable (Uuid : Type) [UuidText Uuid] [Chrono] [JsonText]

def startCall (world : ReaderWorld Process) (process : Process) (call : ReaderCall) :
    ReaderWorld Process :=
  match canonicalFlowRunId Uuid call.flowRunId with
  | .error _ => world
  | .ok flowRunId =>
    { world with
      inodes := (world.inodes.openCreate .store []).2
      phases := Function.update world.phases process
        (.opened world.tickets { call with flowRunId := flowRunId } (world.inodes.openCreate .store []).1)
      tickets := world.tickets + 1 }

/-- A step of a call. One that is not there to be taken does nothing. -/
def step (world : ReaderWorld Process) : SetEvent Process → ReaderWorld Process
  | .start process call =>
    match world.phases process with
    | .idle => world.startCall Uuid process call
    | _ => world
  | .lock process =>
    match world.phases process with
    | .opened ticket call file =>
      if world.inodes.lock file = none then
        { world with inodes := world.inodes.setLock file (some process) }.setPhase process
          (.locked ticket call file)
      else world
    | _ => world
  | .read process =>
    match world.phases process with
    | .locked ticket call file =>
      match call.plan Uuid (stored world.inodes) with
      | .error _ => world.close process
      | .ok (.append true line) => world.setPhase process (.truncating ticket call file line)
      | .ok (.append false line) => world.setPhase process (.appending ticket call file line)
      | .ok (.compact bytes) => world.setPhase process (.staging ticket call file bytes)
    | _ => world
  | .truncate process =>
    match world.phases process with
    | .truncating ticket call file line =>
      { world with
        inodes := world.inodes.write file (truncateTail (world.inodes.content file)) }.setPhase process
          (.appending ticket call file line)
    | _ => world
  | .append process bytes =>
    match world.phases process with
    | .appending ticket call file rest =>
      let inodes := world.inodes.write file (world.inodes.content file ++ rest.take bytes)
      if rest.length ≤ bytes then world.complete process ticket call file inodes
      else { world with inodes }.setPhase process (.appending ticket call file (rest.drop bytes))
    | _ => world
  | .stage process =>
    match world.phases process with
    | .staging ticket call file bytes =>
      let (temporary, inodes) := world.inodes.openCreate .temporary []
      { world with inodes := inodes.write temporary [] }.setPhase process
        (.filling ticket call file bytes temporary 0)
    | _ => world
  | .fill process count =>
    match world.phases process with
    | .filling ticket call file bytes temporary written =>
      let next := (bytes.drop written).take count
      let content := writeAt (world.inodes.content temporary) written next
      { world with inodes := world.inodes.write temporary content }.setPhase process
        (.filling ticket call file bytes temporary (written + next.length))
    | _ => world
  | .rename process =>
    match world.phases process with
    | .filling ticket call file bytes _ written =>
      if bytes.length ≤ written then
        if (world.inodes.named .temporary).isSome then
          world.complete process ticket call file (world.inodes.rename .temporary .store)
        else world.close process
      else world
    | _ => world
  | .finish process =>
    match world.phases process with
    | .written ticket _ _ =>
      { world with returned := ticket :: world.returned }.close process
    | _ => world
  | .fail process => world.close process

def run (store : Option Bytes) (events : List (SetEvent Process)) : ReaderWorld Process :=
  events.foldl (step Uuid) (initial store)

end

/-- A call that gets the lock has opened the file that is still under the path. -/
def LocksStore (world : ReaderWorld Process) : SetEvent Process → Prop
  | .lock process => ∀ ticket call file, world.phases process = .opened ticket call file →
      world.inodes.named .store = some file
  | _ => True

/-! ## The invariant -/

section

variable (Uuid : Type) [UuidText Uuid] [Chrono] [JsonText]

/-- A record to append: it makes of what the records say what the call makes of it. -/
structure Extends (view : ReaderView) (call : ReaderCall) (records : List ReaderStateRecord)
    (record : ReaderStateRecord) : Prop where
  goodRecords : ∀ other ∈ records, other.Good Uuid
  good : record.Good Uuid
  before : viewOf records = view
  after : viewOf (records ++ [record]) = call.apply view

/-- Records to put in the place of the store. -/
structure Folds (view : ReaderView) (call : ReaderCall) (kept : List ReaderStateRecord) (bytes : Bytes) :
    Prop where
  good : ∀ record ∈ kept, record.Good Uuid
  bytes : bytes = writeLines (kept.map ReaderStateRecord.line)
  after : viewOf kept = call.apply view

/-- The process has the lock of the file under the path. -/
structure Active (inodes : Inodes StorePath Process Bytes) (process : Process) (file : Nat) : Prop where
  lock : inodes.lock file = some process
  named : inodes.named .store = some file

/-- What a call knows, when `view` is what the store says of the runs. -/
def PhaseOk (inodes : Inodes StorePath Process Bytes) (view : ReaderView) (writes : List Nat)
    (process : Process) : SetPhase → Prop
  | .idle => True
  | .opened _ call file =>
    file < inodes.next ∧ canonicalFlowRunId Uuid call.flowRunId = .ok call.flowRunId
  | .locked _ call file =>
    Active inodes process file ∧ canonicalFlowRunId Uuid call.flowRunId = .ok call.flowRunId
  | .truncating _ call file line => Active inodes process file ∧ ∃ records record,
      Extends Uuid view call records record ∧
      Holds (inodes.content file) (records.map ReaderStateRecord.line) ∧ line = lineBytes record.line
  | .appending _ call file rest => Active inodes process file ∧ rest ≠ [] ∧ ∃ records record done,
      Extends Uuid view call records record ∧ lineBytes record.line = done ++ rest ∧
      inodes.content file = writeLines (records.map ReaderStateRecord.line) ++ done
  | .staging _ call file bytes => Active inodes process file ∧ ∃ kept, Folds Uuid view call kept bytes
  | .filling _ call file bytes temporary written => Active inodes process file ∧
      (∃ kept, Folds Uuid view call kept bytes) ∧ inodes.named .temporary = some temporary ∧
      written ≤ bytes.length ∧ inodes.content temporary = bytes.take written
  | .written ticket _ file =>
    file < inodes.next ∧ inodes.lock file = some process ∧ ticket ∈ writes

/-- What the store says after the writes. -/
def view (start : ReaderView) (world : ReaderWorld Process) : ReaderView :=
  ReaderCall.applyAll start (world.writes.map Prod.snd)

structure Invariant (start : ReaderView) (world : ReaderWorld Process) : Prop where
  phases : ∀ process, PhaseOk Uuid world.inodes (world.view start) (world.writes.map Prod.fst) process
    (world.phases process)
  /-- The temporary file is not the store. -/
  apart : ∀ file, world.inodes.named .temporary = some file →
    world.inodes.named .store ≠ some file
  stored : Stored Uuid (stored world.inodes) (world.view start)
  returned : ∀ ticket ∈ world.returned, ticket ∈ world.writes.map Prod.fst

end

variable {Uuid : Type} [UuidText Uuid] [Chrono] [JsonText] {start : ReaderView} {world : ReaderWorld Process}
  {inodes inodes' : Inodes StorePath Process Bytes} {view view' : ReaderView} {writes writes' : List Nat}
  {process other : Process} {phase : SetPhase} {file : Nat}

omit [Chrono] [JsonText] in
theorem Active.lt (h : Active inodes process file) : file < inodes.next := inodes.named_lt _ _ h.named

theorem PhaseOk.active (h : PhaseOk Uuid inodes view writes process phase) (hactive : phase.active) :
    ∃ file, phase.owned = some file ∧ Active inodes process file := by
  cases phase with
  | idle | opened | written => cases hactive
  | locked | truncating | appending | staging | filling => exact ⟨_, rfl, h.1⟩

theorem PhaseOk.lock (h : PhaseOk Uuid inodes view writes process phase)
    (howned : phase.owned = some file) : inodes.lock file = some process := by
  cases phase with
  | idle | opened => cases howned
  | locked | truncating | appending | staging | filling =>
    cases howned
    exact h.1.lock
  | written =>
    cases howned
    exact h.2.1

theorem PhaseOk.lt (h : PhaseOk Uuid inodes view writes process phase)
    (howned : phase.owned = some file) : file < inodes.next := by
  cases phase with
  | idle | opened => cases howned
  | locked | truncating | appending | staging | filling =>
    cases howned
    exact h.1.lt
  | written =>
    cases howned
    exact h.1

/-- A call that does not write does not mind what is written. -/
theorem PhaseOk.passive (h : PhaseOk Uuid inodes view writes process phase) (hpassive : phase.active = false)
    (hnext : inodes.next ≤ inodes'.next)
    (hlock : ∀ file, phase.owned = some file → inodes'.lock file = inodes.lock file)
    (hwrites : writes ⊆ writes') : PhaseOk Uuid inodes' view' writes' process phase := by
  cases phase with
  | idle => trivial
  | opened ticket call file => exact ⟨Nat.lt_of_lt_of_le h.1 hnext, h.2⟩
  | written ticket call file =>
    exact ⟨Nat.lt_of_lt_of_le h.1 hnext, (hlock file rfl).trans h.2.1, hwrites h.2.2⟩
  | locked | truncating | appending | staging | filling => cases hpassive

/-- Only the lock of the process itself matters. -/
theorem PhaseOk.setLock (h : PhaseOk Uuid inodes view writes process phase) {owner : Option Process}
    (hother : phase.owned ≠ some file) :
    PhaseOk Uuid (inodes.setLock file owner) view writes process phase := by
  have hactive : ∀ own, phase.owned = some own → Active inodes process own →
      Active (inodes.setLock file owner) process own := by
    intro own howned hactive
    have hne : own ≠ file := fun heq => hother (howned.trans (congrArg some heq))
    exact ⟨(Function.update_of_ne hne ..).trans hactive.lock, hactive.named⟩
  cases phase with
  | idle => trivial
  | opened ticket call own => exact h
  | written ticket call own =>
    have hne : own ≠ file := fun heq => hother (congrArg some heq)
    exact ⟨h.1, (Function.update_of_ne hne ..).trans h.2.1, h.2.2⟩
  | locked | truncating | appending | staging | filling => exact ⟨hactive _ rfl h.1, h.2⟩

omit [Chrono] [JsonText] in
/-- The next bytes of a file that is written from its beginning. -/
theorem writeAt_take {bytes : Bytes} {written : Nat} (h : written ≤ bytes.length) (count : Nat) :
    writeAt (bytes.take written) written ((bytes.drop written).take count) =
      bytes.take (written + ((bytes.drop written).take count).length) := by
  have hlength : (bytes.take written).length = written := List.length_take_of_le h
  have hfront : (bytes.take written).take written = bytes.take written :=
    List.take_of_length_le (le_of_eq hlength)
  have hback : (bytes.take written).drop (written + ((bytes.drop written).take count).length) = [] :=
    List.drop_of_length_le (by omega)
  have hnext : (bytes.drop written).take ((bytes.drop written).take count).length =
      (bytes.drop written).take count := by
    rw [List.length_take, List.take_eq_take_iff]
    omega
  rw [writeAt, hfront, hback, hlength, Nat.sub_self, List.replicate_zero, List.append_nil,
    List.append_nil, List.take_add, hnext]

namespace Invariant

/-- One call at a time writes. -/
theorem exclusive (h : Invariant Uuid start world) (hprocess : (world.phases process).active)
    (hother : (world.phases other).active) : other = process := by
  obtain ⟨file, -, hfile⟩ := (h.phases process).active hprocess
  obtain ⟨file', -, hfile'⟩ := (h.phases other).active hother
  have hsame := hfile.named.symm.trans hfile'.named
  cases hsame
  have hlock := hfile'.lock.symm.trans hfile.lock
  cases hlock
  rfl

theorem passive_of_ne (h : Invariant Uuid start world) (hprocess : (world.phases process).active)
    (hne : other ≠ process) : (world.phases other).active = false := by
  cases hother : (world.phases other).active with
  | false => rfl
  | true => exact absurd (h.exclusive hprocess hother) hne

theorem owned_ne (h : Invariant Uuid start world) (howned : (world.phases process).owned = some file)
    (hne : other ≠ process) : (world.phases other).owned ≠ some file := by
  intro hother
  have hlock := ((h.phases other).lock hother).symm.trans ((h.phases process).lock howned)
  cases hlock
  exact hne rfl

variable [DecidableEq Process]

/-- A call goes on while the files stay as they are. -/
theorem setPhase (h : Invariant Uuid start world)
    (hphase : PhaseOk Uuid world.inodes (world.view start) (world.writes.map Prod.fst) process phase) :
    Invariant Uuid start (world.setPhase process phase) where
  phases := (Function.forall_update_iff world.phases (PhaseOk Uuid _ _ _)).mpr
    ⟨hphase, fun other _ => h.phases other⟩
  apart := h.apart
  stored := h.stored
  returned := h.returned

theorem close (h : Invariant Uuid start world) (process : Process) :
    Invariant Uuid start (world.close process) := by
  cases howned : (world.phases process).owned with
  | none =>
    refine ⟨(Function.forall_update_iff world.phases (PhaseOk Uuid _ _ _)).mpr
      ⟨trivial, fun other _ => ?_⟩, ?_, ?_, h.returned⟩ <;>
      simp only [ReaderWorld.close, howned]
    · exact h.phases other
    · exact h.apart
    · exact h.stored
  | some file =>
    refine ⟨(Function.forall_update_iff world.phases (PhaseOk Uuid _ _ _)).mpr
      ⟨trivial, fun other hne => ?_⟩, ?_, ?_, h.returned⟩ <;>
      simp only [ReaderWorld.close, howned]
    · exact (h.phases other).setLock (h.owned_ne howned hne)
    · exact h.apart
    · exact h.stored

/-- A write of the call that has the lock. -/
theorem write (h : Invariant Uuid start world) (hactive : (world.phases process).active)
    {written : List (Nat × ReaderCall)} (hwritten : world.writes ⊆ written)
    (hnext : world.inodes.next ≤ inodes.next)
    (hlock : ∀ file < world.inodes.next, inodes.lock file = world.inodes.lock file)
    (hapart : ∀ file, inodes.named .temporary = some file → inodes.named .store ≠ some file)
    (hstored : Stored Uuid (ReaderWorld.stored inodes)
      (ReaderCall.applyAll start (written.map Prod.snd)))
    (hphase : PhaseOk Uuid inodes (ReaderCall.applyAll start (written.map Prod.snd))
      (written.map Prod.fst) process phase) :
    Invariant Uuid start
      { world with
        inodes := inodes
        phases := Function.update world.phases process phase
        writes := written } := by
  have htickets : world.writes.map Prod.fst ⊆ written.map Prod.fst := List.map_subset _ hwritten
  refine ⟨?_, hapart, hstored, fun ticket hticket => htickets (h.returned ticket hticket)⟩
  refine (Function.forall_update_iff world.phases (PhaseOk Uuid _ _ _)).mpr ⟨hphase, fun other hne => ?_⟩
  refine (h.phases other).passive (h.passive_of_ne hactive hne) hnext (fun file howned => ?_) htickets
  exact hlock file ((h.phases other).lt howned)

omit [DecidableEq Process] [UuidText Uuid] [Chrono] [JsonText] in
theorem stored_eq (h : inodes.named .store = some file) :
    ReaderWorld.stored inodes = inodes.content file := by
  rw [ReaderWorld.stored, h]

omit [DecidableEq Process] in
theorem stored_of_same (h : Stored Uuid (ReaderWorld.stored inodes) view)
    (hnamed : inodes.named .store = some file) (hnamed' : inodes'.named .store = some file)
    (hsame : inodes'.content file = inodes.content file) :
    Stored Uuid (ReaderWorld.stored inodes') view := by
  rw [stored_eq hnamed] at h
  rwa [stored_eq hnamed', hsame]

omit [DecidableEq Process] in
theorem holdsRecords_stored {records : List ReaderStateRecord} (hnamed : inodes.named .store = some file)
    (h : HoldsRecords Uuid (inodes.content file) records) :
    HoldsRecords Uuid (ReaderWorld.stored inodes) records := by
  rwa [stored_eq hnamed]

omit [DecidableEq Process] in
/-- What a reader finds in the store while a line is appended, and after it. -/
theorem holdsRecords_append {records : List ReaderStateRecord} {record : ReaderStateRecord}
    {call : ReaderCall} {done rest bytes : Bytes} (h : Extends Uuid view call records record)
    (hline : lineBytes record.line = done ++ rest)
    (hbytes : bytes = writeLines (records.map ReaderStateRecord.line) ++ done) :
    (rest ≠ [] → HoldsRecords Uuid bytes records) ∧
      (rest = [] → HoldsRecords Uuid bytes (records ++ [record])) := by
  have hplain : ∀ text ∈ records.map ReaderStateRecord.line, '\n' ∉ text := by
    intro text htext
    obtain ⟨other, -, rfl⟩ := List.mem_map.mp htext
    exact other.newline_not_mem_line
  have hholds := (Holds.of_writeLines hplain).append_take record.newline_not_mem_line done.length
  rw [(Holds.of_writeLines hplain).truncateTail_eq] at hholds
  have hdone : (lineBytes record.line).take done.length = done := by
    rw [hline, List.take_left]
  rw [hdone, ← hbytes] at hholds
  constructor
  · intro hrest
    have hlength : ¬ (lineBytes record.line).length ≤ done.length := by
      rw [hline, List.length_append]
      have := List.length_pos_of_ne_nil hrest
      omega
    rw [if_neg hlength] at hholds
    exact ⟨hholds, h.goodRecords⟩
  · rintro rfl
    have hlength : (lineBytes record.line).length ≤ done.length := by
      rw [hline, List.append_nil]
    rw [if_pos hlength] at hholds
    refine ⟨?_, fun other hother => ?_⟩
    · rw [List.map_append]
      exact hholds
    · rcases List.mem_append.mp hother with hother | hother
      · exact h.goodRecords other hother
      · rw [List.mem_singleton.mp hother]
        exact h.good

theorem start_step (h : Invariant Uuid start world) (process : Process) (call : ReaderCall) :
    Invariant Uuid start (world.startCall Uuid process call) := by
  unfold startCall
  split
  · exact h
  · next flowRunId hcanonical =>
    have hphase : ∀ inodes : Inodes StorePath Process Bytes, ∀ file < inodes.next,
        PhaseOk Uuid inodes (world.view start) (world.writes.map Prod.fst) process
          (.opened world.tickets { call with flowRunId := flowRunId } file) :=
      fun inodes file hlt => ⟨hlt, canonicalFlowRunId_idem hcanonical⟩
    cases hnamed : world.inodes.named .store with
    | some file =>
      rw [Inodes.openCreate_eq_of_some [] hnamed]
      have hopened := h.setPhase (hphase world.inodes file (world.inodes.named_lt _ _ hnamed))
      exact ⟨hopened.phases, hopened.apart, hopened.stored, hopened.returned⟩
    | none =>
      -- nobody writes to a store that is missing
      have hpassive : ∀ other, (world.phases other).active = false := by
        intro other
        cases hother : (world.phases other).active with
        | false => rfl
        | true =>
          obtain ⟨file, -, hfile⟩ := (h.phases other).active hother
          rw [hfile.named] at hnamed
          cases hnamed
      have hempty : world.inodes.openCreate .store [] =
          (world.inodes.next, world.inodes.create .store []) := by
        rw [Inodes.openCreate, hnamed]
      rw [hempty]
      refine ⟨(Function.forall_update_iff world.phases (PhaseOk Uuid _ _ _)).mpr
        ⟨hphase _ _ (Nat.lt_succ_self _), fun other _ => ?_⟩, fun file htemporary hstore => ?_, ?_,
        h.returned⟩
      · refine (h.phases other).passive (hpassive other) (Nat.le_succ _) (fun file howned => ?_) fun _ => id
        have hlt := (h.phases other).lt howned
        exact Function.update_of_ne (Nat.ne_of_lt hlt) ..
      · have hold := (Inodes.create_named_of_ne [] (by decide)).symm.trans htemporary
        have hnew := (Inodes.create_named_self StorePath.store []).symm.trans hstore
        cases hnew
        exact Nat.lt_irrefl _ (world.inodes.named_lt _ _ hold)
      · have hstored := h.stored
        rw [ReaderWorld.stored, hnamed] at hstored
        have hcontent : ReaderWorld.stored (world.inodes.create .store []) = [] :=
          (stored_eq (Inodes.create_named_self ..)).trans (Inodes.create_content_self ..)
        exact hcontent.symm ▸ hstored

theorem lock_step (h : Invariant Uuid start world) {ticket : Nat} {call : ReaderCall}
    (hphase : world.phases process = .opened ticket call file)
    (hfree : world.inodes.lock file = none) (hnamed : world.inodes.named .store = some file) :
    Invariant Uuid start
      (ReaderWorld.setPhase { world with inodes := world.inodes.setLock file (some process) } process
        (.locked ticket call file)) := by
  have hother : ∀ other, (world.phases other).owned ≠ some file := by
    intro other howned
    rw [(h.phases other).lock howned] at hfree
    cases hfree
  have hlocked : Invariant Uuid start
      { world with inodes := world.inodes.setLock file (some process) } :=
    ⟨fun other => (h.phases other).setLock (hother other), h.apart, h.stored, h.returned⟩
  have hopened := h.phases process
  rw [hphase] at hopened
  exact hlocked.setPhase ⟨⟨Function.update_self .., hnamed⟩, hopened.2⟩

theorem read_step (h : Invariant Uuid start world) {ticket : Nat} {call : ReaderCall}
    (hphase : world.phases process = .locked ticket call file) {plan : ReaderCall.Plan}
    (hplan : call.plan Uuid (ReaderWorld.stored world.inodes) = .ok plan) :
    (∀ line, plan = .append true line →
      Invariant Uuid start (world.setPhase process (.truncating ticket call file line))) ∧
    (∀ line, plan = .append false line →
      Invariant Uuid start (world.setPhase process (.appending ticket call file line))) ∧
    ∀ bytes, plan = .compact bytes →
      Invariant Uuid start (world.setPhase process (.staging ticket call file bytes)) := by
  have hlocked := h.phases process
  rw [hphase] at hlocked
  obtain ⟨records, hholds, hview⟩ := h.stored
  have hcontent := stored_eq hlocked.1.named
  rcases plan_ok hholds hlocked.2 hplan with ⟨record, rfl, hgood, hafter⟩ | ⟨kept, rfl, hgood, hafter⟩
  · have hextends : Extends Uuid (world.view start) call records record :=
      ⟨hholds.good, hgood, hview, hview ▸ hafter⟩
    refine ⟨fun line hline => ?_, fun line hline => ?_, fun _ hbytes => by cases hbytes⟩
    · rw [ReaderCall.Plan.append.injEq] at hline
      obtain ⟨-, rfl⟩ := hline
      exact h.setPhase ⟨hlocked.1, records, record, hextends, hcontent ▸ hholds.holds, rfl⟩
    · -- a store that is not torn is its lines
      rw [ReaderCall.Plan.append.injEq] at hline
      obtain ⟨htorn, rfl⟩ := hline
      have hwhole := SupersedeCall.repaired_eq (ReaderWorld.stored world.inodes)
      rw [htorn, if_neg Bool.false_ne_true] at hwhole
      refine h.setPhase ⟨hlocked.1, by simp [lineBytes], records, record, [], hextends, rfl, ?_⟩
      rw [List.append_nil, ← hcontent, hwhole]
      exact hholds.holds.truncateTail_eq
  · refine ⟨fun _ hline => (by cases hline), fun _ hline => (by cases hline), fun bytes hbytes => ?_⟩
    cases hbytes
    exact h.setPhase ⟨hlocked.1, kept, hgood, rfl, hview ▸ hafter⟩

theorem truncate_step (h : Invariant Uuid start world) {ticket : Nat} {call : ReaderCall} {line : Bytes}
    (hphase : world.phases process = .truncating ticket call file line) :
    Invariant Uuid start
      (ReaderWorld.setPhase
        { world with inodes := world.inodes.write file (truncateTail (world.inodes.content file)) }
        process (.appending ticket call file line)) := by
  have htruncating := h.phases process
  rw [hphase] at htruncating
  obtain ⟨hactive, records, record, hextends, hholds, rfl⟩ := htruncating
  have hlines := hholds.truncateTail_eq
  have hcontent : (world.inodes.write file (truncateTail (world.inodes.content file))).content file =
      writeLines (records.map ReaderStateRecord.line) ++ [] := by
    rw [List.append_nil, ← hlines]
    exact Function.update_self ..
  have hnew : lineBytes record.line ≠ [] := by simp [lineBytes]
  refine h.write (by rw [hphase]; rfl) (fun _ => id) (le_refl _) (fun _ _ => rfl) h.apart ?_ ?_
  · exact ⟨records, holdsRecords_stored hactive.named
      ((holdsRecords_append hextends (List.nil_append _).symm hcontent).1 hnew), hextends.before⟩
  · exact ⟨⟨hactive.lock, hactive.named⟩, hnew, records, record, [], hextends, rfl, hcontent⟩

theorem append_step (h : Invariant Uuid start world) {ticket : Nat} {call : ReaderCall} {rest : Bytes}
    (hphase : world.phases process = .appending ticket call file rest) (bytes : Nat) :
    (rest.length ≤ bytes → Invariant Uuid start (world.complete process ticket call file
      (world.inodes.write file (world.inodes.content file ++ rest.take bytes)))) ∧
    (¬ rest.length ≤ bytes → Invariant Uuid start
      (ReaderWorld.setPhase
        { world with
          inodes := world.inodes.write file (world.inodes.content file ++ rest.take bytes) }
        process (.appending ticket call file (rest.drop bytes)))) := by
  have happending := h.phases process
  rw [hphase] at happending
  obtain ⟨hactive, hrest, records, record, done, hextends, hline, hcontent⟩ := happending
  have hnow : (world.inodes.write file (world.inodes.content file ++ rest.take bytes)).content file =
      writeLines (records.map ReaderStateRecord.line) ++ (done ++ rest.take bytes) := by
    rw [← List.append_assoc, ← hcontent]
    exact Function.update_self ..
  have hsplit : lineBytes record.line = (done ++ rest.take bytes) ++ rest.drop bytes := by
    rw [List.append_assoc, List.take_append_drop, hline]
  obtain ⟨hpart, hwhole⟩ := holdsRecords_append hextends hsplit hnow
  constructor
  · intro hle
    have hview : ReaderCall.applyAll start ((world.writes ++ [(ticket, call)]).map Prod.snd) =
        call.apply (world.view start) := by
      rw [List.map_append]
      exact ReaderCall.applyAll_concat ..
    refine h.write (by rw [hphase]; rfl) (List.subset_append_left ..) (le_refl _) (fun _ _ => rfl)
      h.apart ?_ ?_
    · rw [hview]
      exact ⟨records ++ [record], holdsRecords_stored hactive.named
        (hwhole (List.drop_of_length_le hle)), hextends.after⟩
    · exact ⟨hactive.lt, hactive.lock, by simp⟩
  · intro hle
    have hleft : rest.drop bytes ≠ [] := by
      rw [Ne, List.drop_eq_nil_iff]
      exact hle
    refine h.write (by rw [hphase]; rfl) (fun _ => id) (le_refl _) (fun _ _ => rfl) h.apart ?_ ?_
    · exact ⟨records, holdsRecords_stored hactive.named (hpart hleft), hextends.before⟩
    · exact ⟨⟨hactive.lock, hactive.named⟩, hleft, records, record, _, hextends, hsplit, hnow⟩

/-- The store stays as it is while the temporary file is opened. -/
theorem stage_step (h : Invariant Uuid start world) {ticket : Nat} {call : ReaderCall} {bytes : Bytes}
    (hphase : world.phases process = .staging ticket call file bytes) :
    Invariant Uuid start
      (ReaderWorld.setPhase
        { world with
          inodes := (world.inodes.openCreate .temporary []).2.write
            (world.inodes.openCreate .temporary []).1 [] }
        process (.filling ticket call file bytes (world.inodes.openCreate .temporary []).1 0)) := by
  have hstaging := h.phases process
  rw [hphase] at hstaging
  obtain ⟨hactive, hfolds⟩ := hstaging
  obtain ⟨kept, hfolds⟩ := hfolds
  have hnamed := Inodes.openCreate_named_of_some .temporary [] hactive.named
  have htemporary := world.inodes.openCreate_named .temporary []
  have hne := Inodes.ne_openCreate .temporary [] hactive.named h.apart
  have hlock : ∀ other < world.inodes.next,
      (world.inodes.openCreate .temporary []).2.lock other = world.inodes.lock other :=
    fun other hother => Inodes.openCreate_lock .temporary [] hother
  refine h.write (by rw [hphase]; rfl) (fun _ => id) (world.inodes.le_openCreate_next .temporary [])
    hlock (fun other hother hstore => ?_) ?_ ?_
  · have hsame := hother.symm.trans htemporary
    cases hsame
    exact hne (Option.some.inj (hnamed.symm.trans hstore))
  · refine stored_of_same h.stored hactive.named hnamed ?_
    exact (Function.update_of_ne hne ..).trans (Inodes.openCreate_content .temporary [] hactive.lt)
  · exact ⟨⟨(hlock file hactive.lt).trans hactive.lock, hnamed⟩, ⟨kept, hfolds⟩, htemporary,
      Nat.zero_le _, Function.update_self ..⟩

theorem fill_step (h : Invariant Uuid start world) {ticket : Nat} {call : ReaderCall} {bytes : Bytes}
    {temporary written : Nat}
    (hphase : world.phases process = .filling ticket call file bytes temporary written) (count : Nat) :
    Invariant Uuid start
      (ReaderWorld.setPhase
        { world with
          inodes := world.inodes.write temporary (writeAt (world.inodes.content temporary) written
            ((bytes.drop written).take count)) }
        process (.filling ticket call file bytes temporary
          (written + ((bytes.drop written).take count).length))) := by
  have hfilling := h.phases process
  rw [hphase] at hfilling
  obtain ⟨hactive, hfolds, htemporary, hwritten, hcontent⟩ := hfilling
  have hne : file ≠ temporary := by
    rintro rfl
    exact h.apart _ htemporary hactive.named
  have hle : written + ((bytes.drop written).take count).length ≤ bytes.length := by
    rw [List.length_take, List.length_drop]
    omega
  refine h.write (by rw [hphase]; rfl) (fun _ => id) (le_refl _) (fun _ _ => rfl) h.apart ?_ ?_
  · exact stored_of_same h.stored hactive.named hactive.named (Function.update_of_ne hne ..)
  · refine ⟨⟨hactive.lock, hactive.named⟩, hfolds, htemporary, hle, ?_⟩
    rw [← writeAt_take hwritten, ← hcontent]
    exact Function.update_self ..

theorem rename_step (h : Invariant Uuid start world) {ticket : Nat} {call : ReaderCall} {bytes : Bytes}
    {temporary written : Nat}
    (hphase : world.phases process = .filling ticket call file bytes temporary written)
    (hle : bytes.length ≤ written) :
    Invariant Uuid start
      (world.complete process ticket call file (world.inodes.rename .temporary .store)) := by
  have hfilling := h.phases process
  rw [hphase] at hfilling
  obtain ⟨hactive, ⟨kept, hfolds⟩, htemporary, -, hcontent⟩ := hfilling
  have hview : ReaderCall.applyAll start ((world.writes ++ [(ticket, call)]).map Prod.snd) =
      call.apply (world.view start) := by
    rw [List.map_append]
    exact ReaderCall.applyAll_concat ..
  have hplain : ∀ text ∈ kept.map ReaderStateRecord.line, '\n' ∉ text := by
    intro text htext
    obtain ⟨other, -, rfl⟩ := List.mem_map.mp htext
    exact other.newline_not_mem_line
  have hbytes : world.inodes.content temporary = writeLines (kept.map ReaderStateRecord.line) := by
    rw [hcontent, List.take_of_length_le hle, hfolds.bytes]
  have hnone : (world.inodes.rename .temporary .store).named .temporary = none :=
    Inodes.rename_named_source ..
  have hstore : (world.inodes.rename .temporary .store).named .store = some temporary :=
    (Inodes.rename_named_target (by decide)).trans htemporary
  refine h.write (by rw [hphase]; rfl) (List.subset_append_left ..) (le_refl _) (fun _ _ => rfl)
    (fun other hother => ?_) ?_ ?_
  · rw [hnone] at hother
    cases hother
  · rw [hview]
    refine ⟨kept, holdsRecords_stored hstore ⟨?_, hfolds.good⟩, hfolds.after⟩
    have hholds := Holds.of_writeLines hplain
    rw [← hbytes] at hholds
    exact hholds
  · exact ⟨hactive.lt, hactive.lock, by simp⟩

theorem finish_step (h : Invariant Uuid start world) {ticket : Nat} {call : ReaderCall}
    (hphase : world.phases process = .written ticket call file) :
    Invariant Uuid start (ReaderWorld.close { world with returned := ticket :: world.returned } process) := by
  have hwritten := h.phases process
  rw [hphase] at hwritten
  have hreturned : Invariant Uuid start { world with returned := ticket :: world.returned } := by
    refine ⟨h.phases, h.apart, h.stored, fun other hother => ?_⟩
    rcases List.mem_cons.mp hother with rfl | hother
    · exact hwritten.2.2
    · exact h.returned other hother
  exact hreturned.close process

theorem step (h : Invariant Uuid start world) {event : SetEvent Process}
    (hevent : world.LocksStore event) : Invariant Uuid start (world.step Uuid event) := by
  cases event with
  | start process call =>
    rw [ReaderWorld.step]
    split
    · exact h.start_step process call
    · exact h
  | lock process =>
    rw [ReaderWorld.step]
    split
    · next ticket call file hphase =>
      split
      · next hfree => exact h.lock_step hphase hfree (hevent ticket call file hphase)
      · exact h
    · exact h
  | read process =>
    rw [ReaderWorld.step]
    split
    · next ticket call file hphase =>
      split
      · exact h.close process
      · next hplan => exact (h.read_step hphase hplan).1 _ rfl
      · next hplan => exact (h.read_step hphase hplan).2.1 _ rfl
      · next hplan => exact (h.read_step hphase hplan).2.2 _ rfl
    · exact h
  | truncate process =>
    rw [ReaderWorld.step]
    split
    · next hphase => exact h.truncate_step hphase
    · exact h
  | append process bytes =>
    rw [ReaderWorld.step]
    split
    · next hphase =>
      dsimp only
      split
      · next hle => exact (h.append_step hphase bytes).1 hle
      · next hle => exact (h.append_step hphase bytes).2 hle
    · exact h
  | stage process =>
    rw [ReaderWorld.step]
    split
    · next hphase => exact h.stage_step hphase
    · exact h
  | fill process count =>
    rw [ReaderWorld.step]
    split
    · next hphase => exact h.fill_step hphase count
    · exact h
  | rename process =>
    rw [ReaderWorld.step]
    split
    · next hphase =>
      split
      · next hle =>
        split
        · exact h.rename_step hphase hle
        · exact h.close process
      · exact h
    · exact h
  | finish process =>
    rw [ReaderWorld.step]
    split
    · next hphase => exact h.finish_step hphase
    · exact h
  | fail process => exact h.close process

end Invariant

/-! ## Whole runs -/

/-- A reader of the store gets what writes have made of the runs, in the order of the writes. The writes
of all calls that have returned Ok are among them. -/
def UpdatesSurvive (Uuid : Type) [UuidText Uuid] (start : ReaderView)
    (world : ReaderWorld Process) : Prop :=
  ∃ effects : List (Nat × ReaderCall), effects.Sublist world.writes ∧
    (∀ ticket ∈ world.returned, ticket ∈ effects.map Prod.fst) ∧
    ∃ state, ReaderState.read Uuid (stored world.inodes) = .ok state ∧
      ∀ run, state.isArchived Uuid run =
          (ReaderCall.applyAll start (effects.map Prod.snd) (lookupKey Uuid run)).1 ∧
        state.triageTag Uuid run =
          (ReaderCall.applyAll start (effects.map Prod.snd) (lookupKey Uuid run)).2

theorem invariant_initial {store : Option Bytes} {records : List ReaderStateRecord}
    (h : HoldsRecords Uuid (store.getD []) records) :
    Invariant Uuid (viewOf records) (initial store : ReaderWorld Process) where
  phases _ := trivial
  apart _ htemporary := nomatch htemporary
  stored := by
    refine ⟨records, ?_, rfl⟩
    cases store with
    | none => exact h
    | some bytes => exact h
  returned _ hticket := nomatch hticket

variable [DecidableEq Process]

theorem run_invariant {store : Option Bytes} {records : List ReaderStateRecord}
    (h : HoldsRecords Uuid (store.getD []) records) {events : List (SetEvent Process)}
    (hlocks : ∀ before event after, events = before ++ event :: after →
      (run Uuid store before).LocksStore event) :
    Invariant Uuid (viewOf records) (run Uuid store events) := by
  induction events using List.reverseRecOn with
  | nil => exact invariant_initial h
  | append_singleton events event ih =>
    have hbefore := ih fun before other after heq =>
      hlocks before other (after ++ [event]) (by rw [heq]; simp)
    rw [run, List.foldl_append]
    exact hbefore.step (hlocks events event [] rfl)

/-- If every call that gets the lock has opened the file that is still under the path, the store reads
back and no update of a call that returned Ok is lost. -/
theorem updates_survive {store : Option Bytes} {records : List ReaderStateRecord}
    (hstore : HoldsRecords Uuid (store.getD []) records) {events : List (SetEvent Process)}
    (hlocks : ∀ before event after, events = before ++ event :: after →
      (run Uuid store before).LocksStore event) :
    UpdatesSurvive Uuid (viewOf records) (run Uuid store events) := by
  have h := run_invariant hstore hlocks
  obtain ⟨state, hread, hview⟩ := h.stored.read
  exact ⟨_, List.Sublist.refl _, h.returned, state, hread, hview⟩

end ReaderWorld

/-! ## A call that waits for the lock -/

namespace ReaderWorld

variable {Process : Type} [DecidableEq Process] {Uuid : Type} [UuidText Uuid] [Chrono] [JsonText]
  {world : ReaderWorld Process} {process : Process} {ticket file : Nat} {call : ReaderCall}

variable (Uuid) in
/-- The events lead to where `ends` holds, and every lock of them is one on the store. -/
inductive Leads (ends : ReaderWorld Process → Prop) :
    ReaderWorld Process → List (SetEvent Process) → Prop
  | nil {world : ReaderWorld Process} (h : ends world) : Leads ends world []
  | cons {world next : ReaderWorld Process} {event : SetEvent Process}
    {events : List (SetEvent Process)} (hlocks : world.LocksStore event)
    (hstep : world.step Uuid event = next) (hrest : Leads ends next events) :
    Leads ends world (event :: events)

variable {ends : ReaderWorld Process → Prop} {events : List (SetEvent Process)}

theorem Leads.foldl (h : Leads Uuid ends world events) : ends (events.foldl (step Uuid) world) := by
  induction h with
  | nil h => exact h
  | cons _ hstep _ ih =>
    rw [List.foldl_cons, hstep]
    exact ih

theorem Leads.locksStore (h : Leads Uuid ends world events) :
    ∀ before event after, events = before ++ event :: after →
      (before.foldl (step Uuid) world).LocksStore event := by
  intro before event after hsplit
  induction before generalizing world events with
  | nil =>
    cases hsplit
    cases h with
    | cons hlocks => exact hlocks
  | cons first before ih =>
    cases hsplit
    cases h with
    | cons _ hstep hrest =>
      rw [List.foldl_cons, hstep]
      exact ih hrest rfl

omit [DecidableEq Process] [Chrono] [JsonText] in
theorem locksStore_of_opened (hphase : world.phases process = .opened ticket call file)
    (hnamed : world.inodes.named .store = some file) : world.LocksStore (.lock process) := by
  intro other otherCall otherFile h
  rw [hphase] at h
  cases h
  exact hnamed

theorem step_lock_taken {other : Process} (hphase : world.phases process = .opened ticket call file)
    (htaken : world.inodes.lock file = some other) : world.step Uuid (.lock process) = world := by
  rw [step, hphase]
  dsimp only
  rw [htaken, if_neg (Option.some_ne_none other)]

theorem step_start (hphase : world.phases process = .idle)
    (hrun : canonicalFlowRunId Uuid call.flowRunId = .ok call.flowRunId)
    (hnamed : world.inodes.named .store = some file) :
    world.step Uuid (.start process call) =
      { world with
        phases := Function.update world.phases process (.opened world.tickets call file)
        tickets := world.tickets + 1 } := by
  rw [step, hphase]
  simp only [startCall, hrun, Inodes.openCreate_eq_of_some [] hnamed]

theorem step_lock (hphase : world.phases process = .opened ticket call file)
    (hfree : world.inodes.lock file = none) :
    world.step Uuid (.lock process) =
      ReaderWorld.setPhase { world with inodes := world.inodes.setLock file (some process) } process
        (.locked ticket call file) := by
  rw [step, hphase]
  exact if_pos hfree

theorem step_read_append {line : Bytes} (hphase : world.phases process = .locked ticket call file)
    (hplan : call.plan Uuid (stored world.inodes) = .ok (.append false line)) :
    world.step Uuid (.read process) = world.setPhase process (.appending ticket call file line) := by
  rw [step, hphase]
  simp only [hplan]

theorem step_read_compact {bytes : Bytes} (hphase : world.phases process = .locked ticket call file)
    (hplan : call.plan Uuid (stored world.inodes) = .ok (.compact bytes)) :
    world.step Uuid (.read process) = world.setPhase process (.staging ticket call file bytes) := by
  rw [step, hphase]
  simp only [hplan]

theorem step_append {rest : Bytes} {count : Nat}
    (hphase : world.phases process = .appending ticket call file rest) (hle : rest.length ≤ count) :
    world.step Uuid (.append process count) =
      world.complete process ticket call file
        (world.inodes.write file (world.inodes.content file ++ rest)) := by
  rw [step, hphase]
  simp only [if_pos hle, List.take_of_length_le hle]

theorem step_rename {bytes : Bytes} {temporary written : Nat}
    (hphase : world.phases process = .filling ticket call file bytes temporary written)
    (hle : bytes.length ≤ written) (hnamed : world.inodes.named .temporary = some temporary) :
    world.step Uuid (.rename process) =
      world.complete process ticket call file (world.inodes.rename .temporary .store) := by
  rw [step, hphase]
  simp only [if_pos hle, hnamed, Option.isSome_some, if_true]

theorem step_stage {bytes : Bytes} (hphase : world.phases process = .staging ticket call file bytes)
    (hnamed : world.inodes.named .temporary = none) :
    world.step Uuid (.stage process) =
      ReaderWorld.setPhase { world with inodes := (world.inodes.create .temporary []).write world.inodes.next [] }
        process (.filling ticket call file bytes world.inodes.next 0) := by
  rw [step, hphase]
  simp only [Inodes.openCreate, hnamed]

theorem step_fill {bytes : Bytes} {temporary count : Nat}
    (hphase : world.phases process = .filling ticket call file bytes temporary 0)
    (hempty : world.inodes.content temporary = []) (hle : bytes.length ≤ count) :
    world.step Uuid (.fill process count) =
      ReaderWorld.setPhase { world with inodes := world.inodes.write temporary bytes } process
        (.filling ticket call file bytes temporary bytes.length) := by
  rw [step, hphase]
  simp [hempty, List.take_of_length_le hle, writeAt]

theorem step_finish (hphase : world.phases process = .written ticket call file) :
    world.step Uuid (.finish process) =
      { world with
        inodes := world.inodes.setLock file none
        phases := Function.update world.phases process .idle
        returned := ticket :: world.returned } := by
  rw [step, hphase]
  simp only [close, hphase, SetPhase.owned]

end ReaderWorld

namespace ReaderSample

open ReaderWorld

/-- The stamps here are well formed. -/
instance : Chrono := ⟨fun _ => true⟩

local instance : JsonText := compactReader

def now : String := "2026-08-18T00:00:00.000Z"

/-- One process archives a run. -/
def archive : ReaderCall where
  flowRunId := "00000000-0000-4000-8000-0000000000a1"
  update := { archived := some true, triageTag := some none }
  now := now

/-- Another process says that another run is not archived. -/
def touch : ReaderCall where
  flowRunId := "00000000-0000-4000-8000-0000000000b2"
  update := { archived := some false, triageTag := some none }
  now := now

def touched : ReaderStateRecord := touch.record []

def records : List ReaderStateRecord := List.replicate readerStateCompactThreshold touched

/-- A store at its bound. -/
def store : Bytes := writeLines (records.map ReaderStateRecord.line)

def compacted : Bytes := writeLines [touched.line]

def archivedLine : Bytes := lineBytes (archive.record []).line

/-- The first process waits for the lock while the second one compacts the store. -/
def events : List (SetEvent Bool) :=
  [.start false archive, .start true touch, .lock true, .read true, .stage true, .fill true 1000,
    .rename true, .finish true, .lock false, .read false, .append false 1000, .finish false]

/-- What the run below is evaluated to. -/
theorem evaluated :
    canonicalFlowRunId Nibbles archive.flowRunId = .ok archive.flowRunId ∧
      canonicalFlowRunId Nibbles touch.flowRunId = .ok touch.flowRunId ∧
      compacted.length ≤ 1000 ∧ archivedLine.length ≤ 1000 ∧ touched.validate Nibbles = .ok () ∧
      (archive.record []).validate Nibbles = .ok () ∧ isTorn compacted = false ∧
      isTorn (compacted ++ archivedLine) = false := by
  decide +kernel

theorem canonical_archive : canonicalFlowRunId Nibbles archive.flowRunId = .ok archive.flowRunId :=
  evaluated.1

theorem canonical_touch : canonicalFlowRunId Nibbles touch.flowRunId = .ok touch.flowRunId :=
  evaluated.2.1

theorem length_compacted : compacted.length ≤ 1000 := evaluated.2.2.1

theorem length_archivedLine : archivedLine.length ≤ 1000 := evaluated.2.2.2.1

theorem run_of_plans {store compacted line : Bytes}
    (hfirst : touch.plan Nibbles store = .ok (.compact compacted)) (hcompacted : compacted.length ≤ 1000)
    (hsecond : archive.plan Nibbles compacted = .ok (.append false line)) (hline : line.length ≤ 1000) :
    stored (run Nibbles (some store) events).inodes = compacted ∧
      (run Nibbles (some store) events).writes = [(1, touch), (0, archive)] ∧
      (run Nibbles (some store) events).returned = [0, 1] := by
  rw [run, events, List.foldl_cons, step_start rfl canonical_archive rfl, List.foldl_cons,
    step_start rfl canonical_touch rfl, List.foldl_cons, step_lock rfl rfl, List.foldl_cons,
    step_read_compact rfl hfirst, List.foldl_cons, step_stage rfl rfl, List.foldl_cons,
    step_fill rfl rfl hcompacted, List.foldl_cons, step_rename rfl le_rfl rfl, List.foldl_cons,
    step_finish rfl, List.foldl_cons, step_lock rfl rfl, List.foldl_cons, step_read_append rfl hsecond,
    List.foldl_cons, step_append rfl hline, List.foldl_cons, step_finish rfl, List.foldl_nil]
  exact ⟨rfl, rfl, rfl⟩

theorem touched_good : touched.Good Nibbles := ⟨evaluated.2.2.2.2.1, canonical_touch⟩

theorem archived_good : (archive.record []).Good Nibbles :=
  ⟨evaluated.2.2.2.2.2.1, canonical_archive⟩

theorem holdsRecords_lines {records : List ReaderStateRecord}
    (h : ∀ record ∈ records, record.Good Nibbles) :
    HoldsRecords Nibbles (writeLines (records.map ReaderStateRecord.line)) records := by
  refine ⟨Holds.of_writeLines fun text htext => ?_, h⟩
  obtain ⟨record, -, rfl⟩ := List.mem_map.mp htext
  exact record.newline_not_mem_line

theorem holdsRecords_store : HoldsRecords Nibbles store records :=
  holdsRecords_lines fun _ hrecord => List.eq_of_mem_replicate hrecord ▸ touched_good

theorem holdsRecords_compacted : HoldsRecords Nibbles compacted [touched] :=
  holdsRecords_lines fun _ hrecord => List.mem_singleton.mp hrecord ▸ touched_good

theorem holdsRecords_appended :
    HoldsRecords Nibbles (compacted ++ archivedLine) [touched, archive.record []] := by
  have hlines : compacted ++ archivedLine =
      writeLines ([touched, archive.record []].map ReaderStateRecord.line) := by
    rw [List.map_cons, List.map_singleton, ← List.singleton_append, writeLines_append,
      writeLines_singleton (archive.record []).line]
    rfl
  rw [hlines]
  refine holdsRecords_lines fun record hrecord => ?_
  simp only [List.mem_cons, List.not_mem_nil, or_false] at hrecord
  rcases hrecord with rfl | rfl
  · exact touched_good
  · exact archived_good

/-- The store is at its bound, so it is folded. -/
theorem plan_touch : touch.plan Nibbles store = .ok (.compact compacted) := by
  have hrecord : ∀ existing, touch.record existing = touched := fun _ => rfl
  obtain ⟨existing, hexisting, hplan⟩ := plan_eq holdsRecords_store hrecord touched_good.valid
  have hfull : records.length + 1 > readerStateCompactThreshold := by
    rw [records, List.length_replicate]
    omega
  have hsame : ∀ other ∈ existing.map Prod.snd, other.flowRunId = touched.flowRunId := by
    intro other hother
    rw [hexisting] at hother
    rw [List.eq_of_mem_replicate hother]
  rw [hplan, if_pos hfull, folded_eq_singleton hsame]
  rfl

theorem plan_archive : archive.plan Nibbles compacted = .ok (.append false archivedLine) := by
  have hrecord : ∀ existing, archive.record existing = archive.record [] := fun _ => rfl
  obtain ⟨existing, -, hplan⟩ := plan_eq holdsRecords_compacted hrecord archived_good.valid
  have htorn : isTorn compacted = false := evaluated.2.2.2.2.2.2.1
  rw [hplan, if_neg (by decide), htorn]
  rfl

/-- After the other call, the same one appends. -/
theorem plan_again : touch.plan Nibbles (compacted ++ archivedLine) = .ok (.append false compacted) := by
  have hrecord : ∀ existing, touch.record existing = touched := fun _ => rfl
  obtain ⟨existing, -, hplan⟩ := plan_eq holdsRecords_appended hrecord touched_good.valid
  have htorn : isTorn (compacted ++ archivedLine) = false := evaluated.2.2.2.2.2.2.2
  rw [hplan, if_neg (by decide), htorn, compacted, writeLines_singleton]

/-- The second process compacts the store, and calls again: it waits for the first one, which has opened
the file that the compaction has left. -/
def contended : List (SetEvent Bool) :=
  [.start true touch, .lock true, .read true, .stage true, .fill true 1000, .rename true,
    .start false archive, .lock false, .finish true, .start true touch, .lock true, .read false,
    .append false 1000, .finish false, .lock true, .read true, .append true 1000, .finish true]

theorem contended_leads {store compacted line again : Bytes}
    (hfirst : touch.plan Nibbles store = .ok (.compact compacted)) (hcompacted : compacted.length ≤ 1000)
    (hsecond : archive.plan Nibbles compacted = .ok (.append false line)) (hline : line.length ≤ 1000)
    (hthird : touch.plan Nibbles (compacted ++ line) = .ok (.append false again))
    (hagain : again.length ≤ 1000) :
    Leads Nibbles (fun last => last.returned = [2, 1, 0] ∧ stored last.inodes = compacted ++ line ++ again)
      (initial (some store)) contended := by
  refine .cons trivial (step_start rfl canonical_touch rfl) ?_
  refine .cons (locksStore_of_opened rfl rfl) (step_lock rfl rfl) ?_
  refine .cons trivial (step_read_compact rfl hfirst) ?_
  refine .cons trivial (step_stage rfl rfl) ?_
  refine .cons trivial (step_fill rfl rfl hcompacted) ?_
  refine .cons trivial (step_rename rfl le_rfl rfl) ?_
  -- the other process opens the new file, while the old one is still locked
  refine .cons trivial (step_start rfl canonical_archive rfl) ?_
  refine .cons (locksStore_of_opened rfl rfl) (step_lock rfl rfl) ?_
  refine .cons trivial (step_finish rfl) ?_
  -- now the first process has to wait
  refine .cons trivial (step_start rfl canonical_touch rfl) ?_
  refine .cons (locksStore_of_opened rfl rfl) (step_lock_taken rfl rfl) ?_
  refine .cons trivial (step_read_append rfl hsecond) ?_
  refine .cons trivial (step_append rfl hline) ?_
  refine .cons trivial (step_finish rfl) ?_
  refine .cons (locksStore_of_opened rfl rfl) (step_lock rfl rfl) ?_
  refine .cons trivial (step_read_append rfl hthird) ?_
  refine .cons trivial (step_append rfl hagain) ?_
  refine .cons trivial (step_finish rfl) ?_
  exact .nil ⟨rfl, rfl⟩

/-- Two processes and a compaction. -/
theorem updates_survive_contended :
    UpdatesSurvive Nibbles (viewOf records) (run Nibbles (some store) contended) ∧
      (run Nibbles (some store) contended).returned = [2, 1, 0] ∧
      stored (run Nibbles (some store) contended).inodes = compacted ++ archivedLine ++ compacted := by
  have hleads := contended_leads plan_touch length_compacted plan_archive length_archivedLine plan_again
    length_compacted
  exact ⟨updates_survive holdsRecords_store hleads.locksStore, hleads.foldl⟩

/-- Both calls return Ok, and the store says that the run is not archived. -/
theorem archive_is_lost :
    HoldsRecords Nibbles store records ∧
      ¬ UpdatesSurvive Nibbles (viewOf records) (run Nibbles (some store) events) := by
  refine ⟨holdsRecords_store, ?_⟩
  rintro ⟨effects, hsub, hreturned, state, hread, hview⟩
  obtain ⟨hstored, hwrites, hoks⟩ :=
    run_of_plans plan_touch length_compacted plan_archive length_archivedLine
  rw [hstored] at hread
  rw [hwrites] at hsub
  rw [hoks] at hreturned
  have hbefore : (0 : Nat) ∈ effects.map Prod.fst := hreturned 0 (by simp)
  have hafter : (1 : Nat) ∈ effects.map Prod.fst := hreturned 1 (by simp)
  -- the effects are both writes
  have heffects : effects = [(1, touch), (0, archive)] := by
    cases hsub with
    | cons _ hsub =>
      have hnone : (1 : Nat) ∈ [(0, archive)].map Prod.fst := (hsub.map Prod.fst).subset hafter
      simp at hnone
    | cons_cons _ hsub =>
      cases hsub with
      | cons _ hsub =>
        rw [List.sublist_nil.mp hsub] at hbefore
        simp at hbefore
      | cons_cons _ hsub => rw [List.sublist_nil.mp hsub]
  have hkey : lookupKey Nibbles archive.flowRunId = archive.flowRunId := lookupKey_eq canonical_archive
  have hfound := (hview archive.flowRunId).1
  obtain ⟨other, hother, hsaid⟩ := Stored.read ⟨[touched], holdsRecords_compacted, rfl⟩
  rw [hread] at hother
  cases hother
  rw [(hsaid archive.flowRunId).1, hkey, heffects] at hfound
  exact absurd hfound (by decide +kernel)

end ReaderSample

end Tally.Flow
