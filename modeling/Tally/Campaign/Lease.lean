import Tally.Lib.Json
import Tally.Lib.Result
import Tally.Witness.Record

/-!
# The campaign lease

The durable record of the lease of a campaign and the guard that writes it (`campaign_lease.rs`). A
lease lapses when the graph it is bound to is finished. The store keeps the last record only: a lapse
stays on record until an acquisition of another graph is written over it
(`LeaseWorld.Closed.run`), and once that has lost its lock the first graph is open again
(`LeaseSample.lapsed_graph_reopens`). What holds of every run is `lapsed_graph_stays_closed`.
-/

namespace Tally.Campaign

open Tally.Lib
open Tally.Witness (natValue present strings)

/-! ## Records -/

inductive CampaignLeaseState
  | held
  | lapsed
  deriving DecidableEq

def CampaignLeaseState.asStr : CampaignLeaseState → String
  | held => "held"
  | lapsed => "lapsed"

structure CampaignLeaseHolder where
  pid : UInt32
  since : String
  deriving DecidableEq

/-- The task and the reference of a gate that proved a revision. -/
structure PublishProof where
  taskId : String
  reference : String
  deriving DecidableEq

structure CampaignLapseV1 where
  graphDigest : String
  armSerial : UInt64
  tasks : List String
  sha : String
  provenBy : PublishProof
  lapsedAt : String
  deriving DecidableEq

structure CampaignLeaseV1 where
  schemaVersion : UInt32
  campaign : String
  repository : String
  worklist : String
  state : CampaignLeaseState
  armSerial : UInt64
  graphDigest : String
  acquiredAt : String
  renewedAt : String
  holder : Option CampaignLeaseHolder
  lapse : Option CampaignLapseV1
  deriving DecidableEq

structure CampaignActivation where
  campaign : String
  repository : String
  worklist : String
  armSerial : UInt64
  graphDigest : String

inductive CampaignLeaseAcquisition
  | activated
  | resumed
  | reactivated
  deriving DecidableEq

inductive CampaignLeaseError
  | io (context : String)
  | notBounded
  | held (campaign holder : String)
  | lapsed (campaign sha lapsedAt : String)
  | unprovenLapse (reference sha : String)
  | invalidRecord (field detail : String)
  deriving DecidableEq

/-- What the lease takes from the library for time. -/
class Rfc3339 where
  /-- `DateTime::parse_from_rfc3339(value).is_ok()`. -/
  parses : String → Bool

/-! ## Proofs of revisions -/

def isLowerHexDigit (c : Char) : Bool := c.isDigit || ('a' ≤ c && c ≤ 'f')

def isObjectId (value : String) : Bool :=
  (value.utf8ByteSize == 40 || value.utf8ByteSize == 64) && value.toList.all isLowerHexDigit

/-- The reference is a path whose last component is the revision. -/
def proofNamesRevision (reference sha : String) : Bool :=
  isObjectId sha && sha.toList.isSuffixOf reference.toList &&
    (reference.toList.take (reference.length - sha.length)).getLast? == some '/'

/-! ## Encoding -/

def CampaignLapseV1.toValue (lapse : CampaignLapseV1) : Value :=
  .object [("graphDigest", .string lapse.graphDigest), ("armSerial", natValue lapse.armSerial.toNat),
    ("tasks", strings lapse.tasks), ("sha", .string lapse.sha),
    ("provenBy", .object [("taskId", .string lapse.provenBy.taskId),
      ("reference", .string lapse.provenBy.reference)]),
    ("lapsedAt", .string lapse.lapsedAt)]

def CampaignLeaseV1.toValue (record : CampaignLeaseV1) : Value :=
  .object (present [("schemaVersion", some (natValue record.schemaVersion.toNat)),
    ("campaign", some (.string record.campaign)), ("repository", some (.string record.repository)),
    ("worklist", some (.string record.worklist)), ("state", some (.string record.state.asStr)),
    ("armSerial", some (natValue record.armSerial.toNat)),
    ("graphDigest", some (.string record.graphDigest)),
    ("acquiredAt", some (.string record.acquiredAt)), ("renewedAt", some (.string record.renewedAt)),
    ("holder", record.holder.map fun holder =>
      .object [("pid", natValue holder.pid.toNat), ("since", .string holder.since)]),
    ("lapse", record.lapse.map CampaignLapseV1.toValue)])

/-- The length of the file, with the line feed at its end. -/
def CampaignLeaseV1.fileLength (record : CampaignLeaseV1) : Nat :=
  (encode (render record.toValue)).length + 1

def maxCampaignLeaseBytes : Nat := 64 * 1024

/-! ## The store -/

def CampaignLeaseV1.isLapsed (record : CampaignLeaseV1) : Bool := record.state == .lapsed

section

variable [Rfc3339]

def CampaignLeaseV1.validate (record : CampaignLeaseV1) : Except CampaignLeaseError Unit := do
  ensure (record.schemaVersion = 1) (.invalidRecord "schemaVersion" "must equal 1")
  ensure (record.armSerial ≠ 0) (.invalidRecord "armSerial" "must be a positive integer")
  ensure (Rfc3339.parses record.acquiredAt)
    (.invalidRecord "acquiredAt" "must be an RFC 3339 timestamp")
  ensure (Rfc3339.parses record.renewedAt)
    (.invalidRecord "renewedAt" "must be an RFC 3339 timestamp")
  match record.state, record.lapse with
  | .lapsed, none =>
    throw (.invalidRecord "lapse" "a lapsed lease carries the completion fact it lapsed on")
  | .held, some _ => throw (.invalidRecord "lapse" "a held lease has not completed anything")
  | _, _ => return ()

/-- What becomes of the steps of a call on the file system. -/
inductive WriteFate
  /-- The temporary file is not written, or not renamed. -/
  | unpublished
  /-- The file is renamed and the directory is not flushed. -/
  | unflushed
  | flushed
  deriving DecidableEq

/-- The record under the name, and the record of the guard that has the lock, if there is one. The
lock file stays, so there is one lock. -/
structure LeaseWorld where
  file : Option CampaignLeaseV1
  guard : Option CampaignLeaseV1

namespace LeaseWorld

def initial : LeaseWorld where
  file := none
  guard := none

/-- `CampaignLeaseStore::read`, on a file that can be opened. -/
def read (world : LeaseWorld) : Except CampaignLeaseError (Option CampaignLeaseV1) :=
  match world.file with
  | none => return none
  | some record => do
    ensure (record.fileLength ≤ maxCampaignLeaseBytes) .notBounded
    record.validate
    return some record

/-- `CampaignLeaseStore::write`. -/
def write (world : LeaseWorld) (record : CampaignLeaseV1) :
    WriteFate → LeaseWorld × Except CampaignLeaseError Unit
  | .unpublished => (world, .error (.io "cannot publish campaign lease"))
  | .unflushed => ({ world with file := some record },
      .error (.io "cannot flush campaign lease directory"))
  | .flushed => ({ world with file := some record }, .ok ())

/-- How a pass that has the lock comes to hold the lease, and since when it is held. -/
def acquisitionOf (prior : Option CampaignLeaseV1) (activation : CampaignActivation) (now : String) :
    Except CampaignLeaseError (String × CampaignLeaseAcquisition) :=
  match prior with
  | none => return (now, .activated)
  | some record =>
    if record.isLapsed then
      match record.lapse with
      | none => throw (.invalidRecord "lapse" "a lapsed record carries its lapse fact")
      | some lapse => do
        ensure (record.graphDigest ≠ activation.graphDigest)
          (.lapsed record.campaign lapse.sha lapse.lapsedAt)
        return (now, .reactivated)
    else return (record.acquiredAt, .resumed)

def acquiredRecord (activation : CampaignActivation) (pid : UInt32) (acquiredAt now : String) :
    CampaignLeaseV1 where
  schemaVersion := 1
  campaign := activation.campaign
  repository := activation.repository
  worklist := activation.worklist
  state := .held
  armSerial := activation.armSerial
  graphDigest := activation.graphDigest
  acquiredAt := acquiredAt
  renewedAt := now
  holder := some { pid := pid, since := now }
  lapse := none

/-- What a pass with the lock writes. -/
def activate (world : LeaseWorld) (activation : CampaignActivation) (pid : UInt32) (now : String) :
    Except CampaignLeaseError (CampaignLeaseV1 × CampaignLeaseAcquisition) := do
  let prior ← world.read
  let (acquiredAt, acquisition) ← acquisitionOf prior activation now
  let record := acquiredRecord activation pid acquiredAt now
  record.validate
  return (record, acquisition)

/-- The refusal of a pass that finds the lock taken. -/
def heldError (world : LeaseWorld) (activation : CampaignActivation) : CampaignLeaseError :=
  match world.read with
  | .error error => error
  | .ok record =>
    match record.bind (·.holder) with
    | none => .held activation.campaign "holder not yet recorded"
    | some holder =>
      .held activation.campaign ("pid " ++ toString holder.pid.toNat ++ ", since " ++ holder.since)

/-- `CampaignLeaseStore::acquire`; `opens` says whether the files can be opened. -/
def acquire (world : LeaseWorld) (activation : CampaignActivation) (pid : UInt32) (now : String)
    (opens : Bool) (fate : WriteFate) :
    LeaseWorld × Except CampaignLeaseError CampaignLeaseAcquisition :=
  if opens then
    if world.guard.isSome then (world, .error (world.heldError activation))
    else
      match world.activate activation pid now with
      | .error error => (world, .error error)
      | .ok (record, acquisition) =>
        match world.write record fate with
        | (world, .error error) => (world, .error error)
        | (world, .ok ()) => ({ world with guard := some record }, .ok acquisition)
  else (world, .error (.io "cannot open campaign lease"))

/-- `CampaignLeaseGuard::renew`. -/
def renew (world : LeaseWorld) (now : String) (fate : WriteFate) :
    LeaseWorld × Except CampaignLeaseError Unit :=
  match world.guard with
  | none => (world, .ok ())
  | some record =>
    let record := { record with renewedAt := now }
    let renewed : LeaseWorld := { world with guard := some record }
    renewed.write record fate

/-- `CampaignLeaseGuard::admit`. -/
def admitSerial (world : LeaseWorld) (armSerial : UInt64) (now : String) (fate : WriteFate) :
    LeaseWorld × Except CampaignLeaseError Unit :=
  if armSerial = 0 then (world, .error (.invalidRecord "armSerial" "must be a positive integer"))
  else
    let admitted : LeaseWorld :=
      { world with guard := world.guard.map fun record => { record with armSerial := armSerial } }
    admitted.renew now fate

def lapseOf (record : CampaignLeaseV1) (sha : String) (provenBy : PublishProof) (tasks : List String)
    (now : String) : CampaignLapseV1 where
  graphDigest := record.graphDigest
  armSerial := record.armSerial
  tasks := tasks
  sha := sha
  provenBy := provenBy
  lapsedAt := now

def lapsedRecord (record : CampaignLeaseV1) (lapse : CampaignLapseV1) (now : String) :
    CampaignLeaseV1 :=
  { record with state := .lapsed, renewedAt := now, holder := none, lapse := some lapse }

/-- `CampaignLeaseGuard::lapse`; the guard is gone after it, however it ends. -/
def lapse (world : LeaseWorld) (sha : String) (provenBy : PublishProof) (tasks : List String)
    (now : String) (fate : WriteFate) : LeaseWorld × Except CampaignLeaseError Unit :=
  match world.guard with
  | none => (world, .ok ())
  | some record =>
    let world := { world with guard := none }
    if proofNamesRevision provenBy.reference sha then
      world.write (lapsedRecord record (lapseOf record sha provenBy tasks now) now) fate
    else (world, .error (.unprovenLapse provenBy.reference sha))

end LeaseWorld

/-! ## Runs -/

/-- The calls on a store and on its guard. A call on a guard that is not there does nothing. -/
inductive LeaseOp
  | acquire (activation : CampaignActivation) (pid : UInt32) (now : String) (opens : Bool)
      (fate : WriteFate)
  | renew (now : String) (fate : WriteFate)
  | admitSerial (armSerial : UInt64) (now : String) (fate : WriteFate)
  | lapse (sha : String) (provenBy : PublishProof) (tasks : List String) (now : String)
      (fate : WriteFate)
  /-- The guard is dropped, or its process dies. -/
  | drop

namespace LeaseWorld

def step (world : LeaseWorld) : LeaseOp → LeaseWorld
  | .acquire activation pid now opens fate => (world.acquire activation pid now opens fate).1
  | .renew now fate => (world.renew now fate).1
  | .admitSerial armSerial now fate => (world.admitSerial armSerial now fate).1
  | .lapse sha provenBy tasks now fate => (world.lapse sha provenBy tasks now fate).1
  | .drop => { world with guard := none }

/-- The world after some calls. -/
def after (ops : List LeaseOp) : LeaseWorld := ops.foldl step initial

/-- The record under the name is the lapse of the graph. -/
def StoresLapse (world : LeaseWorld) (graphDigest : String) : Prop :=
  ∃ record, world.file = some record ∧ record.isLapsed ∧ record.graphDigest = graphDigest

end LeaseWorld

/-- After one of the first calls, or before them, the record was the lapse of the graph. -/
def HasLapsed (ops : List LeaseOp) (graphDigest : String) : Prop :=
  ∃ earlier, earlier <+: ops ∧ (LeaseWorld.after earlier).StoresLapse graphDigest

namespace LeaseOp

/-- An acquisition of the graph. -/
def presents (graphDigest : String) : LeaseOp → Bool
  | .acquire activation _ _ _ _ => activation.graphDigest == graphDigest
  | _ => false

/-- An acquisition of another graph, with arguments that a record can have, whose files can be opened
and whose record is published. -/
def overwrites (graphDigest : String) : LeaseOp → Bool
  | .acquire activation _ now opens fate =>
    activation.graphDigest != graphDigest && activation.armSerial != 0 && Rfc3339.parses now && opens &&
      fate != .unpublished
  | _ => false

end LeaseOp

/-- The graph is presented only before an acquisition of another graph is written. -/
def PresentedInTime (graphDigest : String) : List LeaseOp → Bool
  | [] => true
  | op :: rest =>
    if op.overwrites graphDigest then rest.all fun later => !later.presents graphDigest
    else PresentedInTime graphDigest rest

/-- Between the lapse of a graph and an acquisition of it, no acquisition of another graph is written. -/
def LapsesUndisturbed (ops : List LeaseOp) : Prop :=
  ∀ earlier later, ops = earlier ++ later → ∀ graphDigest,
    (LeaseWorld.after earlier).StoresLapse graphDigest → PresentedInTime graphDigest later

/-! ## Closed doors -/

namespace LeaseWorld

/-- What a lapsed record says of the revision that it lapsed on. -/
def Proven (record : CampaignLeaseV1) : Prop :=
  record.isLapsed → ∃ lapse, record.lapse = some lapse ∧ lapse.graphDigest = record.graphDigest ∧
    proofNamesRevision lapse.provenBy.reference lapse.sha

structure Invariant (world : LeaseWorld) : Prop where
  file : ∀ record, world.file = some record → Proven record
  guard : ∀ record, world.guard = some record → record.isLapsed = false
  locked : ∀ held, world.guard = some held → ∀ record, world.file = some record →
    record.isLapsed = false

omit [Rfc3339] in
theorem invariant_initial : Invariant initial where
  file _ h := (by cases h)
  guard _ h := (by cases h)
  locked _ h := (by cases h)

omit [Rfc3339] in
theorem Invariant.write {world : LeaseWorld} (h : world.Invariant) {record : CampaignLeaseV1}
    (hrecord : Proven record) (hlocked : ∀ held, world.guard = some held → record.isLapsed = false)
    (fate : WriteFate) : (world.write record fate).1.Invariant := by
  have hnew : Invariant { world with file := some record } := by
    refine ⟨fun stored hstored => ?_, h.guard, fun held hheld stored hstored => ?_⟩
    · cases hstored
      exact hrecord
    · cases hstored
      exact hlocked held hheld
  cases fate with
  | unpublished => exact h
  | unflushed => exact hnew
  | flushed => exact hnew

omit [Rfc3339] in
theorem proven_of_held {record : CampaignLeaseV1} (h : record.isLapsed = false) : Proven record :=
  fun hlapsed => absurd hlapsed (by simp [h])

/-- What a pass with the lock writes is held, of its graph and well formed, and the record before it is
not the lapse of its graph. -/
theorem activate_ok {world : LeaseWorld} {activation : CampaignActivation} {pid : UInt32} {now : String}
    {record : CampaignLeaseV1} {acquisition : CampaignLeaseAcquisition}
    (h : world.activate activation pid now = .ok (record, acquisition)) :
    record.isLapsed = false ∧ (activation.armSerial ≠ 0 ∧ Rfc3339.parses now) ∧
      ¬ world.StoresLapse activation.graphDigest := by
  unfold activate at h
  simp only [bind_ok_iff] at h
  obtain ⟨prior, hread, ⟨acquiredAt, kind⟩, hdecide, _, hvalid, hreturn⟩ := h
  cases hreturn
  refine ⟨rfl, ?_, ?_⟩
  · unfold CampaignLeaseV1.validate at hvalid
    obtain ⟨-, hvalid⟩ := ensure_bind_ok_iff.mp hvalid
    obtain ⟨hserial, hvalid⟩ := ensure_bind_ok_iff.mp hvalid
    obtain ⟨-, hvalid⟩ := ensure_bind_ok_iff.mp hvalid
    exact ⟨hserial, (ensure_bind_ok_iff.mp hvalid).1⟩
  rintro ⟨stored, hfile, hlapsed, hdigest⟩
  unfold read at hread
  rw [hfile] at hread
  simp only [bind_ok_iff] at hread
  obtain ⟨_, -, _, -, hread⟩ := hread
  cases hread
  simp only [acquisitionOf, hlapsed, if_true] at hdecide
  split at hdecide
  · cases hdecide
  · rw [ensure_bind_ok_iff] at hdecide
    exact hdecide.1 hdigest

theorem acquire_cases (world : LeaseWorld) (activation : CampaignActivation) (pid : UInt32)
    (now : String) (opens : Bool) (fate : WriteFate) :
    (∃ error, world.acquire activation pid now opens fate = (world, .error error)) ∨
    (world.guard = none ∧ opens = true ∧ (activation.armSerial ≠ 0 ∧ Rfc3339.parses now) ∧
      ¬ world.StoresLapse activation.graphDigest) ∧
      ∃ record acquisition, record.isLapsed = false ∧
        ((∃ error, world.acquire activation pid now opens fate =
            ((world.write record fate).1, .error error)) ∨
          fate = .flushed ∧ world.acquire activation pid now opens fate =
            ({ (world.write record fate).1 with guard := some record }, .ok acquisition)) := by
  unfold acquire
  split
  · next hopens =>
    split
    · exact .inl ⟨_, rfl⟩
    · next hguard =>
      split
      · exact .inl ⟨_, rfl⟩
      · next record acquisition hactivate =>
        obtain ⟨hheld, hvalid, hother⟩ := activate_ok hactivate
        refine .inr ⟨⟨by simpa using hguard, hopens, hvalid, hother⟩, record, acquisition, hheld, ?_⟩
        cases fate with
        | unpublished => exact .inl ⟨_, rfl⟩
        | unflushed => exact .inl ⟨_, rfl⟩
        | flushed => exact .inr ⟨rfl, rfl⟩
  · exact .inl ⟨_, rfl⟩

theorem acquire_invariant {world : LeaseWorld} (h : world.Invariant) (activation : CampaignActivation)
    (pid : UInt32) (now : String) (opens : Bool) (fate : WriteFate) :
    (world.acquire activation pid now opens fate).1.Invariant := by
  rcases world.acquire_cases activation pid now opens fate with
    ⟨_, hsame⟩ | ⟨-, record, acquisition, hheld, hwritten⟩
  · rw [hsame]
    exact h
  · have hwrite := h.write (proven_of_held hheld) (fun _ _ => hheld) fate
    rcases hwritten with ⟨_, hfailed⟩ | ⟨rfl, hdone⟩
    · rw [hfailed]
      exact hwrite
    · rw [hdone]
      refine ⟨hwrite.file, fun guarded hguarded => ?_, fun _ _ stored hstored => ?_⟩
      · cases hguarded
        exact hheld
      · cases hstored
        exact hheld

omit [Rfc3339] in
theorem renew_invariant {world : LeaseWorld} (h : world.Invariant) (now : String) (fate : WriteFate) :
    (world.renew now fate).1.Invariant := by
  unfold renew
  split
  · exact h
  · next record hguard =>
    have hheld : record.isLapsed = false := h.guard record hguard
    have hrenewed : Invariant { world with guard := some { record with renewedAt := now } } := by
      refine ⟨h.file, fun guarded hguarded => ?_, fun _ _ => h.locked record hguard⟩
      cases hguarded
      exact hheld
    have hproven : Proven { record with renewedAt := now } := proven_of_held hheld
    exact hrenewed.write hproven (fun _ _ => hheld) fate

omit [Rfc3339] in
theorem admitSerial_invariant {world : LeaseWorld} (h : world.Invariant) (armSerial : UInt64) (now : String)
    (fate : WriteFate) : (world.admitSerial armSerial now fate).1.Invariant := by
  unfold admitSerial
  split
  · exact h
  · have hadmitted : Invariant
        { world with guard := world.guard.map fun record => { record with armSerial := armSerial } } := by
      refine ⟨h.file, fun guarded hguarded => ?_, fun guarded hguarded => ?_⟩
      · obtain ⟨record, hguard, rfl⟩ := Option.map_eq_some_iff.mp hguarded
        exact h.guard record hguard
      · obtain ⟨record, hguard, -⟩ := Option.map_eq_some_iff.mp hguarded
        exact h.locked record hguard
    exact renew_invariant hadmitted now fate

omit [Rfc3339] in
theorem lapse_invariant {world : LeaseWorld} (h : world.Invariant) (sha : String)
    (provenBy : PublishProof) (tasks : List String) (now : String) (fate : WriteFate) :
    (world.lapse sha provenBy tasks now fate).1.Invariant := by
  have hdropped : Invariant { world with guard := none } :=
    ⟨h.file, fun _ hnone => (by cases hnone), fun _ hnone => (by cases hnone)⟩
  unfold lapse
  split
  · exact h
  · split
    · next hproof => exact hdropped.write (fun _ => ⟨_, rfl, rfl, hproof⟩) (fun _ h => (by cases h)) fate
    · exact hdropped

theorem step_invariant {world : LeaseWorld} (h : world.Invariant) (op : LeaseOp) :
    (world.step op).Invariant := by
  cases op with
  | acquire activation pid now opens fate => exact acquire_invariant h activation pid now opens fate
  | renew now fate => exact renew_invariant h now fate
  | admitSerial armSerial now fate => exact admitSerial_invariant h armSerial now fate
  | lapse sha provenBy tasks now fate => exact lapse_invariant h sha provenBy tasks now fate
  | drop => exact ⟨h.file, fun _ hnone => (by cases hnone), fun _ hnone => (by cases hnone)⟩

theorem after_invariant (ops : List LeaseOp) : (after ops).Invariant := by
  induction ops using List.reverseRecOn with
  | nil => exact invariant_initial
  | append_singleton ops op ih =>
    rw [after, List.foldl_append]
    exact step_invariant ih op

/-- The record is the lapse of the graph, and nobody has the lock. -/
structure Closed (graphDigest : String) (world : LeaseWorld) : Prop where
  stored : world.StoresLapse graphDigest
  unlocked : world.guard = none

omit [Rfc3339] in
theorem Invariant.closed {world : LeaseWorld} (h : world.Invariant) {graphDigest : String}
    (hstored : world.StoresLapse graphDigest) : world.Closed graphDigest := by
  refine ⟨hstored, ?_⟩
  obtain ⟨record, hfile, hlapsed, -⟩ := hstored
  cases hguard : world.guard with
  | none => rfl
  | some held =>
    rw [h.locked held hguard record hfile] at hlapsed
    cases hlapsed

/-- The lapse stays on record, whatever is called, unless another graph is written over it. -/
theorem Closed.step {world : LeaseWorld} {graphDigest : String} (h : world.Closed graphDigest)
    {op : LeaseOp} (hop : op.overwrites graphDigest = false) : (world.step op).Closed graphDigest := by
  cases op with
  | acquire activation pid now opens fate =>
    rw [LeaseWorld.step]
    rcases world.acquire_cases activation pid now opens fate with
      ⟨_, hsame⟩ | ⟨⟨-, rfl, ⟨hserial, hnow⟩, hother⟩, record, acquisition, -, hwritten⟩
    · rw [hsame]
      exact h
    · have hgraph : activation.graphDigest ≠ graphDigest := fun heq => hother (heq ▸ h.stored)
      have hfate : fate = .unpublished := by
        simpa [LeaseOp.overwrites, hgraph, hserial, hnow] using hop
      subst hfate
      rcases hwritten with ⟨_, hfailed⟩ | ⟨hflushed, -⟩
      · rw [hfailed]
        exact h
      · cases hflushed
  | renew now fate =>
    rw [LeaseWorld.step, renew, h.unlocked]
    exact h
  | admitSerial armSerial now fate =>
    rw [LeaseWorld.step, admitSerial]
    split
    · exact h
    · rw [renew, h.unlocked]
      exact ⟨h.stored, rfl⟩
  | lapse sha provenBy tasks now fate =>
    rw [LeaseWorld.step, lapse, h.unlocked]
    exact h
  | drop => exact ⟨h.stored, rfl⟩

/-- It is still there when the graph is presented in time. -/
theorem Closed.run {world : LeaseWorld} {graphDigest : String} (h : world.Closed graphDigest)
    {between rest : List LeaseOp} {op : LeaseOp} (hop : op.presents graphDigest = true)
    (htime : PresentedInTime graphDigest (between ++ op :: rest) = true) :
    (between.foldl LeaseWorld.step world).Closed graphDigest := by
  induction between generalizing world with
  | nil => exact h
  | cons first between ih =>
    rw [List.cons_append, PresentedInTime] at htime
    cases hwrites : first.overwrites graphDigest with
    | true =>
      rw [hwrites, if_pos rfl, List.all_eq_true] at htime
      have hlater := htime op (List.mem_append_right _ List.mem_cons_self)
      rw [hop] at hlater
      cases hlater
    | false =>
      rw [hwrites] at htime
      exact ih (h.step hwrites) htime

theorem read_ok {world : LeaseWorld} {record : CampaignLeaseV1}
    (h : world.read = .ok (some record)) : world.file = some record := by
  unfold read at h
  split at h
  · cases h
  · next hfile =>
    simp only [bind_ok_iff] at h
    obtain ⟨_, -, _, -, hreturn⟩ := h
    cases hreturn
    exact hfile

end LeaseWorld

open LeaseWorld in
/-- In a run in which no other graph is written between the lapse of a graph and an acquisition of it, no
acquisition of a lapsed graph succeeds. A lapsed record that is read back carries a lapse with a proof
that names the revision. -/
theorem lapsed_graph_stays_closed {ops : List LeaseOp} (h : LapsesUndisturbed ops) :
    (∀ before activation pid now opens fate rest,
      ops = before ++ .acquire activation pid now opens fate :: rest →
      HasLapsed before activation.graphDigest →
      ∀ acquisition, ((after before).acquire activation pid now opens fate).2 ≠ .ok acquisition) ∧
    ∀ before, before <+: ops → ∀ record, (after before).read = .ok (some record) → record.isLapsed →
      ∃ lapse, record.lapse = some lapse ∧ lapse.graphDigest = record.graphDigest ∧
        proofNamesRevision lapse.provenBy.reference lapse.sha := by
  constructor
  · intro before activation pid now opens fate rest hsplit hlapsed acquisition hacquired
    obtain ⟨earlier, ⟨between, rfl⟩, hstored⟩ := hlapsed
    rw [List.append_assoc] at hsplit
    have htime := h earlier _ hsplit _ hstored
    have hpresents : (LeaseOp.acquire activation pid now opens fate).presents activation.graphDigest =
        true := by simp [LeaseOp.presents]
    have hclosed := ((after_invariant earlier).closed hstored).run hpresents htime
    rw [after, ← List.foldl_append] at hclosed
    rcases (after (earlier ++ between)).acquire_cases activation pid now opens fate with
      ⟨_, hrefused⟩ | ⟨⟨-, -, -, hother⟩, -⟩
    · rw [hrefused] at hacquired
      cases hacquired
    · exact hother hclosed.stored
  · intro before _ record hread hlapsed
    exact (after_invariant before).file record (read_ok hread) hlapsed

end

/-! ## Two graphs -/

namespace LeaseSample

/-- The stamps here are well formed. -/
local instance rfc3339 : Rfc3339 where
  parses _ := true

def activation (graphDigest : String) : CampaignActivation where
  campaign := "demo"
  repository := "owner/demo"
  worklist := "demo.json"
  armSerial := 1
  graphDigest := graphDigest

def acquire (graphDigest : String) : LeaseOp :=
  .acquire (activation graphDigest) 7 "2026-08-18T00:00:00.000Z" true .flushed

def sha : String := "7777777777777777777777777777777777777777"

def lapse : LeaseOp :=
  .lapse sha { taskId := "gate", reference := "refs/tally/demo/gate/" ++ sha } ["gate"]
    "2026-08-18T00:00:01.000Z" .flushed

/-- A finished campaign is polled before and after an acquisition of another graph that is not written.
Then that graph is acquired, lapses and is polled. -/
def polls : List LeaseOp :=
  [acquire "sha256:aa", lapse, acquire "sha256:aa",
    .acquire (activation "sha256:bb") 7 "2026-08-18T00:00:02.000Z" true .unpublished,
    acquire "sha256:aa", acquire "sha256:bb", lapse, acquire "sha256:bb"]

/-- The graph whose lapse is the record. -/
def lapsedGraph (world : LeaseWorld) : Option String :=
  world.file.bind fun record => if record.isLapsed then some record.graphDigest else none

theorem storesLapse_iff {world : LeaseWorld} {graphDigest : String} :
    world.StoresLapse graphDigest ↔ lapsedGraph world = some graphDigest := by
  simp [LeaseWorld.StoresLapse, lapsedGraph, Option.bind_eq_some_iff]

theorem lapsesUndisturbed_of_take {ops : List LeaseOp}
    (h : ∀ k ≤ ops.length, ∀ graphDigest ∈ lapsedGraph (.after (ops.take k)),
      PresentedInTime graphDigest (ops.drop k) = true) : LapsesUndisturbed ops := by
  rintro earlier later rfl graphDigest hstored
  have htake : (earlier ++ later).take earlier.length = earlier := List.take_left' rfl
  have htime := h earlier.length (by simp) graphDigest (by
    rw [htake]
    exact storesLapse_iff.mp hstored)
  rwa [List.drop_left' rfl] at htime

/-- Every poll of a finished graph is refused. -/
theorem lapsed_graph_stays_closed_polls :
    (∀ acquisition, ((LeaseWorld.after (polls.take 4)).acquire (activation "sha256:aa") 7
      "2026-08-18T00:00:00.000Z" true .flushed).2 ≠ .ok acquisition) ∧
    ∀ acquisition, ((LeaseWorld.after (polls.take 7)).acquire (activation "sha256:bb") 7
      "2026-08-18T00:00:00.000Z" true .flushed).2 ≠ .ok acquisition := by
  have hpolls : LapsesUndisturbed polls := lapsesUndisturbed_of_take (by decide +kernel)
  have hfirst : HasLapsed (polls.take 4) "sha256:aa" :=
    ⟨polls.take 2, ⟨(polls.drop 2).take 2, rfl⟩, storesLapse_iff.mpr (by decide +kernel)⟩
  have hsecond : HasLapsed (polls.take 7) "sha256:bb" :=
    ⟨polls.take 7, ⟨[], rfl⟩, storesLapse_iff.mpr (by decide +kernel)⟩
  exact ⟨(lapsed_graph_stays_closed hpolls).1 (polls.take 4) _ _ _ _ _ (polls.drop 5) rfl hfirst,
    (lapsed_graph_stays_closed hpolls).1 (polls.take 7) _ _ _ _ _ [] rfl hsecond⟩

/-- The first graph lapses, another one is activated, and the first one is acquired again. -/
theorem lapsed_graph_reopens :
    HasLapsed [acquire "sha256:aa", lapse, acquire "sha256:bb", .drop] "sha256:aa" ∧
      ((LeaseWorld.after [acquire "sha256:aa", lapse, acquire "sha256:bb", .drop]).acquire
        (activation "sha256:aa") 7 "2026-08-18T00:00:00.000Z" true .flushed).2 = .ok .resumed := by
  refine ⟨⟨[acquire "sha256:aa", lapse], ⟨_, rfl⟩, storesLapse_iff.mpr (by decide +kernel)⟩, ?_⟩
  decide +kernel

end LeaseSample

end Tally.Campaign
