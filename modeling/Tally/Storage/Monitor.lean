import Tally.Lib.Json
import Tally.Lib.Result

/-!
# The storage monitor

Measurements of the data and state directories, the protection that follows from them, and what is
kept of it on disk (`storage.rs`): the state file, which is replaced, and the log of warnings, to which
records with sequence numbers are appended. An evaluation appends its records first and takes over the
new state last, so one that fails in between leaves a record in the log with a number that the monitor
will use again.
-/

namespace Tally.Storage

open Tally.Lib

/-! ## Levels and pressures -/

inductive BudgetLevel
  | ok
  | warning
  | hard
  deriving DecidableEq

inductive StoragePressureResource
  | allocatedBytes
  | filesystemAvailableBytes
  deriving DecidableEq

structure StoragePressure where
  resource : StoragePressureResource
  observedBytes : Nat
  thresholdBytes : Nat
  recoveryBytes : Nat
  deriving DecidableEq

structure StorageBudgetConfig where
  warningBytes : Nat
  hardBytes : Nat
  warningFreeBytes : Nat
  minimumFreeBytes : Nat
  /-- The bounds are 64-bit numbers. -/
  minimumFreeBytes_le : minimumFreeBytes ≤ u64Max

structure StorageConfig where
  dataDir : StorageBudgetConfig
  stateDir : StorageBudgetConfig

structure BudgetDecision where
  level : BudgetLevel
  pressures : List StoragePressure
  deriving DecidableEq

def storageRecoveryPercent : Nat := 90

def storageFreeRecoveryMinBytes : Nat := 1024 * 1024 * 1024

def saturatingAdd (a b : Nat) : Nat := min (a + b) u64Max

/-- Below this a size has recovered. -/
def lowerRecovery (threshold : Nat) : Nat := threshold * storageRecoveryPercent / 100

/-- From this on free space has recovered. -/
def freeRecovery (threshold : Nat) : Nat :=
  saturatingAdd threshold (max ((threshold + 9) / 10) storageFreeRecoveryMinBytes)

/-- The pressures of a level: the size first, then the free space. -/
def pressuresOf (sizeHeld freeHeld : Bool) (size available sizeThreshold freeThreshold : Nat) :
    List StoragePressure :=
  (if sizeHeld then [⟨.allocatedBytes, size, sizeThreshold, lowerRecovery sizeThreshold⟩] else []) ++
    if freeHeld then
      [⟨.filesystemAvailableBytes, available, freeThreshold, freeRecovery freeThreshold⟩] else []

/-- The level of a store. What held it at a level before holds it there until it has recovered. -/
def budgetDecision (size available : Nat) (budget : StorageBudgetConfig) (previousLevel : BudgetLevel)
    (previousPressures : List StoragePressureResource) : BudgetDecision :=
  let previousSizePressure := previousPressures.contains .allocatedBytes
  let previousFreePressure := previousPressures.contains .filesystemAvailableBytes
  let hardSize := decide (budget.hardBytes ≤ size) ||
    (previousLevel == .hard && previousSizePressure && decide (lowerRecovery budget.hardBytes ≤ size))
  let hardFree := decide (available < budget.minimumFreeBytes) ||
    (previousLevel == .hard && previousFreePressure &&
      decide (available < freeRecovery budget.minimumFreeBytes))
  if hardSize || hardFree then
    { level := .hard
      pressures := pressuresOf hardSize hardFree size available budget.hardBytes budget.minimumFreeBytes }
  else
    let warningSize := decide (budget.warningBytes ≤ size) ||
      (previousLevel != .ok && previousSizePressure && decide (lowerRecovery budget.warningBytes ≤ size))
    let warningFree := decide (available < budget.warningFreeBytes) ||
      (previousLevel != .ok && previousFreePressure &&
        decide (available < freeRecovery budget.warningFreeBytes))
    if warningSize || warningFree then
      { level := .warning
        pressures :=
          pressuresOf warningSize warningFree size available budget.warningBytes budget.warningFreeBytes }
    else { level := .ok, pressures := [] }

def pressureResources (decision : BudgetDecision) : List StoragePressureResource :=
  decision.pressures.map (·.resource)

/-! ## What is kept -/

structure StoragePoint where
  sampledAt : String
  completionCount : Nat
  dataDirBytes : Nat
  stateDirBytes : Nat
  deriving DecidableEq

/-- The part of the state that belongs to one store. -/
structure StoreProtection where
  level : BudgetLevel
  pressures : List StoragePressureResource
  episode : Option Nat
  deriving DecidableEq

def StoreProtection.clear : StoreProtection where
  level := .ok
  pressures := []
  episode := none

structure PersistentState where
  previous : Option StoragePoint
  current : StoragePoint
  dataDir : StoreProtection
  stateDir : StoreProtection
  nextWarningSequence : Nat
  deriving DecidableEq

structure StorageWarningRecord where
  sequence : Nat
  recordedAt : String
  store : String
  previousLevel : BudgetLevel
  level : BudgetLevel
  sizeBytes : Nat
  thresholdBytes : Nat
  pressures : List StoragePressure
  message : String
  deriving DecidableEq

inductive StorageError
  | io
  | noSample
  /-- `active {store} pressure has no durable warning episode`. -/
  | noEpisode (store : String)
  deriving DecidableEq

/-- The text of an error, without the path and the cause. -/
def StorageError.text : StorageError → String
  | io => "storage monitor I/O error"
  | noSample => "storage monitor state error: free-space check has no completed tree sample"
  | noEpisode store => "storage monitor state error: active " ++ store ++
      " pressure has no durable warning episode"

def validateStore (store : String) (protection : StoreProtection) (nextWarningSequence : Nat) :
    Except String Unit :=
  if protection.level = .ok then
    ensure (protection.pressures = [] ∧ protection.episode = none)
      (store ++ " has ok level with an active pressure or episode")
  else
    ensure (protection.pressures ≠ [] ∧
        protection.episode.any fun sequence => sequence ≠ 0 ∧ sequence < nextWarningSequence)
      (store ++ " has an active level without a valid pressure episode")

def validatePersistentState (state : PersistentState) : Except String Unit := do
  ensure (state.nextWarningSequence ≠ 0) "nextWarningSequence must be positive"
  validateStore "dataDir" state.dataDir state.nextWarningSequence
  validateStore "stateDir" state.stateDir state.nextWarningSequence

/-! ## The log -/

/-- What stands after the last line feed of the log. -/
inductive LogTail
  | empty
  /-- The beginning of a record. -/
  | torn
  /-- A record without its line feed. -/
  | whole (record : StorageWarningRecord)

/-- The lines of the log. A line to which a tail was joined is no record. -/
structure WarningLog where
  lines : List (Option StorageWarningRecord)
  tail : LogTail

/-- The records that a reader finds. -/
def WarningLog.records (log : WarningLog) : List StorageWarningRecord :=
  log.lines.filterMap id ++ match log.tail with
    | .whole record => [record]
    | .empty | .torn => []

/-- What becomes of an append. -/
inductive AppendFate
  /-- Nothing is written. -/
  | refused
  /-- It stops in the record. -/
  | torn
  /-- It stops before the line feed. -/
  | unterminated
  /-- The line is written and not synced. -/
  | unsynced
  | done
  deriving DecidableEq

def WarningLog.addLine (log : WarningLog) (record : StorageWarningRecord) : WarningLog where
  lines := log.lines ++ [match log.tail with
    | .empty => some record
    | .torn | .whole _ => none]
  tail := .empty

/-- `append_warning`; the second part says whether it returns Ok. -/
def appendWarning (log : WarningLog) (record : StorageWarningRecord) : AppendFate → WarningLog × Bool
  | .refused => (log, false)
  | .torn => ({ log with tail := .torn }, false)
  | .unterminated =>
    ({ log with tail := match log.tail with
        | .empty => .whole record
        | .torn | .whole _ => .torn }, false)
  | .unsynced => (log.addLine record, false)
  | .done => (log.addLine record, true)

/-- What becomes of a write of the state file. -/
inductive StateFate
  | refused
  /-- The file is renamed and the directory is not synced. -/
  | unsynced
  | done
  deriving DecidableEq

structure StorageDisk where
  log : WarningLog
  state : Option PersistentState

def StorageDisk.empty : StorageDisk where
  log := { lines := [], tail := .empty }
  state := none

/-- `write_json_atomic`. -/
def StorageDisk.writeState (disk : StorageDisk) (state : PersistentState) :
    StateFate → StorageDisk × Bool
  | .refused => (disk, false)
  | .unsynced => ({ disk with state := some state }, false)
  | .done => ({ disk with state := some state }, true)

/-- The number after the highest one in the log. -/
def warningSequenceFloor (log : WarningLog) : Nat :=
  max 1 (saturatingAdd ((log.records.map (·.sequence)).foldl max 0) 1)

/-- A state that does not pass its check is ignored. -/
def loadPersistentState (disk : StorageDisk) : Option PersistentState :=
  disk.state.filter fun state => (validatePersistentState state).isOk

/-! ## Texts -/

def pressureText (name : String) : StoragePressure → String
  | ⟨.allocatedBytes, observed, threshold, recovery⟩ =>
    "allocated " ++ toString observed ++ " bytes (" ++ name ++ " " ++ toString threshold ++
      ", recovers below " ++ toString recovery ++ ")"
  | ⟨.filesystemAvailableBytes, observed, threshold, recovery⟩ =>
    "filesystem available " ++ toString observed ++ " bytes (" ++
      (if name = "hard" then "minimum " else "warning below ") ++ toString threshold ++
      ", recovers at " ++ toString recovery ++ ")"

def transitionMessage (store : String) (decision : BudgetDecision) (size available : Nat) : String :=
  match decision.level with
  | .ok => "tally " ++ store ++ " storage pressure recovered: allocated " ++ toString size ++
      " bytes; filesystem available " ++ toString available ++ " bytes"
  | .warning => "tally " ++ store ++ " storage warning is active: " ++
      "; ".intercalate (decision.pressures.map (pressureText "warning"))
  | .hard => "tally " ++ store ++ " hard storage protection is active: " ++
      "; ".intercalate (decision.pressures.map (pressureText "hard"))

def thresholdOf (decision : BudgetDecision) (budget : StorageBudgetConfig) : Nat :=
  decision.pressures.head?.elim budget.warningBytes (·.thresholdBytes)

/-! ## Transitions -/

/-- A change of the level is recorded, and a level without an episode. -/
def needsRecord (previous : StoreProtection) (decision : BudgetDecision) : Bool :=
  !(previous.level == decision.level && !(decision.level != .ok && previous.episode.isNone))

def warningRecord (observedAt store : String) (previous : StoreProtection) (decision : BudgetDecision)
    (size available : Nat) (budget : StorageBudgetConfig) (sequence : Nat) : StorageWarningRecord where
  sequence := sequence
  recordedAt := observedAt
  store := store
  previousLevel := previous.level
  level := decision.level
  sizeBytes := size
  thresholdBytes := thresholdOf decision budget
  pressures := decision.pressures
  message := transitionMessage store decision size available

def nextEpisode (previous : StoreProtection) (decision : BudgetDecision) (sequence : Nat) : Option Nat :=
  if decision.level = .ok then none
  else if previous.level = .ok ∨ previous.episode = none then some sequence
  else previous.episode

/-- The log, and the episode of the store and the next number. -/
def recordTransition (log : WarningLog) (fate : AppendFate) (observedAt store : String)
    (previous : StoreProtection) (decision : BudgetDecision) (size available : Nat)
    (budget : StorageBudgetConfig) (nextSequence : Nat) :
    WarningLog × Except StorageError (Option Nat × Nat) :=
  if needsRecord previous decision then
    match appendWarning log (warningRecord observedAt store previous decision size available budget
      nextSequence) fate with
    | (log, false) => (log, .error .io)
    | (log, true) => (log, .ok (nextEpisode previous decision nextSequence, saturatingAdd nextSequence 1))
  else (log, .ok (previous.episode, nextSequence))

/-! ## Evaluations -/

/-- What an evaluation is given. -/
structure Observation where
  observedAt : String
  previous : Option StoragePoint
  current : StoragePoint
  dataSize : Nat
  stateSize : Nat
  dataAvailable : Nat
  stateAvailable : Nat

/-- What becomes of the writes of an evaluation. -/
structure Fates where
  dataDir : AppendFate
  stateDir : AppendFate
  state : StateFate

structure PressureEvaluation where
  dataDecision : BudgetDecision
  stateDecision : BudgetDecision
  dataEpisode : Option Nat
  stateEpisode : Option Nat

structure ActiveStorageWarning where
  warningSequence : Nat
  store : String
  level : BudgetLevel
  sizeBytes : Nat
  thresholdBytes : Nat
  pressures : List StoragePressure
  message : String

structure IntakeStatus where
  accepting : Bool
  reason : Option String

structure StoreMetrics where
  sizeBytes : Nat
  filesystemAvailableBytes : Option Nat
  level : BudgetLevel

structure StorageMetrics where
  sampledAt : String
  freeSpaceCheckedAt : String
  completionCount : Nat
  intake : IntakeStatus
  dataDir : StoreMetrics
  stateDir : StoreMetrics
  activeWarnings : List ActiveStorageWarning
  monitorError : Option String

structure StorageMonitor where
  config : StorageConfig
  state : Option PersistentState
  snapshot : StorageMetrics
  nextWarningSequenceFloor : Nat
  sampleError : Option String
  freeSpaceError : Option String

/-- The monitor and its files. -/
structure StorageWorld where
  monitor : StorageMonitor
  disk : StorageDisk

namespace StorageMonitor

def dataProtection (monitor : StorageMonitor) : StoreProtection :=
  monitor.state.elim .clear (·.dataDir)

def stateProtection (monitor : StorageMonitor) : StoreProtection :=
  monitor.state.elim .clear (·.stateDir)

/-- The number of the next record. -/
def nextSequence (monitor : StorageMonitor) : Nat :=
  monitor.state.elim monitor.nextWarningSequenceFloor
    fun state => max state.nextWarningSequence monitor.nextWarningSequenceFloor

def dataDecision (monitor : StorageMonitor) (observation : Observation) : BudgetDecision :=
  budgetDecision observation.dataSize observation.dataAvailable monitor.config.dataDir
    monitor.dataProtection.level monitor.dataProtection.pressures

def stateDecision (monitor : StorageMonitor) (observation : Observation) : BudgetDecision :=
  budgetDecision observation.stateSize observation.stateAvailable monitor.config.stateDir
    monitor.stateProtection.level monitor.stateProtection.pressures

end StorageMonitor

namespace StorageWorld

/-- The end of an evaluation: the state is written, unless it is the one that is there. -/
def persist (world : StorageWorld) (persistent : PersistentState) (persistAlways : Bool)
    (fate : StateFate) (evaluation : PressureEvaluation) :
    StorageWorld × Except StorageError PressureEvaluation :=
  let taken (disk : StorageDisk) : StorageWorld :=
    { monitor := { world.monitor with
        state := some persistent
        nextWarningSequenceFloor := persistent.nextWarningSequence }
      disk := disk }
  if persistAlways ∨ world.monitor.state ≠ some persistent then
    match world.disk.writeState persistent fate with
    | (disk, false) => ({ world with disk := disk }, .error .io)
    | (disk, true) => (taken disk, .ok evaluation)
  else (taken world.disk, .ok evaluation)

def evaluateAndPersist (world : StorageWorld) (observation : Observation) (persistAlways : Bool)
    (fates : Fates) : StorageWorld × Except StorageError PressureEvaluation :=
  let monitor := world.monitor
  let dataDecision := monitor.dataDecision observation
  let stateDecision := monitor.stateDecision observation
  match recordTransition world.disk.log fates.dataDir observation.observedAt "dataDir"
    monitor.dataProtection dataDecision observation.dataSize observation.dataAvailable
    monitor.config.dataDir monitor.nextSequence with
  | (log, .error error) => ({ world with disk.log := log }, .error error)
  | (log, .ok (dataEpisode, next)) =>
    match recordTransition log fates.stateDir observation.observedAt "stateDir"
      monitor.stateProtection stateDecision observation.stateSize observation.stateAvailable
      monitor.config.stateDir next with
    | (log, .error error) => ({ world with disk.log := log }, .error error)
    | (log, .ok (stateEpisode, next)) =>
      let persistent : PersistentState :=
        { previous := observation.previous
          current := observation.current
          dataDir := ⟨dataDecision.level, pressureResources dataDecision, dataEpisode⟩
          stateDir := ⟨stateDecision.level, pressureResources stateDecision, stateEpisode⟩
          nextWarningSequence := next }
      persist { world with disk.log := log } persistent persistAlways fates.state
        ⟨dataDecision, stateDecision, dataEpisode, stateEpisode⟩

end StorageWorld

def pushActiveWarning (store : String) (decision : BudgetDecision) (size available : Nat)
    (budget : StorageBudgetConfig) (episode : Option Nat) :
    Except StorageError (List ActiveStorageWarning) :=
  if decision.level = .ok then return []
  else do
    let warningSequence ← orError episode (.noEpisode store)
    return [{ warningSequence := warningSequence
              store := store
              level := decision.level
              sizeBytes := size
              thresholdBytes := thresholdOf decision budget
              pressures := decision.pressures
              message := transitionMessage store decision size available }]

def intakeOf (warnings : List ActiveStorageWarning) : IntakeStatus :=
  let hard := warnings.filter fun warning => warning.level = .hard
  if hard.isEmpty then { accepting := true, reason := none }
  else
    { accepting := false
      reason := some ("; ".intercalate (hard.map (·.message)) ++
        "; new intake is refused while already-admitted work continues") }

def activeWarningsAndIntake (evaluation : PressureEvaluation) (observation : Observation)
    (config : StorageConfig) : Except StorageError (List ActiveStorageWarning × IntakeStatus) := do
  let dataWarnings ← pushActiveWarning "dataDir" evaluation.dataDecision observation.dataSize
    observation.dataAvailable config.dataDir evaluation.dataEpisode
  let stateWarnings ← pushActiveWarning "stateDir" evaluation.stateDecision observation.stateSize
    observation.stateAvailable config.stateDir evaluation.stateEpisode
  return (dataWarnings ++ stateWarnings, intakeOf (dataWarnings ++ stateWarnings))

def unavailableIntake (error : String) : IntakeStatus where
  accepting := false
  reason := some ("storage monitor is unavailable: " ++ error ++
    "; new intake is refused while already-admitted work continues")

/-! ## Calls -/

/-- What a walk of the directories has found. -/
structure StorageMeasurement where
  sampledAt : String
  completionCount : Nat
  dataUsage : Nat
  stateUsage : Nat
  dataAvailable : Nat
  stateAvailable : Nat

/-- What the monitor takes from the library for time. -/
class Stamps where
  /-- `is_after`. -/
  isAfter : String → String → Bool

namespace StorageMonitor

variable [Stamps]

/-- The free space of a probe that is newer than the walk. -/
def fresherProbe (monitor : StorageMonitor) (measurement : StorageMeasurement) : Option (Nat × Nat) :=
  match monitor.snapshot.dataDir.filesystemAvailableBytes,
    monitor.snapshot.stateDir.filesystemAvailableBytes with
  | some data, some state =>
    if Stamps.isAfter monitor.snapshot.freeSpaceCheckedAt measurement.sampledAt then some (data, state)
    else none
  | _, _ => none

def pointOf (measurement : StorageMeasurement) : StoragePoint where
  sampledAt := measurement.sampledAt
  completionCount := measurement.completionCount
  dataDirBytes := measurement.dataUsage
  stateDirBytes := measurement.stateUsage

def previousPoint (monitor : StorageMonitor) (completionCount : Nat) : Option StoragePoint :=
  monitor.state.bind fun state =>
    if state.current.completionCount < completionCount then some state.current
    else if completionCount = state.current.completionCount then state.previous
    else none

/-- What is observed when a walk lands. -/
def walkObservation (monitor : StorageMonitor) (measurement : StorageMeasurement) : Observation where
  observedAt := measurement.sampledAt
  previous := monitor.previousPoint measurement.completionCount
  current := pointOf measurement
  dataSize := measurement.dataUsage
  stateSize := measurement.stateUsage
  dataAvailable := (monitor.fresherProbe measurement).elim measurement.dataAvailable Prod.fst
  stateAvailable := (monitor.fresherProbe measurement).elim measurement.stateAvailable Prod.snd

def checkedAt (monitor : StorageMonitor) (measurement : StorageMeasurement) : String :=
  if (monitor.fresherProbe measurement).isSome then monitor.snapshot.freeSpaceCheckedAt
  else measurement.sampledAt

/-- What is observed when free space is probed: the sizes are those of the last walk. -/
def probeObservation (monitor : StorageMonitor) (state : PersistentState) (checkedAt : String)
    (dataAvailable stateAvailable : Nat) : Observation where
  observedAt := checkedAt
  previous := state.previous
  current := state.current
  dataSize := monitor.snapshot.dataDir.sizeBytes
  stateSize := monitor.snapshot.stateDir.sizeBytes
  dataAvailable := dataAvailable
  stateAvailable := stateAvailable

omit [Stamps] in
/-- The intake that is served: with an error it is refused. -/
def queryIntake (monitor : StorageMonitor) : IntakeStatus :=
  match monitor.sampleError.toList ++ monitor.freeSpaceError.toList with
  | [] => monitor.snapshot.intake
  | errors => unavailableIntake ("; ".intercalate errors)

end StorageMonitor

namespace StorageWorld

variable [Stamps]

/-- `apply_measurement`. -/
def applyMeasurement (world : StorageWorld) (measurement : StorageMeasurement) (fates : Fates) :
    StorageWorld × Except StorageError Unit :=
  let observation := world.monitor.walkObservation measurement
  let checkedAt := world.monitor.checkedAt measurement
  match world.evaluateAndPersist observation true fates with
  | (world, .error error) => (world, .error error)
  | (world, .ok evaluation) =>
    match activeWarningsAndIntake evaluation observation world.monitor.config with
    | .error error => (world, .error error)
    | .ok (activeWarnings, intake) =>
      ({ world with monitor.snapshot :=
          { sampledAt := measurement.sampledAt
            freeSpaceCheckedAt := checkedAt
            completionCount := measurement.completionCount
            intake := intake
            dataDir := ⟨observation.dataSize, some observation.dataAvailable,
              evaluation.dataDecision.level⟩
            stateDir := ⟨observation.stateSize, some observation.stateAvailable,
              evaluation.stateDecision.level⟩
            activeWarnings := activeWarnings
            monitorError := none } }, .ok ())

/-- `apply_measurement_result`, or `record_sample_worker_failure`; a walk can fail. -/
def applyMeasurementResult (world : StorageWorld) (measurement : Except String StorageMeasurement)
    (fates : Fates) : StorageWorld × Except StorageError Unit :=
  match measurement with
  | .error error => ({ world with monitor.sampleError := some error }, .error .io)
  | .ok measurement =>
    match world.applyMeasurement measurement fates with
    | (world, .error error) => ({ world with monitor.sampleError := some error.text }, .error error)
    | (world, .ok ()) =>
      ({ world with monitor.sampleError := none, monitor.freeSpaceError := none }, .ok ())

omit [Stamps] in
/-- `apply_free_space`. -/
def applyFreeSpace (world : StorageWorld) (checkedAt : String) (dataAvailable stateAvailable : Nat)
    (fates : Fates) : StorageWorld × Except StorageError Unit :=
  match world.monitor.state with
  | none => (world, .error .noSample)
  | some state =>
    let observation := world.monitor.probeObservation state checkedAt dataAvailable stateAvailable
    match world.evaluateAndPersist observation false fates with
    | (world, .error error) => (world, .error error)
    | (world, .ok evaluation) =>
      match activeWarningsAndIntake evaluation observation world.monitor.config with
      | .error error => (world, .error error)
      | .ok (activeWarnings, intake) =>
        let snapshot := world.monitor.snapshot
        ({ world with monitor.snapshot :=
            { snapshot with
              freeSpaceCheckedAt := checkedAt
              intake := intake
              dataDir := ⟨snapshot.dataDir.sizeBytes, some dataAvailable, evaluation.dataDecision.level⟩
              stateDir := ⟨snapshot.stateDir.sizeBytes, some stateAvailable,
                evaluation.stateDecision.level⟩
              activeWarnings := activeWarnings
              monitorError := none } }, .ok ())

omit [Stamps] in
/-- `refresh_free_space`; a probe can fail. While the walk is in error the probe is only noted. -/
def refreshFreeSpace (world : StorageWorld) (checkedAt : String) (probe : Except String (Nat × Nat))
    (fates : Fates) : StorageWorld × Except StorageError Unit :=
  match probe with
  | .error error => ({ world with monitor.freeSpaceError := some error }, .error .io)
  | .ok (dataAvailable, stateAvailable) =>
    if world.monitor.sampleError.isSome then
      let snapshot := world.monitor.snapshot
      ({ world with
          monitor.snapshot :=
            { snapshot with
              freeSpaceCheckedAt := checkedAt
              dataDir := { snapshot.dataDir with filesystemAvailableBytes := some dataAvailable }
              stateDir := { snapshot.stateDir with filesystemAvailableBytes := some stateAvailable } }
          monitor.freeSpaceError := none }, .ok ())
    else
      match world.applyFreeSpace checkedAt dataAvailable stateAvailable fates with
      | (world, .error error) => ({ world with monitor.freeSpaceError := some error.text }, .error error)
      | (world, .ok ()) => ({ world with monitor.freeSpaceError := none }, .ok ())

omit [Stamps] in
/-- A monitor that has not sampled yet. -/
def unsampled (config : StorageConfig) (disk : StorageDisk) (completionCount : Nat) (now : String) :
    StorageMonitor where
  config := config
  state := loadPersistentState disk
  snapshot :=
    { sampledAt := now
      freeSpaceCheckedAt := now
      completionCount := completionCount
      intake := unavailableIntake "storage monitor has not completed its initial sample"
      dataDir := ⟨0, none, .ok⟩
      stateDir := ⟨0, none, .ok⟩
      activeWarnings := []
      monitorError := some "storage monitor has not completed its initial sample" }
  nextWarningSequenceFloor := warningSequenceFloor disk.log
  sampleError := none
  freeSpaceError := none

/-- `StorageMonitor::open`: the state is loaded and a first walk is applied. -/
def openMonitor (config : StorageConfig) (disk : StorageDisk) (completionCount : Nat) (now : String)
    (measurement : Except String StorageMeasurement) (fates : Fates) :
    StorageWorld × Except StorageError Unit :=
  applyMeasurementResult { monitor := unsampled config disk completionCount now, disk := disk }
    measurement fates

/-! ## Runs -/

end StorageWorld

inductive StorageEvent
  | sample (measurement : Except String StorageMeasurement) (fates : Fates)
  | probe (checkedAt : String) (available : Except String (Nat × Nat)) (fates : Fates)
  /-- The monitor is opened again on the files that it left. -/
  | restart (completionCount : Nat) (now : String) (measurement : Except String StorageMeasurement)
      (fates : Fates)

namespace StorageWorld

variable [Stamps]

def step (world : StorageWorld) : StorageEvent → StorageWorld × Except StorageError Unit
  | .sample measurement fates => world.applyMeasurementResult measurement fates
  | .probe checkedAt available fates => world.refreshFreeSpace checkedAt available fates
  | .restart completionCount now measurement fates =>
    openMonitor world.monitor.config world.disk completionCount now measurement fates

omit [Stamps] in
/-- Nothing is on disk yet, and nothing has been sampled. -/
def initial (config : StorageConfig) : StorageWorld where
  monitor := unsampled config .empty 0 ""
  disk := .empty

def run (config : StorageConfig) (events : List StorageEvent) : StorageWorld :=
  events.foldl (fun world event => (world.step event).1) (initial config)

end StorageWorld

end Tally.Storage
