import Tally.Storage.Monitor

/-!
# Storage protection over whole runs

An evaluation that writes a line to the log and then fails keeps the number of that line for its next
record. Where no evaluation ends so, and the numbers do not run out, the log, the state file and the
monitor agree: numbers are not repeated, what is kept passes its check, and a hard level holds until
what caused it has recovered.
-/

namespace Tally.Storage

open Tally.Lib

/-! ## Numbers in the log -/

/-- A line is added to the log, whether the append returns or not. -/
def AppendFate.WritesLine (fate : AppendFate) : Prop := fate = .unsynced ∨ fate = .done

instance (fate : AppendFate) : Decidable fate.WritesLine :=
  inferInstanceAs (Decidable (_ ∨ _))

namespace WarningLog

/-- The records of whole lines. -/
def lineRecords (log : WarningLog) : List StorageWarningRecord := log.lines.filterMap id

/-- The records of the log do not share a number, and `next` comes after those of its lines. -/
structure NumberedBelow (log : WarningLog) (next : Nat) : Prop where
  nodup : (log.records.map (·.sequence)).Nodup
  lines_lt : ∀ record ∈ log.lineRecords, record.sequence < next
  tail_le : ∀ record, log.tail = .whole record → record.sequence ≤ next
  bounded : ∀ record ∈ log.records, record.sequence < u64Max

theorem records_of_tail_empty {log : WarningLog} (h : log.tail = .empty) :
    log.records = log.lineRecords := by
  rw [records, h]
  exact List.append_nil _

theorem records_of_tail_torn {log : WarningLog} (h : log.tail = .torn) :
    log.records = log.lineRecords := by
  rw [records, h]
  exact List.append_nil _

theorem records_of_tail_whole {log : WarningLog} {record : StorageWarningRecord}
    (h : log.tail = .whole record) : log.records = log.lineRecords ++ [record] := by
  rw [records, h]
  rfl

theorem lineRecords_sublist (log : WarningLog) : log.lineRecords.Sublist log.records :=
  List.sublist_append_left _ _

theorem numberedBelow_empty {next : Nat} : NumberedBelow ⟨[], .empty⟩ next where
  nodup := List.nodup_nil
  lines_lt := fun _ h => (nomatch h)
  tail_le := fun _ h => (nomatch h)
  bounded := fun _ h => (nomatch h)

namespace NumberedBelow

variable {log : WarningLog} {next : Nat} {record : StorageWarningRecord}

theorem line_nodup (h : log.NumberedBelow next) :
    (log.lineRecords.map (·.sequence)).Nodup :=
  h.nodup.sublist (log.lineRecords_sublist.map _)

theorem line_bounded (h : log.NumberedBelow next) :
    ∀ record ∈ log.lineRecords, record.sequence < u64Max :=
  fun record hrecord => h.bounded record (log.lineRecords_sublist.subset hrecord)

/-- With the next number at its end, the numbers of the lines are still different. -/
theorem nodup_snoc (h : log.NumberedBelow next) (hrecord : record.sequence = next) :
    ((log.lineRecords ++ [record]).map (·.sequence)).Nodup := by
  rw [List.map_append, List.nodup_append]
  refine ⟨h.line_nodup, List.pairwise_singleton _ _, ?_⟩
  intro number hnumber other hother
  obtain ⟨earlier, hearlier, rfl⟩ := List.mem_map.mp hnumber
  obtain rfl : other = record.sequence := List.mem_singleton.mp hother
  have := h.lines_lt earlier hearlier
  omega

theorem bounded_snoc (h : log.NumberedBelow next) (hrecord : record.sequence = next)
    (hnext : next < u64Max) : ∀ r ∈ log.lineRecords ++ [record], r.sequence < u64Max := by
  intro r hr
  rcases List.mem_append.mp hr with hr | hr
  · exact h.line_bounded r hr
  · obtain rfl := List.mem_singleton.mp hr
    omega

/-- A log without its tail. -/
theorem of_lines {log' : WarningLog} (h : log.NumberedBelow next)
    (hlines : log'.lineRecords = log.lineRecords) (hrecords : log'.records = log.lineRecords)
    (htail : ∀ record, log'.tail ≠ .whole record) : log'.NumberedBelow next where
  nodup := by rw [hrecords]; exact h.line_nodup
  lines_lt := by rw [hlines]; exact h.lines_lt
  tail_le := fun record hrecord => absurd hrecord (htail record)
  bounded := by rw [hrecords]; exact h.line_bounded

theorem mono {next' : Nat} (h : log.NumberedBelow next) (hle : next ≤ next') :
    log.NumberedBelow next' where
  nodup := h.nodup
  lines_lt := fun record hrecord => (h.lines_lt record hrecord).trans_le hle
  tail_le := fun record hrecord => (h.tail_le record hrecord).trans hle
  bounded := h.bounded

theorem addLine (record : StorageWarningRecord) (h : log.NumberedBelow next) (hrecord : record.sequence = next)
    (hnext : next < u64Max) : (log.addLine record).NumberedBelow (next + 1) := by
  have hlines : (log.addLine record).records = (log.addLine record).lineRecords :=
    records_of_tail_empty rfl
  match htail : log.tail with
  | .empty =>
    have heq : (log.addLine record).lineRecords = log.lineRecords ++ [record] := by
      simp [lineRecords, WarningLog.addLine, htail]
    refine ⟨?_, ?_, fun _ h => (nomatch h), ?_⟩
    · rw [hlines, heq]
      exact h.nodup_snoc hrecord
    · rw [heq]
      intro r hr
      rcases List.mem_append.mp hr with hr | hr
      · exact (h.lines_lt r hr).trans (Nat.lt_succ_self _)
      · obtain rfl := List.mem_singleton.mp hr
        omega
    · rw [hlines, heq]
      exact h.bounded_snoc hrecord hnext
  | .torn | .whole _ =>
    -- The line that the tail is joined to holds no record.
    have heq : (log.addLine record).lineRecords = log.lineRecords := by
      simp [lineRecords, WarningLog.addLine, htail]
    exact (h.of_lines heq (hlines.trans heq) fun _ h => (nomatch h)).mono (Nat.le_succ _)

/-- An append that stops before its line is complete. -/
theorem stalled {fate : AppendFate} (record : StorageWarningRecord) (h : log.NumberedBelow next)
    (hrecord : record.sequence = next) (hnext : next < u64Max) (hfate : ¬fate.WritesLine) :
    (appendWarning log record fate).1.NumberedBelow next := by
  cases fate with
  | refused => exact h
  | torn => exact h.of_lines rfl (records_of_tail_torn rfl) fun _ h => (nomatch h)
  | unterminated =>
    match htail : log.tail with
    | .empty =>
      have heq : (appendWarning log record .unterminated).1.tail = .whole record := by
        simp [appendWarning, htail]
      refine ⟨?_, h.lines_lt, ?_, ?_⟩
      · rw [records_of_tail_whole heq]
        exact h.nodup_snoc hrecord
      · intro r hr
        rw [heq] at hr
        cases hr
        exact hrecord.le
      · rw [records_of_tail_whole heq]
        exact h.bounded_snoc hrecord hnext
    | .torn | .whole _ =>
      have heq : (appendWarning log record .unterminated).1.tail = .torn := by
        simp [appendWarning, htail]
      refine h.of_lines rfl (records_of_tail_torn heq) ?_
      intro r hr
      rw [heq] at hr
      cases hr
  | unsynced => exact absurd (.inl rfl) hfate
  | done => exact absurd (.inr rfl) hfate

end NumberedBelow

theorem le_foldl_max (numbers : List Nat) (start : Nat) :
    start ≤ numbers.foldl max start ∧ ∀ n ∈ numbers, n ≤ numbers.foldl max start := by
  induction numbers generalizing start with
  | nil => exact ⟨le_rfl, fun _ h => (nomatch h)⟩
  | cons number rest ih =>
    obtain ⟨hstart, hrest⟩ := ih (max start number)
    refine ⟨(le_max_left _ _).trans hstart, ?_⟩
    intro n hn
    rcases List.mem_cons.mp hn with rfl | hn
    · exact (le_max_right _ _).trans hstart
    · exact hrest n hn

/-- The number that is found when the log is read comes after those in it. -/
theorem lt_warningSequenceFloor {log : WarningLog} {record : StorageWarningRecord}
    (hrecord : record ∈ log.records) (hbounded : record.sequence < u64Max) :
    record.sequence < warningSequenceFloor log := by
  have hle := (le_foldl_max (log.records.map (·.sequence)) 0).2 _ (List.mem_map_of_mem hrecord)
  rw [warningSequenceFloor, saturatingAdd]
  omega

theorem warningSequenceFloor_pos (log : WarningLog) : 0 < warningSequenceFloor log :=
  lt_of_lt_of_le Nat.one_pos (le_max_left _ _)

theorem NumberedBelow.reopened {log : WarningLog} {next next' : Nat} (h : log.NumberedBelow next)
    (hnext : warningSequenceFloor log ≤ next') : log.NumberedBelow next' where
  nodup := h.nodup
  lines_lt := fun record hrecord =>
    (lt_warningSequenceFloor (log.lineRecords_sublist.subset hrecord)
      (h.line_bounded record hrecord)).trans_le hnext
  tail_le := fun record hrecord => by
    have hmem : record ∈ log.records := by
      rw [records_of_tail_whole hrecord]
      exact List.mem_append_right _ (List.mem_singleton_self _)
    exact (lt_warningSequenceFloor hmem (h.bounded record hmem)).le.trans hnext
  bounded := h.bounded

end WarningLog

/-! ## Checked states -/

/-- What the check asks of one store. -/
structure StoreProtection.Valid (protection : StoreProtection) (next : Nat) : Prop where
  clear_of_ok : protection.level = .ok → protection.pressures = [] ∧ protection.episode = none
  active_of_ne : protection.level ≠ .ok → protection.pressures ≠ [] ∧
    ∃ sequence, protection.episode = some sequence ∧ sequence ≠ 0 ∧ sequence < next

theorem validateStore_eq_ok {store : String} {protection : StoreProtection} {next : Nat} :
    validateStore store protection next = .ok () ↔ protection.Valid next := by
  unfold validateStore
  split
  · next hlevel =>
    rw [ensure_eq_ok]
    exact ⟨fun h => ⟨fun _ => h, fun hne => absurd hlevel hne⟩, fun h => h.clear_of_ok hlevel⟩
  · next hlevel =>
    rw [ensure_eq_ok]
    rw [Option.any_eq_true]
    simp only [decide_eq_true_eq]
    exact ⟨fun h => ⟨fun hok => absurd hok hlevel, fun _ => h⟩, fun h => h.active_of_ne hlevel⟩

theorem StoreProtection.valid_clear {next : Nat} : StoreProtection.clear.Valid next where
  clear_of_ok := fun _ => ⟨rfl, rfl⟩
  active_of_ne := fun h => absurd rfl h

theorem StoreProtection.Valid.mono {protection : StoreProtection} {next next' : Nat}
    (h : protection.Valid next) (hle : next ≤ next') : protection.Valid next' where
  clear_of_ok := h.clear_of_ok
  active_of_ne := by
    intro hne
    obtain ⟨hpressures, sequence, hsome, hzero, hlt⟩ := h.active_of_ne hne
    exact ⟨hpressures, sequence, hsome, hzero, hlt.trans_le hle⟩

structure PersistentState.Valid (state : PersistentState) : Prop where
  positive : state.nextWarningSequence ≠ 0
  dataDir : state.dataDir.Valid state.nextWarningSequence
  stateDir : state.stateDir.Valid state.nextWarningSequence

theorem validatePersistentState_eq_ok {state : PersistentState} :
    validatePersistentState state = .ok () ↔ state.Valid := by
  rw [validatePersistentState, ensure_bind_ok_iff, bind_ok_iff, validateStore_eq_ok]
  constructor
  · rintro ⟨hpositive, ⟨⟩, hdata, hstate⟩
    exact ⟨hpositive, validateStore_eq_ok.mp hdata, hstate⟩
  · intro h
    exact ⟨h.positive, (), validateStore_eq_ok.mpr h.dataDir, h.stateDir⟩

/-! ## Decisions -/

/-- The figure of a resource. -/
def figureOf (size available : Nat) : StoragePressureResource → Nat
  | .allocatedBytes => size
  | .filesystemAvailableBytes => available

/-- A figure that has not passed the recovery threshold of the hard level. -/
def StorageBudgetConfig.Unrecovered (budget : StorageBudgetConfig) (figure : Nat) :
    StoragePressureResource → Prop
  | .allocatedBytes => lowerRecovery budget.hardBytes ≤ figure
  | .filesystemAvailableBytes => figure < freeRecovery budget.minimumFreeBytes

theorem lowerRecovery_le (threshold : Nat) : lowerRecovery threshold ≤ threshold := by
  rw [lowerRecovery, storageRecoveryPercent]
  omega

theorem lt_freeRecovery {available threshold : Nat} (hthreshold : threshold ≤ u64Max)
    (h : available < threshold) : available < freeRecovery threshold := by
  rw [freeRecovery, saturatingAdd]
  omega

/-- A hard level through a resource. -/
def HardThrough (level : BudgetLevel) (pressures : List StoragePressureResource)
    (resource : StoragePressureResource) : Prop :=
  level = .hard ∧ resource ∈ pressures

section Decision

variable {size available : Nat} {budget : StorageBudgetConfig} {previousLevel : BudgetLevel}
  {previousPressures : List StoragePressureResource}

/-- A resource is above its hard threshold, or it held the level before and has not recovered. -/
def hardPressure (size available : Nat) (budget : StorageBudgetConfig) (previousLevel : BudgetLevel)
    (previousPressures : List StoragePressureResource) : StoragePressureResource → Bool
  | .allocatedBytes => decide (budget.hardBytes ≤ size) ||
      (previousLevel == .hard && previousPressures.contains .allocatedBytes &&
        decide (lowerRecovery budget.hardBytes ≤ size))
  | .filesystemAvailableBytes => decide (available < budget.minimumFreeBytes) ||
      (previousLevel == .hard && previousPressures.contains .filesystemAvailableBytes &&
        decide (available < freeRecovery budget.minimumFreeBytes))

theorem mem_pressuresOf {sizeHeld freeHeld : Bool} {sizeThreshold freeThreshold : Nat}
    {resource : StoragePressureResource} :
    resource ∈ (pressuresOf sizeHeld freeHeld size available sizeThreshold freeThreshold).map
        (·.resource) ↔
      match resource with
      | .allocatedBytes => sizeHeld = true
      | .filesystemAvailableBytes => freeHeld = true := by
  cases resource <;> cases sizeHeld <;> cases freeHeld <;> simp [pressuresOf]

theorem pressuresOf_ne_nil {sizeHeld freeHeld : Bool} {sizeThreshold freeThreshold : Nat}
    (h : (sizeHeld || freeHeld) = true) :
    pressuresOf sizeHeld freeHeld size available sizeThreshold freeThreshold ≠ [] := by
  cases sizeHeld <;> cases freeHeld <;> simp_all [pressuresOf]

/-- The level has pressures unless it is ok. -/
theorem budgetDecision_ok_iff :
    (budgetDecision size available budget previousLevel previousPressures).level = .ok ↔
      (budgetDecision size available budget previousLevel previousPressures).pressures = [] := by
  unfold budgetDecision
  simp only
  split
  · next h => exact iff_of_false (fun h => (nomatch h)) (pressuresOf_ne_nil h)
  · split
    · next h => exact iff_of_false (fun h => (nomatch h)) (pressuresOf_ne_nil h)
    · exact iff_of_true rfl rfl

/-- The level is hard through the resources that press for it. -/
theorem budgetDecision_hardThrough_iff {resource : StoragePressureResource} :
    HardThrough (budgetDecision size available budget previousLevel previousPressures).level
        (pressureResources (budgetDecision size available budget previousLevel previousPressures))
        resource ↔
      hardPressure size available budget previousLevel previousPressures resource = true := by
  unfold budgetDecision pressureResources
  simp only
  split
  · rw [HardThrough, mem_pressuresOf]
    cases resource <;> exact ⟨fun h => h.2, fun h => ⟨rfl, h⟩⟩
  · next hnone =>
    refine iff_of_false ?_ ?_
    · split <;> exact fun h => (nomatch h.1)
    · intro hpressure
      apply hnone
      rw [Bool.or_eq_true]
      cases resource
      · exact .inl hpressure
      · exact .inr hpressure

/-- What held the hard level holds it until it has recovered. -/
theorem budgetDecision_stays {resource : StoragePressureResource}
    (hprevious : HardThrough previousLevel previousPressures resource)
    (hfigure : budget.Unrecovered (figureOf size available resource) resource) :
    HardThrough (budgetDecision size available budget previousLevel previousPressures).level
      (pressureResources (budgetDecision size available budget previousLevel previousPressures))
      resource := by
  obtain ⟨rfl, hmem⟩ := hprevious
  rw [budgetDecision_hardThrough_iff]
  cases resource with
  | allocatedBytes =>
    have hfigure : lowerRecovery budget.hardBytes ≤ size := hfigure
    simp [hardPressure, hmem, hfigure]
  | filesystemAvailableBytes =>
    have hfigure : available < freeRecovery budget.minimumFreeBytes := hfigure
    simp [hardPressure, hmem, hfigure]

theorem unrecovered_of_hardThrough {resource : StoragePressureResource}
    (h : HardThrough (budgetDecision size available budget previousLevel previousPressures).level
      (pressureResources (budgetDecision size available budget previousLevel previousPressures))
      resource) : budget.Unrecovered (figureOf size available resource) resource := by
  rw [budgetDecision_hardThrough_iff] at h
  cases resource with
  | allocatedBytes =>
    simp only [hardPressure, Bool.or_eq_true, Bool.and_eq_true, decide_eq_true_eq] at h
    rcases h with h | h
    · exact (lowerRecovery_le _).trans h
    · exact h.2
  | filesystemAvailableBytes =>
    simp only [hardPressure, Bool.or_eq_true, Bool.and_eq_true, decide_eq_true_eq] at h
    rcases h with h | h
    · exact lt_freeRecovery budget.minimumFreeBytes_le h
    · exact h.2

/-- Without a hard level both figures are within their hard thresholds. -/
theorem within_of_not_hard
    (h : (budgetDecision size available budget previousLevel previousPressures).level ≠ .hard) :
    size < budget.hardBytes ∧ budget.minimumFreeBytes ≤ available := by
  have hnone (resource : StoragePressureResource) :
      hardPressure size available budget previousLevel previousPressures resource ≠ true :=
    fun hpressure => h (budgetDecision_hardThrough_iff.mpr hpressure).1
  constructor
  · by_contra hle
    exact hnone .allocatedBytes (by simp [hardPressure, Nat.not_lt.mp hle])
  · by_contra hle
    exact hnone .filesystemAvailableBytes (by simp [hardPressure, Nat.not_le.mp hle])

end Decision

/-! ## Evaluations -/

/-- Where a store stands after a transition. -/
def transitionEpisode (previous : StoreProtection) (decision : BudgetDecision) (next : Nat) :
    Option Nat :=
  if needsRecord previous decision then nextEpisode previous decision next else previous.episode

def transitionNext (previous : StoreProtection) (decision : BudgetDecision) (next : Nat) : Nat :=
  if needsRecord previous decision then next + 1 else next

def protectionOf (previous : StoreProtection) (decision : BudgetDecision) (next : Nat) :
    StoreProtection where
  level := decision.level
  pressures := pressureResources decision
  episode := transitionEpisode previous decision next

theorem saturatingAdd_one {n : Nat} (h : n < u64Max) : saturatingAdd n 1 = n + 1 :=
  min_eq_left h

theorem level_eq_of_not_needsRecord {previous : StoreProtection} {decision : BudgetDecision}
    (h : ¬needsRecord previous decision) : previous.level = decision.level := by
  by_contra hne
  exact h (by simp [needsRecord, hne])

/-- What a transition does to the log, to the episode and to the next number. -/
theorem recordTransition_cases (log : WarningLog) (fate : AppendFate) (observedAt store : String)
    (previous : StoreProtection) (decision : BudgetDecision) (size available : Nat)
    (budget : StorageBudgetConfig) {next : Nat} (hnext : needsRecord previous decision → next < u64Max)
    (hnumbered : log.NumberedBelow next)
    (hfate : needsRecord previous decision → fate.WritesLine → fate = .done) :
    (∃ log', recordTransition log fate observedAt store previous decision size available budget next =
        (log', .ok (transitionEpisode previous decision next, transitionNext previous decision next)) ∧
      log'.NumberedBelow (transitionNext previous decision next) ∧
      (needsRecord previous decision → fate = .done)) ∨
    (∃ log', recordTransition log fate observedAt store previous decision size available budget next =
        (log', .error .io) ∧
      log'.NumberedBelow next ∧ needsRecord previous decision ∧ ¬fate.WritesLine) := by
  unfold recordTransition transitionEpisode transitionNext
  by_cases hneeds : needsRecord previous decision = true
  · have hnext := hnext hneeds
    simp only [hneeds, if_true]
    by_cases hdone : fate.WritesLine
    · obtain rfl := hfate hneeds hdone
      left
      refine ⟨_, ?_, hnumbered.addLine (warningRecord observedAt store previous decision size available
        budget next) rfl hnext, fun _ => rfl⟩
      rw [saturatingAdd_one hnext]
      rfl
    · right
      refine ⟨_, ?_, hnumbered.stalled (warningRecord observedAt store previous decision size available
        budget next) rfl hnext hdone, trivial, hdone⟩
      cases fate with
      | refused | torn | unterminated => rfl
      | unsynced | done => simp [AppendFate.WritesLine] at hdone
  · simp only [hneeds]
    exact .inl ⟨log, rfl, hnumbered, fun h => absurd h (by simp)⟩

theorem transitionNext_of_not {previous : StoreProtection} {decision : BudgetDecision} {next : Nat}
    (h : ¬needsRecord previous decision) : transitionNext previous decision next = next :=
  if_neg h

theorem le_transitionNext (previous : StoreProtection) (decision : BudgetDecision) (next : Nat) :
    next ≤ transitionNext previous decision next := by
  unfold transitionNext
  split <;> omega

/-- A store that passed its check passes it after a transition. -/
theorem protectionOf_valid {previous : StoreProtection} {decision : BudgetDecision} {next next' : Nat}
    (hprevious : previous.Valid next) (hpositive : 0 < next)
    (hdecision : decision.level = .ok ↔ decision.pressures = [])
    (hnext : transitionNext previous decision next ≤ next') :
    (protectionOf previous decision next).Valid next' := by
  have hle := le_transitionNext previous decision next
  constructor
  · intro hok
    have hok : decision.level = .ok := hok
    refine ⟨by simp [protectionOf, pressureResources, hdecision.mp hok], ?_⟩
    show transitionEpisode previous decision next = none
    unfold transitionEpisode nextEpisode
    split
    · rfl
    · next hneeds =>
      exact (hprevious.clear_of_ok ((level_eq_of_not_needsRecord hneeds).trans hok)).2
  · intro hne
    have hne : decision.level ≠ .ok := hne
    refine ⟨by simpa [protectionOf, pressureResources] using hdecision.not.mp hne, ?_⟩
    show ∃ sequence, transitionEpisode previous decision next = some sequence ∧ _
    unfold transitionEpisode nextEpisode transitionNext at *
    by_cases hneeds : needsRecord previous decision = true
    · simp only [hneeds, if_true, if_neg hne] at *
      by_cases hfresh : previous.level = .ok ∨ previous.episode = none
      · rw [if_pos hfresh]
        exact ⟨next, rfl, by omega, by omega⟩
      · rw [if_neg hfresh]
        obtain ⟨_, sequence, hsome, hzero, hlt⟩ := hprevious.active_of_ne fun h => hfresh (.inl h)
        exact ⟨sequence, hsome, hzero, by omega⟩
    · have hlevel := level_eq_of_not_needsRecord hneeds
      simp only [hneeds] at *
      obtain ⟨_, sequence, hsome, hzero, hlt⟩ := hprevious.active_of_ne (hlevel ▸ hne)
      exact ⟨sequence, hsome, hzero, by omega⟩

namespace StorageMonitor

def dataNeeds (monitor : StorageMonitor) (observation : Observation) : Bool :=
  needsRecord monitor.dataProtection (monitor.dataDecision observation)

def stateNeeds (monitor : StorageMonitor) (observation : Observation) : Bool :=
  needsRecord monitor.stateProtection (monitor.stateDecision observation)

/-- The number after the record of the data directory. -/
def stateNext (monitor : StorageMonitor) (observation : Observation) : Nat :=
  transitionNext monitor.dataProtection (monitor.dataDecision observation) monitor.nextSequence

/-- The state that an evaluation takes over at its end. -/
def persistentOf (monitor : StorageMonitor) (observation : Observation) : PersistentState where
  previous := observation.previous
  current := observation.current
  dataDir := protectionOf monitor.dataProtection (monitor.dataDecision observation) monitor.nextSequence
  stateDir := protectionOf monitor.stateProtection (monitor.stateDecision observation)
    (monitor.stateNext observation)
  nextWarningSequence := transitionNext monitor.stateProtection (monitor.stateDecision observation)
    (monitor.stateNext observation)

def evaluationOf (monitor : StorageMonitor) (observation : Observation) : PressureEvaluation where
  dataDecision := monitor.dataDecision observation
  stateDecision := monitor.stateDecision observation
  dataEpisode := (monitor.persistentOf observation).dataDir.episode
  stateEpisode := (monitor.persistentOf observation).stateDir.episode

/-- An evaluation that writes a line to the log goes on to its end, and there are numbers left for its
records. -/
structure Completes (monitor : StorageMonitor) (observation : Observation) (fates : Fates) : Prop where
  dataRoom : monitor.dataNeeds observation → monitor.nextSequence < u64Max
  stateRoom : monitor.stateNeeds observation → monitor.stateNext observation < u64Max
  dataDir : monitor.dataNeeds observation → fates.dataDir.WritesLine →
    fates.dataDir = .done ∧ (monitor.stateNeeds observation → fates.stateDir = .done) ∧
      fates.state = .done
  stateDir : monitor.stateNeeds observation → ¬monitor.dataNeeds observation →
    fates.stateDir.WritesLine → fates.stateDir = .done ∧ fates.state = .done

/-- The monitor has passed over the numbers of the log, and its state passes the check. -/
structure Sound (monitor : StorageMonitor) (log : WarningLog) : Prop where
  positive : 0 < monitor.nextSequence
  numbered : log.NumberedBelow monitor.nextSequence
  valid : ∀ state, monitor.state = some state → state.Valid

namespace Sound

variable {monitor : StorageMonitor} {log : WarningLog}

theorem dataProtection_valid (h : monitor.Sound log) :
    monitor.dataProtection.Valid monitor.nextSequence := by
  unfold dataProtection nextSequence
  match hstate : monitor.state with
  | none => exact StoreProtection.valid_clear
  | some state => exact (h.valid state hstate).dataDir.mono (le_max_left _ _)

theorem stateProtection_valid (h : monitor.Sound log) :
    monitor.stateProtection.Valid monitor.nextSequence := by
  unfold stateProtection nextSequence
  match hstate : monitor.state with
  | none => exact StoreProtection.valid_clear
  | some state => exact (h.valid state hstate).stateDir.mono (le_max_left _ _)

end Sound

/-- The state that a sound monitor takes over passes the check. -/
theorem Sound.persistentOf_valid {monitor : StorageMonitor} {log : WarningLog}
    (h : monitor.Sound log) (observation : Observation) : (monitor.persistentOf observation).Valid := by
  have hdata : monitor.nextSequence ≤ monitor.stateNext observation := le_transitionNext _ _ _
  have hstate : monitor.stateNext observation ≤
    (monitor.persistentOf observation).nextWarningSequence := le_transitionNext _ _ _
  have hpositive := h.positive
  refine ⟨by omega, ?_, ?_⟩
  · exact protectionOf_valid h.dataProtection_valid hpositive budgetDecision_ok_iff hstate
  · exact protectionOf_valid (h.stateProtection_valid.mono hdata) (hpositive.trans_le hdata)
      budgetDecision_ok_iff le_rfl

end StorageMonitor

namespace StorageWorld

variable {observation : Observation} {fates : Fates}

/-- The end of an evaluation. A write that returns an error leaves the old state or the new one. -/
theorem persist_cases (world : StorageWorld) (persistAlways : Bool) (persistent : PersistentState) (fate : StateFate)
    (evaluation : PressureEvaluation) :
    (∃ state, world.persist persistent persistAlways fate evaluation =
        (⟨world.monitor, ⟨world.disk.log, state⟩⟩, .error .io) ∧ fate ≠ .done ∧
      (state = world.disk.state ∨ state = some persistent)) ∨
    (∃ state, world.persist persistent persistAlways fate evaluation =
        (⟨{ world.monitor with
            state := some persistent
            nextWarningSequenceFloor := persistent.nextWarningSequence },
          ⟨world.disk.log, state⟩⟩, .ok evaluation) ∧
      (state = some persistent ∨
        state = world.disk.state ∧ persistAlways = false ∧ world.monitor.state = some persistent)) := by
  unfold persist
  simp only
  split
  · cases fate with
    | refused => exact .inl ⟨world.disk.state, rfl, fun h => (nomatch h), .inl rfl⟩
    | unsynced => exact .inl ⟨some persistent, rfl, fun h => (nomatch h), .inr rfl⟩
    | done => exact .inr ⟨some persistent, rfl, .inl rfl⟩
  · next hskip =>
    rw [not_or, not_ne_iff, Bool.not_eq_true] at hskip
    exact .inr ⟨world.disk.state, rfl, .inr ⟨rfl, hskip⟩⟩

/-- What an evaluation does. Either it fails, and then no number has been used; or it succeeds, and the
state that it takes over stands on disk unless it was the monitor's before. -/
theorem evaluateAndPersist_cases (world : StorageWorld) (persistAlways : Bool)
    (hsound : world.monitor.Sound world.disk.log)
    (hcompletes : world.monitor.Completes observation fates) :
    (∃ disk, world.evaluateAndPersist observation persistAlways fates =
        (⟨world.monitor, disk⟩, .error .io) ∧
      disk.log.NumberedBelow world.monitor.nextSequence ∧
      (disk.state = world.disk.state ∨ disk.state = some (world.monitor.persistentOf observation))) ∨
    (∃ disk, world.evaluateAndPersist observation persistAlways fates =
        (⟨{ world.monitor with
            state := some (world.monitor.persistentOf observation)
            nextWarningSequenceFloor := (world.monitor.persistentOf observation).nextWarningSequence },
          disk⟩, .ok (world.monitor.evaluationOf observation)) ∧
      disk.log.NumberedBelow (world.monitor.persistentOf observation).nextWarningSequence ∧
      (disk.state = some (world.monitor.persistentOf observation) ∨
        disk.state = world.disk.state ∧ persistAlways = false ∧
          world.monitor.state = some (world.monitor.persistentOf observation))) := by
  unfold evaluateAndPersist
  simp only
  obtain ⟨log, heq, hlog, hdata⟩ | ⟨log, heq, hlog, -, -⟩ :=
    recordTransition_cases world.disk.log fates.dataDir observation.observedAt "dataDir"
      world.monitor.dataProtection (world.monitor.dataDecision observation) observation.dataSize
      observation.dataAvailable world.monitor.config.dataDir hcompletes.dataRoom hsound.numbered
      fun hneeds hwrites => (hcompletes.dataDir hneeds hwrites).1
  · rw [heq]
    simp only
    have hroom := hcompletes.stateRoom
    unfold StorageMonitor.stateNext at hroom
    -- The first record is in the log, if there was one; then the second transition does not stall.
    have hfate (hneeds : world.monitor.stateNeeds observation) (hwrites : fates.stateDir.WritesLine) :
        fates.stateDir = .done := by
      by_cases hfirst : world.monitor.dataNeeds observation = true
      · exact (hcompletes.dataDir hfirst (.inr (hdata hfirst))).2.1 hneeds
      · exact (hcompletes.stateDir hneeds hfirst hwrites).1
    obtain ⟨log', heq', hlog', hstate⟩ | ⟨log', heq', hlog', hneeds, hstalled⟩ :=
      recordTransition_cases log fates.stateDir observation.observedAt "stateDir"
        world.monitor.stateProtection (world.monitor.stateDecision observation) observation.stateSize
        observation.stateAvailable world.monitor.config.stateDir hroom hlog hfate
    · rw [heq']
      simp only
      obtain ⟨state, hpersist, hfailed, hkept⟩ | ⟨state, hpersist, hkept⟩ :=
        persist_cases ⟨world.monitor, ⟨log', world.disk.state⟩⟩ persistAlways
          (world.monitor.persistentOf observation) fates.state (world.monitor.evaluationOf observation)
      · -- Without a record the number is the one before.
        have hnone : ¬world.monitor.dataNeeds observation := fun hneeds =>
          hfailed (hcompletes.dataDir hneeds (.inr (hdata hneeds))).2.2
        have hnone' : ¬world.monitor.stateNeeds observation := fun hneeds =>
          hfailed (hcompletes.stateDir hneeds hnone (.inr (hstate hneeds))).2
        refine .inl ⟨⟨log', state⟩, hpersist, ?_, hkept⟩
        rw [transitionNext_of_not hnone', transitionNext_of_not hnone] at hlog'
        exact hlog'
      · exact .inr ⟨⟨log', state⟩, hpersist, hlog', hkept⟩
    · rw [heq']
      have hnone : ¬world.monitor.dataNeeds observation := fun hfirst =>
        hstalled (.inr ((hcompletes.dataDir hfirst (.inr (hdata hfirst))).2.1 hneeds))
      refine .inl ⟨⟨log', world.disk.state⟩, rfl, ?_, .inl rfl⟩
      rw [transitionNext_of_not hnone] at hlog'
      exact hlog'
  · rw [heq]
    exact .inl ⟨⟨log, world.disk.state⟩, rfl, hlog, .inl rfl⟩

end StorageWorld

/-! ## The two stores -/

inductive Store
  | dataDir
  | stateDir

def StorageConfig.budget (config : StorageConfig) : Store → StorageBudgetConfig
  | .dataDir => config.dataDir
  | .stateDir => config.stateDir

def PersistentState.protection (state : PersistentState) : Store → StoreProtection
  | .dataDir => state.dataDir
  | .stateDir => state.stateDir

def Observation.size (observation : Observation) : Store → Nat
  | .dataDir => observation.dataSize
  | .stateDir => observation.stateSize

def Observation.available (observation : Observation) : Store → Nat
  | .dataDir => observation.dataAvailable
  | .stateDir => observation.stateAvailable

namespace StorageMonitor

def protection (monitor : StorageMonitor) : Store → StoreProtection
  | .dataDir => monitor.dataProtection
  | .stateDir => monitor.stateProtection

def decision (monitor : StorageMonitor) (observation : Observation) (store : Store) : BudgetDecision :=
  budgetDecision (observation.size store) (observation.available store) (monitor.config.budget store)
    (monitor.protection store).level (monitor.protection store).pressures

/-- The size of a store that is shown. -/
def size (monitor : StorageMonitor) : Store → Nat
  | .dataDir => monitor.snapshot.dataDir.sizeBytes
  | .stateDir => monitor.snapshot.stateDir.sizeBytes

def available (monitor : StorageMonitor) : Store → Option Nat
  | .dataDir => monitor.snapshot.dataDir.filesystemAvailableBytes
  | .stateDir => monitor.snapshot.stateDir.filesystemAvailableBytes

/-- The store is at the hard level through a resource. -/
def HardThrough (monitor : StorageMonitor) (store : Store) (resource : StoragePressureResource) : Prop :=
  Storage.HardThrough (monitor.protection store).level (monitor.protection store).pressures resource

variable {monitor : StorageMonitor} {observation : Observation} {log : WarningLog}

theorem protection_of_some {state : PersistentState} (h : monitor.state = some state) (store : Store) :
    monitor.protection store = state.protection store := by
  cases store <;> simp only [protection, dataProtection, stateProtection, h] <;> rfl

theorem hardThrough_congr {monitor' : StorageMonitor} (h : monitor.state = monitor'.state)
    {store : Store} {resource : StoragePressureResource} :
    monitor.HardThrough store resource ↔ monitor'.HardThrough store resource := by
  cases store <;>
    simp only [HardThrough, protection, dataProtection, stateProtection, h]

theorem hardThrough_persistentOf_iff {store : Store} {resource : StoragePressureResource} :
    Storage.HardThrough ((monitor.persistentOf observation).protection store).level
        ((monitor.persistentOf observation).protection store).pressures resource ↔
      Storage.HardThrough (monitor.decision observation store).level
        (pressureResources (monitor.decision observation store)) resource := by
  cases store <;> rfl

/-- A store at an active level has its warning. -/
theorem pushActiveWarning_eq (store : String) {previous : StoreProtection}
    {decision : BudgetDecision} {next next' : Nat} (hvalid : (protectionOf previous decision next).Valid next')
    (size available : Nat) (budget : StorageBudgetConfig) :
    ∃ warnings, pushActiveWarning store decision size available budget
        (transitionEpisode previous decision next) = .ok warnings ∧
      ((∃ warning ∈ warnings, warning.level = .hard) ↔ decision.level = .hard) := by
  unfold pushActiveWarning
  by_cases hlevel : decision.level = .ok
  · rw [if_pos hlevel]
    exact ⟨[], rfl, by simp [hlevel]⟩
  · obtain ⟨-, sequence, hsome, -⟩ := hvalid.active_of_ne hlevel
    have hsome : transitionEpisode previous decision next = some sequence := hsome
    rw [if_neg hlevel, hsome]
    exact ⟨_, rfl, by simp⟩

theorem intakeOf_accepting_iff (warnings : List ActiveStorageWarning) :
    (intakeOf warnings).accepting = true ↔ ¬∃ warning ∈ warnings, warning.level = .hard := by
  unfold intakeOf
  simp only
  split
  · next h => simpa [List.filter_eq_nil_iff] using h
  · next h => simpa [List.filter_eq_nil_iff] using h

/-- Intake is accepted where no store is at the hard level; no episode is missing. -/
theorem Sound.activeWarningsAndIntake_eq (h : monitor.Sound log) (observation : Observation) :
    ∃ warnings intake,
      activeWarningsAndIntake (monitor.evaluationOf observation) observation monitor.config =
        .ok (warnings, intake) ∧
      (intake.accepting = true ↔ ∀ store, (monitor.decision observation store).level ≠ .hard) := by
  have hvalid := h.persistentOf_valid observation
  obtain ⟨first, hfirst, hfirstHard⟩ := pushActiveWarning_eq "dataDir" hvalid.dataDir
    observation.dataSize observation.dataAvailable monitor.config.dataDir
  obtain ⟨second, hsecond, hsecondHard⟩ := pushActiveWarning_eq "stateDir" hvalid.stateDir
    observation.stateSize observation.stateAvailable monitor.config.stateDir
  refine ⟨first ++ second, intakeOf (first ++ second), ?_, ?_⟩
  · simp only [activeWarningsAndIntake, bind_ok_iff]
    exact ⟨first, hfirst, second, hsecond, rfl⟩
  · rw [intakeOf_accepting_iff]
    simp only [List.mem_append, or_and_right, exists_or, not_or, hfirstHard, hsecondHard]
    exact ⟨fun ⟨hdata, hstate⟩ store => by cases store <;> assumption,
      fun hnone => ⟨hnone .dataDir, hnone .stateDir⟩⟩

end StorageMonitor

/-! ## Events -/

namespace StorageEvent

def fates : StorageEvent → Fates
  | .sample _ fates | .probe _ _ fates | .restart _ _ _ fates => fates

/-- The figures of a walk. -/
def walkFigure (measurement : StorageMeasurement) : Store → StoragePressureResource → Nat
  | .dataDir => figureOf measurement.dataUsage measurement.dataAvailable
  | .stateDir => figureOf measurement.stateUsage measurement.stateAvailable

/-- The figure of a resource that comes with an event. -/
def figure : StorageEvent → Store → StoragePressureResource → Option Nat
  | .sample (.ok measurement) _, store, resource
  | .restart _ _ (.ok measurement) _, store, resource => some (walkFigure measurement store resource)
  | .probe _ (.ok available) _, .dataDir, .filesystemAvailableBytes => some available.1
  | .probe _ (.ok available) _, .stateDir, .filesystemAvailableBytes => some available.2
  | _, _, _ => none

/-- The event does not bring a figure that has passed the recovery threshold. -/
def Unrecovered (event : StorageEvent) (config : StorageConfig) (store : Store)
    (resource : StoragePressureResource) : Prop :=
  ∀ figure, event.figure store resource = some figure →
    (config.budget store).Unrecovered figure resource

end StorageEvent

namespace StorageWorld

variable [Stamps]

omit [Stamps] in
/-- The monitor that an event finds. -/
def evaluator (world : StorageWorld) : StorageEvent → StorageMonitor
  | .sample .. | .probe .. => world.monitor
  | .restart completionCount now _ _ =>
    unsampled world.monitor.config world.disk completionCount now

/-- What is evaluated at an event, if anything is. -/
def observationOf (world : StorageWorld) : StorageEvent → Option Observation
  | .sample (.ok measurement) _ => some (world.monitor.walkObservation measurement)
  | .restart completionCount now (.ok measurement) _ =>
    some ((unsampled world.monitor.config world.disk completionCount now).walkObservation measurement)
  | .probe checkedAt (.ok (dataAvailable, stateAvailable)) _ =>
    if world.monitor.sampleError.isSome then none
    else world.monitor.state.map fun state =>
      world.monitor.probeObservation state checkedAt dataAvailable stateAvailable
  | _ => none

/-- What is evaluated at an event is completed if it writes a line to the log. -/
def Completes (world : StorageWorld) (event : StorageEvent) : Prop :=
  ∀ observation, world.observationOf event = some observation →
    (world.evaluator event).Completes observation event.fates

/-- The log, the state file and the monitor agree. -/
structure Consistent (world : StorageWorld) : Prop where
  sound : world.monitor.Sound world.disk.log
  file : ∀ state, world.disk.state = some state → state.Valid

/-- What an event does to a consistent world. -/
inductive Outcome (world : StorageWorld) (event : StorageEvent) :
    StorageWorld → Except StorageError Unit → Prop
  /-- Nothing is evaluated or the evaluation fails. The monitor keeps what it knew, with an error. -/
  | kept {monitor : StorageMonitor} {disk : StorageDisk} {result : Except StorageError Unit}
      (config : monitor.config = world.monitor.config)
      (state : monitor.state = (world.evaluator event).state)
      (floor : monitor.nextWarningSequenceFloor = (world.evaluator event).nextWarningSequenceFloor)
      (numbered : disk.log.NumberedBelow (world.evaluator event).nextSequence)
      (file : disk.state = world.disk.state ∨ ∃ observation,
        world.observationOf event = some observation ∧
          disk.state = some ((world.evaluator event).persistentOf observation))
      (error : monitor.sampleError.isSome ∨ monitor.freeSpaceError.isSome)
      (size : monitor.sampleError = none → world.monitor.sampleError = none ∧
        ∀ store, monitor.size store = world.monitor.size store)
      (available : ∀ store figure, monitor.available store = some figure →
        world.monitor.available store = some figure ∨
          event.figure store .filesystemAvailableBytes = some figure)
      (noted : result = .ok () → world.evaluator event = world.monitor)
      (episode : ∀ store, result ≠ .error (.noEpisode store)) :
      Outcome world event ⟨monitor, disk⟩ result
  /-- The evaluation succeeds. -/
  | taken {monitor : StorageMonitor} {disk : StorageDisk} {observation : Observation}
      (observed : world.observationOf event = some observation)
      (config : monitor.config = world.monitor.config)
      (state : monitor.state = some ((world.evaluator event).persistentOf observation))
      (floor : monitor.nextWarningSequenceFloor =
        ((world.evaluator event).persistentOf observation).nextWarningSequence)
      (numbered : disk.log.NumberedBelow
        ((world.evaluator event).persistentOf observation).nextWarningSequence)
      (file : disk.state = some ((world.evaluator event).persistentOf observation) ∨
        disk.state = world.disk.state ∧
          world.monitor.state = some ((world.evaluator event).persistentOf observation))
      (intake : monitor.queryIntake.accepting = true ↔
        ∀ store, ((world.evaluator event).decision observation store).level ≠ .hard)
      (size : ∀ store, monitor.size store = observation.size store)
      (available : ∀ store, monitor.available store = some (observation.available store)) :
      Outcome world event ⟨monitor, disk⟩ (.ok ())

omit [Stamps] in
theorem queryIntake_of_no_error {monitor : StorageMonitor} (hsample : monitor.sampleError = none)
    (hfree : monitor.freeSpaceError = none) : monitor.queryIntake = monitor.snapshot.intake := by
  rw [StorageMonitor.queryIntake, hsample, hfree]
  rfl

omit [Stamps] in
theorem queryIntake_of_error {monitor : StorageMonitor}
    (h : monitor.sampleError.isSome ∨ monitor.freeSpaceError.isSome) :
    monitor.queryIntake.accepting = false := by
  unfold StorageMonitor.queryIntake
  match hsample : monitor.sampleError, hfree : monitor.freeSpaceError with
  | none, none => simp [hsample, hfree] at h
  | some _, none | none, some _ | some _, some _ => rfl

section Outcomes

variable {world : StorageWorld} {event : StorageEvent}

/-- A walk, by the monitor that runs or by one that is opened. -/
theorem outcome_applyMeasurementResult (event : StorageEvent) (measurement : Except String StorageMeasurement)
    (fates : Fates) (hsound : (world.evaluator event).Sound world.disk.log)
    (hconfig : (world.evaluator event).config = world.monitor.config)
    (havailable : ∀ store figure, (world.evaluator event).available store = some figure →
      world.monitor.available store = some figure)
    (hobserved : ∀ walked, measurement = .ok walked →
      world.observationOf event = some ((world.evaluator event).walkObservation walked) ∧
        (world.evaluator event).Completes ((world.evaluator event).walkObservation walked) fates) :
    Outcome world event
      (applyMeasurementResult ⟨world.evaluator event, world.disk⟩ measurement fates).1
      (applyMeasurementResult ⟨world.evaluator event, world.disk⟩ measurement fates).2 := by
  match measurement with
  | .error error =>
    exact .kept hconfig rfl rfl hsound.numbered (.inl rfl) (.inl rfl) (fun h => (nomatch h))
      (fun store figure h => .inl (havailable store figure h)) (fun h => (nomatch h))
      (fun _ h => (nomatch h))
  | .ok walked =>
    obtain ⟨hobserved, hcompletes⟩ := hobserved walked rfl
    unfold applyMeasurementResult applyMeasurement
    simp only
    obtain ⟨disk, heq, hlog, hfile⟩ | ⟨disk, heq, hlog, hfile⟩ :=
      evaluateAndPersist_cases ⟨world.evaluator event, world.disk⟩ true hsound hcompletes
    · rw [heq]
      refine .kept hconfig rfl rfl hlog ?_ (.inl rfl) (fun h => (nomatch h))
        (fun store figure h => .inl (havailable store figure h)) (fun h => (nomatch h))
        (fun _ h => (nomatch h))
      exact hfile.imp_right fun h => ⟨_, hobserved, h⟩
    · rw [heq]
      obtain ⟨warnings, intake, hwarnings, hintake⟩ :=
        hsound.activeWarningsAndIntake_eq ((world.evaluator event).walkObservation walked)
      simp only [hwarnings]
      refine .taken hobserved hconfig rfl rfl hlog ?_ hintake ?_ ?_
      · exact hfile.imp_right fun h => absurd h.2.1 (by decide)
      · intro store
        cases store <;> rfl
      · intro store
        cases store <;> rfl

theorem outcome_refreshFreeSpace (checkedAt : String) (available : Except String (Nat × Nat))
    (fates : Fates) (hsound : world.monitor.Sound world.disk.log)
    (hcompletes : world.Completes (.probe checkedAt available fates)) :
    Outcome world (.probe checkedAt available fates)
      (world.refreshFreeSpace checkedAt available fates).1
      (world.refreshFreeSpace checkedAt available fates).2 := by
  match available with
  | .error error =>
    exact .kept rfl rfl rfl hsound.numbered (.inl rfl) (.inr rfl) (fun h => ⟨h, fun _ => rfl⟩)
      (fun _ _ h => .inl h) (fun _ => rfl) (fun _ h => (nomatch h))
  | .ok (dataAvailable, stateAvailable) =>
    unfold refreshFreeSpace
    simp only
    split
    · next herror =>
      -- The probe is only noted.
      refine .kept rfl rfl rfl hsound.numbered (.inl rfl) (.inl herror) ?_ ?_ (fun _ => rfl)
        (fun _ h => (nomatch h))
      · intro hnone
        have hnone : world.monitor.sampleError = none := hnone
        simp [hnone] at herror
      · intro store figure hfigure
        cases store <;> exact .inr hfigure
    · next herror =>
      unfold applyFreeSpace
      match hstate : world.monitor.state with
      | none =>
        exact .kept rfl rfl rfl hsound.numbered (.inl rfl) (.inr rfl) (fun h => ⟨h, fun _ => rfl⟩)
          (fun _ _ h => .inl h) (fun _ => rfl) (fun _ h => (nomatch h))
      | some state =>
        have hobserved : world.observationOf (.probe checkedAt (.ok (dataAvailable, stateAvailable)) fates) =
            some (world.monitor.probeObservation state checkedAt dataAvailable stateAvailable) := by
          simp [observationOf, herror, hstate]
        obtain ⟨disk, heq, hlog, hfile⟩ | ⟨disk, heq, hlog, hfile⟩ :=
          evaluateAndPersist_cases world false hsound (hcompletes _ hobserved)
        · simp only [StorageEvent.fates] at heq
          simp only [heq]
          exact .kept rfl rfl rfl hlog (hfile.imp_right fun h => ⟨_, hobserved, h⟩) (.inr rfl)
            (fun h => ⟨h, fun _ => rfl⟩) (fun _ _ h => .inl h) (fun _ => rfl) (fun _ h => (nomatch h))
        · simp only [StorageEvent.fates] at heq
          obtain ⟨warnings, intake, hwarnings, hintake⟩ := hsound.activeWarningsAndIntake_eq
            (world.monitor.probeObservation state checkedAt dataAvailable stateAvailable)
          simp only [heq, hwarnings]
          refine .taken hobserved rfl rfl rfl hlog (hfile.imp_right fun h => ⟨h.1, h.2.2⟩) ?_ ?_ ?_
          · rw [queryIntake_of_no_error (by simpa using herror) rfl]
            exact hintake
          · intro store
            cases store <;> rfl
          · intro store
            cases store <;> rfl

omit [Stamps] in
/-- A state that passes its check is loaded. -/
theorem Consistent.load_eq (h : world.Consistent) :
    loadPersistentState world.disk = world.disk.state := by
  unfold loadPersistentState
  match hstate : world.disk.state with
  | none => rfl
  | some state =>
    have hok := validatePersistentState_eq_ok.mpr (h.file state hstate)
    simp [Option.filter, hok, Except.isOk, Except.toBool]

omit [Stamps] in
theorem Consistent.evaluator_sound (h : world.Consistent) (event : StorageEvent) :
    (world.evaluator event).Sound world.disk.log := by
  match event with
  | .sample .. | .probe .. => exact h.sound
  | .restart completionCount now _ _ =>
    have hfloor : warningSequenceFloor world.disk.log ≤
        (unsampled world.monitor.config world.disk completionCount now).nextSequence := by
      rw [StorageMonitor.nextSequence]
      match (unsampled world.monitor.config world.disk completionCount now).state with
      | none => exact le_rfl
      | some _ => exact le_max_right _ _
    refine ⟨(WarningLog.warningSequenceFloor_pos _).trans_le hfloor,
      h.sound.numbered.reopened hfloor, ?_⟩
    intro state hstate
    exact h.file state (h.load_eq ▸ hstate)

theorem Consistent.outcome_step (h : world.Consistent) (hcompletes : world.Completes event) :
    Outcome world event (world.step event).1 (world.step event).2 := by
  match event with
  | .sample measurement fates =>
    refine outcome_applyMeasurementResult (.sample measurement fates) measurement fates h.sound
      rfl (fun _ _ h => h) ?_
    rintro walked rfl
    exact ⟨rfl, hcompletes _ rfl⟩
  | .probe checkedAt available fates => exact outcome_refreshFreeSpace checkedAt available fates h.sound hcompletes
  | .restart completionCount now measurement fates =>
    refine outcome_applyMeasurementResult (.restart completionCount now measurement fates)
      measurement fates (h.evaluator_sound _) rfl ?_ ?_
    · intro store figure hfigure
      cases store <;> cases hfigure
    · rintro walked rfl
      exact ⟨rfl, hcompletes _ rfl⟩

/-- An event keeps a world consistent. -/
theorem Outcome.consistent {after : StorageWorld} {result : Except StorageError Unit}
    (houtcome : Outcome world event after result) (h : world.Consistent) : after.Consistent := by
  have hsound := h.evaluator_sound event
  cases houtcome with
  | @kept monitor disk _ config state floor numbered file =>
    have hnext : monitor.nextSequence = (world.evaluator event).nextSequence := by
      rw [StorageMonitor.nextSequence, state, floor]
      rfl
    refine ⟨⟨hnext ▸ hsound.positive, hnext ▸ numbered, fun s hs => hsound.valid s (state ▸ hs)⟩, ?_⟩
    intro kept hkept
    rcases file with file | ⟨observation, -, file⟩
    · exact h.file kept (file ▸ hkept)
    · obtain rfl : (world.evaluator event).persistentOf observation = kept :=
        Option.some_inj.mp (file.symm.trans hkept)
      exact hsound.persistentOf_valid observation
  | @taken monitor disk observation observed config state floor numbered file =>
    have hvalid := hsound.persistentOf_valid observation
    have hnext : monitor.nextSequence =
        ((world.evaluator event).persistentOf observation).nextWarningSequence := by
      rw [StorageMonitor.nextSequence, state, floor]
      exact max_self _
    refine ⟨⟨hnext ▸ Nat.pos_of_ne_zero hvalid.positive, hnext ▸ numbered, ?_⟩, ?_⟩
    · intro s hs
      obtain rfl := Option.some_inj.mp (state.symm.trans hs)
      exact hvalid
    · intro kept hkept
      rcases file with file | ⟨file, -⟩
      · obtain rfl := Option.some_inj.mp (file.symm.trans hkept)
        exact hvalid
      · exact h.file kept (file ▸ hkept)

/-! ## Holding the hard level -/

/-- A store is at the hard level through a resource, in memory and on disk, and the figures from which
the monitor will decide have not recovered. -/
structure Held (world : StorageWorld) (store : Store) (resource : StoragePressureResource) : Prop where
  memory : world.monitor.HardThrough store resource
  file : ∃ state, world.disk.state = some state ∧
    HardThrough (state.protection store).level (state.protection store).pressures resource
  size : world.monitor.sampleError = none → resource = .allocatedBytes →
    (world.monitor.config.budget store).Unrecovered (world.monitor.size store) resource
  available : ∀ figure, world.monitor.available store = some figure →
    resource = .filesystemAvailableBytes →
      (world.monitor.config.budget store).Unrecovered figure resource
  refused : world.monitor.queryIntake.accepting = false

/-- Where the figures of an evaluation come from. -/
theorem observationOf_size {observation : Observation}
    (h : world.observationOf event = some observation) (store : Store) :
    event.figure store .allocatedBytes = some (observation.size store) ∨
      world.monitor.sampleError = none ∧ observation.size store = world.monitor.size store := by
  match event with
  | .sample (.ok measurement) _ | .restart _ _ (.ok measurement) _ =>
    obtain rfl := Option.some_inj.mp h
    cases store <;> exact .inl rfl
  | .probe checkedAt (.ok (dataAvailable, stateAvailable)) _ =>
    rw [observationOf] at h
    split at h
    · cases h
    · next herror =>
      obtain ⟨state, -, rfl⟩ := Option.map_eq_some_iff.mp h
      exact .inr ⟨by simpa using herror, by cases store <;> rfl⟩
  | .sample (.error _) _ | .restart _ _ (.error _) _ | .probe _ (.error _) _ => cases h

theorem walkObservation_available (monitor : StorageMonitor) (measurement : StorageMeasurement)
    (store : Store) :
    (monitor.walkObservation measurement).available store =
        StorageEvent.walkFigure measurement store .filesystemAvailableBytes ∨
      monitor.available store = some ((monitor.walkObservation measurement).available store) := by
  have hprobe (figures : Nat × Nat) (h : monitor.fresherProbe measurement = some figures) :
      monitor.snapshot.dataDir.filesystemAvailableBytes = some figures.1 ∧
        monitor.snapshot.stateDir.filesystemAvailableBytes = some figures.2 := by
    unfold StorageMonitor.fresherProbe at h
    split at h
    · next hdata hstate =>
      split at h
      · cases h
        exact ⟨hdata, hstate⟩
      · cases h
    · cases h
  match hfresh : monitor.fresherProbe measurement with
  | none =>
    left
    cases store <;>
      simp [Observation.available, StorageMonitor.walkObservation, hfresh, StorageEvent.walkFigure,
        figureOf]
  | some figures =>
    right
    obtain ⟨hdata, hstate⟩ := hprobe figures hfresh
    cases store <;>
      simp [Observation.available, StorageMonitor.walkObservation, hfresh, StorageMonitor.available,
        hdata, hstate]

theorem observationOf_available {observation : Observation}
    (h : world.observationOf event = some observation) (store : Store) :
    event.figure store .filesystemAvailableBytes = some (observation.available store) ∨
      world.monitor.available store = some (observation.available store) := by
  match event with
  | .sample (.ok measurement) _ =>
    obtain rfl := Option.some_inj.mp h
    refine (walkObservation_available _ measurement store).imp_left fun heq => ?_
    exact congrArg some heq.symm
  | .restart completionCount now (.ok measurement) _ =>
    obtain rfl := Option.some_inj.mp h
    -- A monitor that is opened has no probe yet.
    refine (walkObservation_available _ measurement store).imp (fun heq => congrArg some heq.symm) ?_
    intro hnone
    cases store <;> cases hnone
  | .probe checkedAt (.ok (dataAvailable, stateAvailable)) _ =>
    rw [observationOf] at h
    split at h
    · cases h
    · obtain ⟨state, -, rfl⟩ := Option.map_eq_some_iff.mp h
      cases store <;> exact .inl rfl
  | .sample (.error _) _ | .restart _ _ (.error _) _ | .probe _ (.error _) _ => cases h

section Held

variable {after : StorageWorld} {result : Except StorageError Unit} {store : Store}
  {resource : StoragePressureResource}

/-- The figure from which an evaluation decides has not recovered. -/
theorem Held.observed_unrecovered {observation : Observation} (hheld : world.Held store resource)
    (hevent : event.Unrecovered world.monitor.config store resource)
    (hobserved : world.observationOf event = some observation) :
    (world.monitor.config.budget store).Unrecovered
      (figureOf (observation.size store) (observation.available store) resource) resource := by
  cases resource with
  | allocatedBytes =>
    rcases observationOf_size hobserved store with hfigure | ⟨herror, hsize⟩
    · exact hevent _ hfigure
    · exact hsize ▸ hheld.size herror rfl
  | filesystemAvailableBytes =>
    rcases observationOf_available hobserved store with hfigure | hfigure
    · exact hevent _ hfigure
    · exact hheld.available _ hfigure rfl

omit [Stamps] in
/-- The monitor that an event finds is at the hard level, also when it is opened. -/
theorem Held.evaluator_hardThrough (hheld : world.Held store resource) (h : world.Consistent)
    (event : StorageEvent) : (world.evaluator event).HardThrough store resource := by
  match event with
  | .sample .. | .probe .. => exact hheld.memory
  | .restart completionCount now _ _ =>
    obtain ⟨state, hstate, hhard⟩ := hheld.file
    have hloaded : (world.evaluator (.restart completionCount now ‹_› ‹_›)).state = some state :=
      h.load_eq.trans hstate
    rw [StorageMonitor.HardThrough, StorageMonitor.protection_of_some hloaded]
    exact hhard

omit [Stamps] in
theorem evaluator_config (event : StorageEvent) :
    (world.evaluator event).config = world.monitor.config := by
  cases event <;> rfl

omit [Stamps] in
/-- After an evaluation that finds a store at the hard level. -/
theorem held_of_taken {monitor : StorageMonitor} {disk : StorageDisk} {observation : Observation}
    (hconfig : monitor.config = world.monitor.config)
    (hstate : monitor.state = some ((world.evaluator event).persistentOf observation))
    (hfile : ∃ state, disk.state = some state ∧
      Storage.HardThrough (state.protection store).level (state.protection store).pressures resource)
    (hintake : monitor.queryIntake.accepting = true ↔
      ∀ store, ((world.evaluator event).decision observation store).level ≠ .hard)
    (hsize : ∀ store, monitor.size store = observation.size store)
    (havailable : ∀ store, monitor.available store = some (observation.available store))
    (hhard : Storage.HardThrough ((world.evaluator event).decision observation store).level
      (pressureResources ((world.evaluator event).decision observation store)) resource) :
    Held ⟨monitor, disk⟩ store resource := by
  have hfigure := unrecovered_of_hardThrough hhard
  rw [evaluator_config] at hfigure
  refine ⟨?_, hfile, ?_, ?_, ?_⟩
  · rw [StorageMonitor.HardThrough, StorageMonitor.protection_of_some hstate]
    exact StorageMonitor.hardThrough_persistentOf_iff.mpr hhard
  · rintro - rfl
    show (monitor.config.budget store).Unrecovered (monitor.size store) _
    rw [hconfig, hsize]
    exact hfigure
  · rintro figure hfound rfl
    obtain rfl := Option.some_inj.mp ((havailable store).symm.trans hfound)
    show (monitor.config.budget store).Unrecovered _ _
    rw [hconfig]
    exact hfigure
  · rw [Bool.eq_false_iff]
    intro haccepting
    exact hintake.mp haccepting store hhard.1

/-- What holds a store at the hard level goes on to hold it while it does not recover. -/
theorem Outcome.held (houtcome : Outcome world event after result) (h : world.Consistent)
    (hheld : world.Held store resource)
    (hevent : event.Unrecovered world.monitor.config store resource) : after.Held store resource := by
  have hmemory := hheld.evaluator_hardThrough h event
  have hdecision (observation : Observation) (hobserved : world.observationOf event = some observation) :
      Storage.HardThrough ((world.evaluator event).decision observation store).level
        (pressureResources ((world.evaluator event).decision observation store)) resource :=
    budgetDecision_stays hmemory (by
      rw [evaluator_config]
      exact hheld.observed_unrecovered hevent hobserved)
  cases houtcome with
  | @kept monitor disk _ config state floor numbered file error size available =>
    refine ⟨?_, ?_, ?_, ?_, queryIntake_of_error error⟩
    · exact (StorageMonitor.hardThrough_congr state).mpr hmemory
    · rcases file with file | ⟨observation, hobserved, file⟩
      · exact file ▸ hheld.file
      · exact ⟨_, file, StorageMonitor.hardThrough_persistentOf_iff.mpr (hdecision _ hobserved)⟩
    · intro herror hresource
      obtain ⟨hbefore, hsize⟩ := size herror
      show (monitor.config.budget store).Unrecovered (monitor.size store) _
      rw [config, hsize]
      exact hheld.size hbefore hresource
    · rintro figure hfigure rfl
      show (monitor.config.budget store).Unrecovered _ _
      rw [config]
      rcases available store figure hfigure with hold | hnew
      · exact hheld.available figure hold rfl
      · exact hevent figure hnew
  | @taken monitor disk observation observed config state floor numbered file intake size available =>
    refine held_of_taken config state ?_ intake size available (hdecision _ observed)
    rcases file with file | ⟨file, -⟩
    · exact ⟨_, file, StorageMonitor.hardThrough_persistentOf_iff.mpr (hdecision _ observed)⟩
    · exact file ▸ hheld.file

/-- A store that an event brings to the hard level is held there. -/
theorem Outcome.held_of_became (houtcome : Outcome world event after (.ok ()))
    (hbefore : ¬world.monitor.HardThrough store resource)
    (hafter : after.monitor.HardThrough store resource) : after.Held store resource := by
  cases houtcome with
  | @kept monitor disk _ config state floor numbered file error size available noted =>
    rw [noted rfl] at state
    exact absurd ((StorageMonitor.hardThrough_congr state).mp hafter) hbefore
  | @taken monitor disk observation observed config state floor numbered file intake size available =>
    unfold StorageMonitor.HardThrough at hbefore hafter
    rw [StorageMonitor.protection_of_some state] at hafter
    refine held_of_taken config state ?_ intake size available
      (StorageMonitor.hardThrough_persistentOf_iff.mp hafter)
    rcases file with file | ⟨-, hsame⟩
    · exact ⟨_, file, hafter⟩
    · -- The state was not written because it was the monitor's before.
      rw [StorageMonitor.protection_of_some hsame] at hbefore
      exact absurd hafter hbefore

end Held

end Outcomes

/-! ## Whole runs -/

/-- Every evaluation of a run is completed if it writes a line to the log. -/
def RunCompletes (world : StorageWorld) : List StorageEvent → Prop
  | [] => True
  | event :: rest => world.Completes event ∧ (world.step event).1.RunCompletes rest

def runFrom (world : StorageWorld) (events : List StorageEvent) : StorageWorld :=
  events.foldl (fun world event => (world.step event).1) world

variable {world : StorageWorld} {before later : List StorageEvent} {event : StorageEvent}

theorem runCompletes_append :
    world.RunCompletes (before ++ later) ↔
      world.RunCompletes before ∧ (world.runFrom before).RunCompletes later := by
  induction before generalizing world with
  | nil => simp [RunCompletes, runFrom]
  | cons event rest ih =>
    rw [List.cons_append, RunCompletes, ih, RunCompletes, and_assoc]
    rfl

theorem Consistent.runFrom (h : world.Consistent) (hcompletes : world.RunCompletes later) :
    (world.runFrom later).Consistent := by
  induction later generalizing world with
  | nil => exact h
  | cons event rest ih => exact ih ((h.outcome_step hcompletes.1).consistent h) hcompletes.2

omit [Stamps] in
theorem consistent_initial (config : StorageConfig) : (initial config).Consistent where
  sound := ⟨Nat.one_pos, WarningLog.numberedBelow_empty, fun _ h => (nomatch h)⟩
  file := fun _ h => (nomatch h)

theorem Outcome.config {after : StorageWorld} {result : Except StorageError Unit}
    (houtcome : Outcome world event after result) : after.monitor.config = world.monitor.config := by
  cases houtcome with
  | kept config => exact config
  | taken _ config => exact config

theorem Consistent.config_runFrom (h : world.Consistent) (hcompletes : world.RunCompletes later) :
    (world.runFrom later).monitor.config = world.monitor.config := by
  induction later generalizing world with
  | nil => rfl
  | cons event rest ih =>
    have houtcome := h.outcome_step hcompletes.1
    exact (ih (houtcome.consistent h) hcompletes.2).trans houtcome.config

/-- A store is held at the hard level through a run that does not bring a recovered figure. -/
theorem Held.runFrom {store : Store} {resource : StoragePressureResource}
    (hheld : world.Held store resource) (h : world.Consistent) (hcompletes : world.RunCompletes later)
    (hlater : ∀ event ∈ later, event.Unrecovered world.monitor.config store resource) :
    (world.runFrom later).Held store resource := by
  induction later generalizing world with
  | nil => exact hheld
  | cons event rest ih =>
    have houtcome := h.outcome_step hcompletes.1
    have hnext := houtcome.held h hheld (hlater event List.mem_cons_self)
    refine ih hnext (houtcome.consistent h) hcompletes.2 ?_
    rw [houtcome.config]
    exact fun event hevent => hlater event (List.mem_cons_of_mem _ hevent)

/-- Intake is accepted after an event only if what was observed is within the hard thresholds. -/
theorem Outcome.within {after : StorageWorld} {result : Except StorageError Unit}
    (houtcome : Outcome world event after result)
    (haccepting : after.monitor.queryIntake.accepting = true) :
    ∃ observation, world.observationOf event = some observation ∧
      ∀ store, observation.size store < (world.monitor.config.budget store).hardBytes ∧
        (world.monitor.config.budget store).minimumFreeBytes ≤ observation.available store := by
  cases houtcome with
  | @kept monitor disk _ config state floor numbered file error =>
    have hrefused : monitor.queryIntake.accepting = false := queryIntake_of_error error
    rw [show monitor.queryIntake.accepting = true from haccepting] at hrefused
    cases hrefused
  | @taken monitor disk observation observed config state floor numbered file intake =>
    refine ⟨observation, observed, fun store => ?_⟩
    have hwithin := within_of_not_hard (intake.mp haccepting store)
    rw [evaluator_config] at hwithin
    exact hwithin

theorem Outcome.ne_noEpisode {after : StorageWorld} {result : Except StorageError Unit}
    (houtcome : Outcome world event after result) (store : String) :
    result ≠ .error (.noEpisode store) := by
  cases houtcome with
  | @kept _ _ _ _ _ _ _ _ _ _ _ _ episode => exact episode store
  | taken => exact fun h => (nomatch h)

/-- What storage protection promises over a run. -/
structure Protects (config : StorageConfig) (events : List StorageEvent) : Prop where
  /-- After an event that returns Ok intake is accepted only within the hard thresholds. -/
  intake : ∀ before event later, events = before ++ event :: later →
    ((run config before).step event).2 = .ok () →
    ((run config before).step event).1.monitor.queryIntake.accepting = true →
    ∃ observation, (run config before).observationOf event = some observation ∧
      ∀ store, observation.size store < (config.budget store).hardBytes ∧
        (config.budget store).minimumFreeBytes ≤ observation.available store
  /-- A store that becomes hard through a resource stays so until the resource recovers. -/
  hard : ∀ before event later rest, events = before ++ event :: (later ++ rest) →
    ((run config before).step event).2 = .ok () →
    ∀ store resource, ¬(run config before).monitor.HardThrough store resource →
      ((run config before).step event).1.monitor.HardThrough store resource →
      (∀ event ∈ later, event.Unrecovered config store resource) →
      (run config (before ++ event :: later)).monitor.HardThrough store resource ∧
        (run config (before ++ event :: later)).monitor.queryIntake.accepting = false
  /-- The state on disk passes its check and is loaded at the next start. -/
  persisted : ∀ before later, events = before ++ later → ∀ state,
    (run config before).disk.state = some state →
    validatePersistentState state = .ok () ∧
      loadPersistentState (run config before).disk = some state
  episode : ∀ before event later, events = before ++ event :: later → ∀ store,
    ((run config before).step event).2 ≠ .error (.noEpisode store)
  /-- No number is given twice. -/
  numbered : ((run config events).disk.log.records.map (·.sequence)).Nodup

/-- Storage protection is consistent over every run in which an evaluation that writes a line to the
log is completed. -/
theorem protects_of_runCompletes (config : StorageConfig) (events : List StorageEvent)
    (hcompletes : (initial config).RunCompletes events) : Protects config events := by
  have hstep (before : List StorageEvent) (event : StorageEvent) (later : List StorageEvent)
      (hevents : events = before ++ event :: later) :
      (run config before).Consistent ∧ (run config before).monitor.config = config ∧
        (run config before).RunCompletes (event :: later) := by
    rw [hevents, runCompletes_append] at hcompletes
    exact ⟨(consistent_initial config).runFrom hcompletes.1,
      (consistent_initial config).config_runFrom hcompletes.1, hcompletes.2⟩
  refine ⟨?_, ?_, ?_, ?_, ((consistent_initial config).runFrom hcompletes).sound.numbered.nodup⟩
  · intro before event later hevents _ haccepting
    obtain ⟨hconsistent, hconfig, hnext⟩ := hstep before event later hevents
    have hwithin := (hconsistent.outcome_step hnext.1).within haccepting
    rwa [hconfig] at hwithin
  · intro before event later rest hevents hok store resource hbefore hafter hlater
    obtain ⟨hconsistent, hconfig, hnext⟩ := hstep before event (later ++ rest) hevents
    have houtcome := hconsistent.outcome_step hnext.1
    have hrun : run config (before ++ event :: later) =
        ((run config before).step event).1.runFrom later := by
      rw [run, List.foldl_append]
      rfl
    have hheld := (hok ▸ houtcome).held_of_became hbefore hafter
    have hlast := hheld.runFrom (houtcome.consistent hconsistent)
      (runCompletes_append.mp hnext.2).1 (by rw [houtcome.config, hconfig]; exact hlater)
    rw [hrun]
    exact ⟨hlast.memory, hlast.refused⟩
  · intro before later hevents state hstate
    rw [hevents, runCompletes_append] at hcompletes
    have hconsistent := (consistent_initial config).runFrom hcompletes.1
    exact ⟨validatePersistentState_eq_ok.mpr (hconsistent.file state hstate),
      hconsistent.load_eq.trans hstate⟩
  · intro before event later hevents store
    obtain ⟨hconsistent, -, hnext⟩ := hstep before event later hevents
    exact (hconsistent.outcome_step hnext.1).ne_noEpisode store

end StorageWorld

namespace StorageSample

/-- Stamps of one width in UTC. -/
local instance stamps : Stamps where
  isAfter left right := decide (right.toList < left.toList)

def budget : StorageBudgetConfig where
  warningBytes := 100
  hardBytes := 200
  warningFreeBytes := 20
  minimumFreeBytes := 10
  minimumFreeBytes_le := by decide

def config : StorageConfig where
  dataDir := budget
  stateDir := budget

def walk (sampledAt : String) (dataUsage : Nat) : Except String StorageMeasurement :=
  .ok
    { sampledAt := sampledAt
      completionCount := 0
      dataUsage := dataUsage
      stateUsage := 1
      dataAvailable := 4000000000
      stateAvailable := 4000000000 }

def done : Fates := ⟨.done, .done, .done⟩

/-- The data directory is full at the start and empty later. -/
def events : List StorageEvent :=
  [.restart 0 "2026-01-01T00:00:00.000Z" (walk "2026-01-01T00:00:00.000Z" 250) done,
   .sample (walk "2026-01-01T00:01:00.000Z" 190) done,
   .sample (walk "2026-01-01T00:02:00.000Z" 5) ⟨.refused, .done, .done⟩]

/-- The record of a full data directory is written and the state file is not. -/
def failing : List StorageEvent :=
  [.restart 0 "2026-01-01T00:00:00.000Z" (walk "2026-01-01T00:00:00.000Z" 250) ⟨.done, .done, .refused⟩,
   .sample (walk "2026-01-01T00:01:00.000Z" 250) done]

theorem protects_events :
    (StorageWorld.run config events).monitor.HardThrough .dataDir .allocatedBytes ∧
      StorageWorld.Protects config events := by
  refine ⟨⟨by decide, by decide⟩, StorageWorld.protects_of_runCompletes config events ⟨?_, ?_, ?_, trivial⟩⟩
  · rintro _ ⟨⟩
    exact ⟨by decide, by decide, by decide, by decide⟩
  · rintro _ ⟨⟩
    exact ⟨by decide, by decide, by decide, by decide⟩
  · rintro _ ⟨⟩
    exact ⟨by decide, by decide, by decide, by decide⟩

theorem not_protects_failing : ¬StorageWorld.Protects config failing := by
  intro h
  exact absurd h.numbered (by decide)

end StorageSample

end Tally.Storage
