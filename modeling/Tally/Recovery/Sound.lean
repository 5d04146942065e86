import Tally.Recovery.Plan

/-!
# Soundness of the recovery plan

A plan lists the durable rows in order, launches only what no unit can still be running, relaunches
only under an automatic policy and an observed trigger, and takes over every unit whose execution
has no witness (`SoundPlan`, `recover_sound`). An acknowledged retry keeps its row in the queue unless
the unit of the witnessed attempt is still loaded (`acknowledged_retry_survives_iff`).
-/

namespace Tally.Recovery

open UuidText

variable {Uuid : Type} [LinearOrder Uuid] [UuidText Uuid]

/-! ## Reading a plan by identity -/

/-- The actions of a plan that are about an identity. -/
def RecoveryPlan.actionsFor (plan : RecoveryPlan Uuid) (identity : RecoveryIdentity Uuid) :
    List (RecoveryAction Uuid) :=
  plan.actions.filter fun action => action.identity = identity

/-- The row is the durable one, with another attempt, epoch and predecessor. -/
def Restores (event : DurableEnqueueEvent Uuid) (row : RecoveryRow Uuid) : Prop :=
  row.guardrailDepth = event.guardrailDepth ∧
    row.row = { event.row with
      attempt := row.row.attempt
      leaseEpoch := row.row.leaseEpoch
      usagePredecessor := row.row.usagePredecessor }

namespace RowPlan

variable {facts : RecoveryFacts Uuid} {policy : RecoveryPolicy} {event : DurableEnqueueEvent Uuid}
  {latest : Option WitnessRecord} {unit : LocalUnitFact} {row : RecoveryRow Uuid}
  {action : Option (RecoveryAction Uuid)}

theorem restores (h : RowPlan facts policy event latest unit row action) : Restores event row := by
  cases h with
  | present h => cases h <;> exact ⟨rfl, rfl⟩
  | queue | retry => exact ⟨rfl, rfl⟩
  | witnessed _ _ _ h =>
    cases h with
    | rePresent next hnext => exact ⟨rfl, by rw [hnext]⟩
    | _ => exact ⟨rfl, rfl⟩

theorem uuid_eq (h : RowPlan facts policy event latest unit row action) :
    row.row.uuid = event.row.uuid := by
  rw [h.restores.2]

theorem identity_eq (h : RowPlan facts policy event latest unit row action) :
    ∀ a ∈ action.toList, a.identity = .task event.row.uuid := by
  intro a ha
  rw [Option.mem_toList] at ha
  cases h with
  | present h => cases h <;> cases ha <;> rfl
  | queue | retry => cases ha; rfl
  | witnessed _ _ _ h =>
    cases h with
    | terminal => cases ha
    | rePresent next hnext => cases ha; subst hnext; rfl
    | _ => cases ha; rfl

end RowPlan

omit [LinearOrder Uuid] [UuidText Uuid] in
theorem RowlessPlan.identity_eq {jobUuid : Uuid} {unit : LocalUnitFact}
    {action : Option (RecoveryAction Uuid)} (h : RowlessPlan jobUuid unit action) :
    ∀ a ∈ action.toList, a.identity = .job jobUuid := by
  intro a ha
  rw [Option.mem_toList] at ha
  cases h <;> cases ha <;> rfl

namespace Rounds

variable {facts : RecoveryFacts Uuid} {policy : RecoveryPolicy} {plan : RecoveryPlan Uuid}
  {outs : List (RecoveryRow Uuid × Option (RecoveryAction Uuid))}
  {rowless : List (Uuid × Option (RecoveryAction Uuid))}

theorem uuids_eq (h : Rounds facts policy plan outs rowless) :
    outs.map (·.1.row.uuid) = facts.durable.events.map (·.row.uuid) :=
  map_key_of_rounds h.rounds fun _ _ ⟨_, _, hplan⟩ => hplan.uuid_eq

theorem uuids_nodup (h : Rounds facts policy plan outs rowless) :
    (outs.map (·.1.row.uuid)).Nodup := by
  rw [h.uuids_eq]
  exact facts.durable.sorted.imp ne_of_lt

theorem actionsFor_eq (h : Rounds facts policy plan outs rowless)
    (identity : RecoveryIdentity Uuid) :
    plan.actionsFor identity =
      (outs.filter fun out => .task out.1.row.uuid = identity).flatMap (·.2.toList) ++
        (rowless.filter fun out => .job out.1 = identity).flatMap (·.2.toList) := by
  unfold RecoveryPlan.actionsFor
  rw [h.actions_eq, List.filter_append]
  congr 1
  · apply filter_flatMap_key
    intro out hout action haction
    obtain ⟨event, _, unit, _, hplan⟩ := exists_item h.rounds hout
    rw [hplan.uuid_eq]
    exact hplan.identity_eq action haction
  · apply filter_flatMap_key
    intro out hout action haction
    obtain ⟨entry, _, huuid, _, hplan⟩ := exists_item h.jobs hout
    rw [huuid]
    exact hplan.identity_eq action haction

/-- The plan says about a row what the round of its event says. -/
theorem of_event (h : Rounds facts policy plan outs rowless) {event : DurableEnqueueEvent Uuid}
    (hevent : event ∈ facts.durable.events) :
    ∃ row action unit, Checked facts event unit ∧
      RowPlan facts policy event (latestWitness facts event.row.uuid) unit row action ∧
      plan.rows.filter (fun row => row.row.uuid = event.row.uuid) = [row] ∧
      plan.actionsFor (.task event.row.uuid) = action.toList := by
  obtain ⟨⟨row, action⟩, hout, unit, hchecked, hplan⟩ := exists_round h.rounds hevent
  have huuid : row.row.uuid = event.row.uuid := hplan.uuid_eq
  have hone := filter_key (fun out => out.1.row.uuid) h.uuids_nodup hout
  dsimp only at hone
  rw [huuid] at hone
  refine ⟨row, action, unit, hchecked, hplan, ?_, ?_⟩
  · rw [h.rows_eq, List.filter_map]
    exact congrArg (List.map Prod.fst) hone
  · have hjobs : (rowless.filter fun out => .job out.1 = RecoveryIdentity.task event.row.uuid) = [] := by
      simp
    rw [h.actionsFor_eq, hjobs]
    simp only [RecoveryIdentity.task.injEq, hone, List.flatMap_cons, List.flatMap_nil,
      List.append_nil]

theorem of_row (h : Rounds facts policy plan outs rowless) {row : RecoveryRow Uuid}
    (hrow : row ∈ plan.rows) :
    ∃ event ∈ facts.durable.events, ∃ unit action, row.row.uuid = event.row.uuid ∧
      Checked facts event unit ∧
      RowPlan facts policy event (latestWitness facts event.row.uuid) unit row action ∧
      plan.actionsFor (.task event.row.uuid) = action.toList := by
  rw [h.rows_eq] at hrow
  obtain ⟨out, hout, rfl⟩ := List.mem_map.mp hrow
  obtain ⟨event, hevent, _, _, hround⟩ := exists_item h.rounds hout
  obtain ⟨planned, action, unit, hchecked, hplan, hrows, hactions⟩ := h.of_event hevent
  have hmem : out.1 ∈ plan.rows.filter fun row => row.row.uuid = event.row.uuid := by
    rw [List.mem_filter, h.rows_eq]
    exact ⟨hrow, decide_eq_true hround.uuid_eq⟩
  rw [hrows, List.mem_singleton] at hmem
  exact ⟨event, hevent, unit, action, hround.uuid_eq, hchecked, hmem ▸ hplan, hactions⟩

theorem of_unit (h : Rounds facts policy plan outs rowless) {uuid : Uuid} {unit : LocalUnitFact}
    (hunit : facts.units.get? uuid = some unit) :
    ∃ event row action, event.row.uuid = uuid ∧ Checked facts event unit ∧
      RowPlan facts policy event (latestWitness facts uuid) unit row action ∧
      plan.actionsFor (.task uuid) = action.toList := by
  obtain ⟨event, hevent, rfl⟩ := List.mem_map.mp (h.rowed uuid unit hunit)
  obtain ⟨row, action, found, hchecked, hplan, _, hactions⟩ := h.of_event hevent
  cases hunit.symm.trans hchecked.fact
  exact ⟨event, row, action, rfl, hchecked, hplan, hactions⟩

/-- The plan says about a unit without a row what its round says. -/
theorem of_job (h : Rounds facts policy plan outs rowless) {jobUuid : Uuid} {unit : LocalUnitFact}
    (hunit : facts.rowlessUnits.get? jobUuid = some unit) :
    ∃ action, validateUnitFactForUuid jobUuid unit facts.currentLeaseEpoch = .ok () ∧
      RowlessPlan jobUuid unit action ∧ plan.actionsFor (.job jobUuid) = action.toList := by
  obtain ⟨⟨uuid, action⟩, hout, huuid, hfact, hplan⟩ :=
    exists_round h.jobs (facts.rowlessUnits.mem_entries_iff.mpr hunit)
  cases huuid
  have hkeys : (rowless.map Prod.fst).Nodup := by
    rw [map_key_of_rounds h.jobs fun _ _ hround => hround.1]
    exact facts.rowlessUnits.nodup
  have hone := filter_key Prod.fst hkeys hout
  refine ⟨action, hfact, hplan, ?_⟩
  have hrows : (outs.filter fun out => .task out.1.row.uuid = RecoveryIdentity.job jobUuid) = [] := by
    simp
  rw [h.actionsFor_eq, hrows]
  simp only [RecoveryIdentity.job.injEq, hone, List.flatMap_cons, List.flatMap_nil,
    List.append_nil, List.nil_append]

/-- Every action comes from a round. -/
theorem of_action (h : Rounds facts policy plan outs rowless) {action : RecoveryAction Uuid}
    (haction : action ∈ plan.actions) :
    (∃ event ∈ facts.durable.events, ∃ row unit, Checked facts event unit ∧
      RowPlan facts policy event (latestWitness facts event.row.uuid) unit row (some action)) ∨
    ∃ jobUuid unit, RowlessPlan jobUuid unit (some action) := by
  rw [h.actions_eq, List.mem_append, List.mem_flatMap, List.mem_flatMap] at haction
  rcases haction with ⟨⟨row, planned⟩, hout, haction⟩ | ⟨⟨uuid, planned⟩, hout, haction⟩
  · obtain ⟨event, hevent, unit, hchecked, hplan⟩ := exists_item h.rounds hout
    rw [Option.mem_toList] at haction
    cases haction
    exact .inl ⟨event, hevent, row, unit, hchecked, hplan⟩
  · obtain ⟨⟨jobUuid, unit⟩, _, _, _, hplan⟩ := exists_item h.jobs hout
    rw [Option.mem_toList] at haction
    cases haction
    exact .inr ⟨jobUuid, unit, hplan⟩

end Rounds

/-! ## Soundness -/

/-- The row and attempt that an action puts in the queue. -/
def RecoveryAction.launch? : RecoveryAction Uuid → Option (Uuid × Nat)
  | queueExisting taskUuid attempt _ => some (taskUuid, attempt)
  | rePresent row _ _ _ _ _ => some (row.uuid, row.attempt)
  | _ => none

/-- The attempt that comes next for a durable row. -/
def nextAttempt (row : RowSeed Uuid) (latest : Option WitnessRecord) : Nat :=
  match latest with
  | none => row.attempt
  | some record => record.attempt + 1

/-- The actions take over the running unit, under its own attempt and epoch. -/
def Adopts (identity : RecoveryIdentity Uuid) (unit : LocalUnitFact)
    (actions : List (RecoveryAction Uuid)) : Prop :=
  ∃ invocationId attempt leaseEpoch laborClass,
    unit.invocationId = some invocationId ∧ unit.attempt = some attempt ∧
    unit.leaseEpoch = some leaseEpoch ∧
    actions = [.adoptRunning identity unit.unit invocationId attempt leaseEpoch laborClass]

/-- The actions reconcile the exit of the unit, under its own attempt and epoch. -/
def Reconciles (identity : RecoveryIdentity Uuid) (unit : LocalUnitFact)
    (actions : List (RecoveryAction Uuid)) : Prop :=
  ∃ record laborClass, unit.exitRecord = some record ∧ unit.attempt = some record.attempt ∧
    unit.leaseEpoch = some record.leaseEpoch ∧
    actions = [.reconcileExit identity record laborClass]

structure SoundPlan (facts : RecoveryFacts Uuid) (policy : RecoveryPolicy)
    (plan : RecoveryPlan Uuid) : Prop where
  /-- The rows are the durable ones, once each and in the order of their UUIDs. -/
  restores : List.Forall₂ Restores facts.durable.events plan.rows
  in_order : (plan.rows.map (·.row.uuid)).Pairwise (· < ·)
  one_action : ∀ row ∈ plan.rows, (plan.actionsFor (.task row.row.uuid)).length ≤ 1
  /-- Only an idle row is launched, with the attempt that comes next. -/
  launch_idle : ∀ action ∈ plan.actions, ∀ uuid attempt, action.launch? = some (uuid, attempt) →
    ∃ event ∈ facts.durable.events, event.row.uuid = uuid ∧
      (∃ unit, facts.units.get? uuid = some unit ∧ Idle (latestWitness facts uuid) unit) ∧
      attempt = nextAttempt event.row (latestWitness facts uuid)
  /-- A row is re-presented only on an observed trigger of an automatic policy. -/
  rePresent_eligible : ∀ row trigger seq previousAttempt previousEpoch predecessor,
    .rePresent row trigger seq previousAttempt previousEpoch predecessor ∈ plan.actions →
    ∃ record, latestWitness facts row.uuid = some record ∧
      retryTrigger record.verdict = some trigger ∧
      retryDisposition record.verdict policy.retry = .automatic trigger ∧
      triggerObserved row facts.triggers trigger = true ∧
      record.attempt + 1 ≤ policy.maxAttempts
  /-- Running units are adopted, and exits without a witness are reconciled. -/
  adopts : ∀ uuid unit, facts.units.get? uuid = some unit → unit.state = .running →
    Adopts (.task uuid) unit (plan.actionsFor (.task uuid))
  adopts_rowless : ∀ uuid unit, facts.rowlessUnits.get? uuid = some unit → unit.state = .running →
    Adopts (.job uuid) unit (plan.actionsFor (.job uuid))
  reconciles : ∀ uuid unit, facts.units.get? uuid = some unit → unit.state = .exited →
    ¬ Witnessed (latestWitness facts uuid) unit →
    Reconciles (.task uuid) unit (plan.actionsFor (.task uuid))
  reconciles_rowless : ∀ uuid unit, facts.rowlessUnits.get? uuid = some unit →
    unit.state = .exited → Reconciles (.job uuid) unit (plan.actionsFor (.job uuid))
  /-- No row falls behind its newest record. -/
  no_regress : ∀ row ∈ plan.rows, ∀ record, latestWitness facts row.row.uuid = some record →
    record.attempt ≤ row.row.attempt ∧ record.leaseEpoch ≤ row.row.leaseEpoch

theorem Idle.not_running {latest : Option WitnessRecord} {unit : LocalUnitFact}
    (h : Idle latest unit) : unit.state ≠ .running := by
  rcases h with h | ⟨h, _⟩ <;> rw [h] <;> decide

omit [LinearOrder Uuid] in
theorem validateUnitFactNamed_exited {uuid : Uuid} {expectedUnit : String} {unit : LocalUnitFact}
    {currentEpoch : Nat} (h : validateUnitFactNamed uuid expectedUnit unit currentEpoch = .ok ())
    (hstate : unit.state = .exited) {record : UnitExitRecord}
    (hrecord : unit.exitRecord = some record) :
    unit.attempt = some record.attempt ∧ unit.leaseEpoch = some record.leaseEpoch := by
  simp only [validateUnitFactNamed, ensure_bind_ok_iff, hstate, hrecord,
    orError_bind_ok_iff, Option.some.injEq, exists_eq_left'] at h
  obtain ⟨-, -, h⟩ := h
  split at h
  · cases h
  · rw [ensure_eq_ok] at h
    exact ⟨h.2.1, h.2.2.1⟩

namespace RowPlan

variable {facts : RecoveryFacts Uuid} {policy : RecoveryPolicy} {event : DurableEnqueueEvent Uuid}
  {latest : Option WitnessRecord} {unit : LocalUnitFact} {row : RecoveryRow Uuid}
  {action : Option (RecoveryAction Uuid)}

theorem launch_idle {launched : RecoveryAction Uuid} {uuid : Uuid} {attempt : Nat}
    (h : RowPlan facts policy event latest unit row (some launched))
    (hlaunch : launched.launch? = some (uuid, attempt)) :
    event.row.uuid = uuid ∧ Idle latest unit ∧ attempt = nextAttempt event.row latest := by
  cases h with
  | present h => cases h <;> cases hlaunch
  | queue hlatest hidle =>
    cases hlaunch
    exact ⟨rfl, hidle, by rw [hlatest]; rfl⟩
  | retry hlatest hidle =>
    cases hlaunch
    exact ⟨rfl, hidle, by rw [hlatest]; rfl⟩
  | witnessed hlatest hidle _ h =>
    cases h with
    | rePresent next hnext =>
      cases hlaunch
      subst hnext
      exact ⟨rfl, hidle, by rw [hlatest]; rfl⟩
    | _ => cases hlaunch

theorem adopts (h : RowPlan facts policy event latest unit row action)
    (hstate : unit.state = .running) : Adopts (.task event.row.uuid) unit action.toList := by
  cases h with
  | present h =>
    cases h with
    | adopt _ hattempt hepoch hinvocation =>
      exact ⟨_, _, _, _, hinvocation, hattempt, hepoch, rfl⟩
    | collect _ hexited | reconcile hexited =>
      rw [hexited] at hstate
      cases hstate
  | queue _ hidle | retry _ hidle | witnessed _ hidle => exact absurd hstate hidle.not_running

theorem reconciles (h : RowPlan facts policy event latest unit row action)
    (hunit : validateUnitFact event.row unit facts.currentLeaseEpoch = .ok ())
    (hstate : unit.state = .exited) (hwitness : ¬ Witnessed latest unit) :
    Reconciles (.task event.row.uuid) unit action.toList := by
  have hbusy : ¬ Idle latest unit := by
    rintro (habsent | ⟨_, _, hwitnessed⟩)
    · rw [hstate] at habsent
      cases habsent
    · exact hwitness hwitnessed
  cases h with
  | present h =>
    cases h with
    | reconcile _ _ _ hrecord =>
      obtain ⟨hattempt, hepoch⟩ := validateUnitFactNamed_exited hunit hstate hrecord
      exact ⟨_, _, hrecord, hattempt, hepoch, rfl⟩
    | adopt hrunning =>
      rw [hrunning] at hstate
      cases hstate
    | collect hlatest _ _ hattempt => exact absurd ⟨_, hlatest, hattempt⟩ hwitness
  | queue _ hidle | retry _ hidle | witnessed _ hidle => exact absurd hidle hbusy

theorem no_regress (h : RowPlan facts policy event latest unit row action)
    {record : WitnessRecord} (hlatest : latest = some record)
    (hepoch : record.leaseEpoch ≤ facts.currentLeaseEpoch) :
    record.attempt ≤ row.row.attempt ∧ record.leaseEpoch ≤ row.row.leaseEpoch := by
  subst hlatest
  cases h with
  | present h =>
    cases h with
    | collect hlatest =>
      cases hlatest
      exact ⟨le_rfl, le_rfl⟩
    | adopt _ _ _ _ hnext | reconcile _ _ _ _ hnext =>
      cases hnext with
      | first hlatest => cases hlatest
      | again hlatest hattempt hepoch =>
        cases hlatest
        exact ⟨by rw [hattempt]; exact Nat.le_succ _, hepoch⟩
  | queue hlatest => cases hlatest
  | retry hlatest =>
    cases hlatest
    exact ⟨Nat.le_succ _, hepoch⟩
  | witnessed hlatest _ _ h =>
    cases hlatest
    cases h with
    | rePresent next hnext =>
      subst hnext
      exact ⟨Nat.le_succ _, hepoch⟩
    | _ => exact ⟨le_rfl, le_rfl⟩

end RowPlan

theorem recover_sound {facts : RecoveryFacts Uuid} {policy : RecoveryPolicy}
    {plan : RecoveryPlan Uuid} (h : recover facts policy = .ok plan) :
    SoundPlan facts policy plan := by
  obtain ⟨outs, rowless, hrounds⟩ := recover_spec h
  have hrestores : List.Forall₂ Restores facts.durable.events plan.rows := by
    rw [hrounds.rows_eq, List.forall₂_map_right_iff]
    exact hrounds.rounds.imp fun _ _ ⟨_, _, hplan⟩ => hplan.restores
  have huuids : plan.rows.map (·.row.uuid) = facts.durable.events.map (·.row.uuid) :=
    map_key_of_rounds hrestores fun _ _ hrow => by rw [hrow.2]
  refine
    { restores := hrestores
      in_order := huuids ▸ facts.durable.sorted
      one_action := ?_
      launch_idle := ?_
      rePresent_eligible := ?_
      adopts := ?_
      adopts_rowless := ?_
      reconciles := ?_
      reconciles_rowless := ?_
      no_regress := ?_ }
  · intro row hrow
    obtain ⟨_, _, _, action, huuid, _, _, hactions⟩ := hrounds.of_row hrow
    rw [huuid, hactions]
    cases action <;> simp
  · intro action haction uuid attempt hlaunch
    rcases hrounds.of_action haction with ⟨event, hmem, row, unit, hchecked, hplan⟩ | ⟨_, _, hplan⟩
    · obtain ⟨rfl, hidle, hattempt⟩ := hplan.launch_idle hlaunch
      exact ⟨event, hmem, rfl, ⟨unit, hchecked.fact, hidle⟩, hattempt⟩
    · cases hplan <;> cases hlaunch
  · intro row trigger seq previousAttempt previousEpoch predecessor haction
    rcases hrounds.of_action haction with ⟨event, _, _, _, _, hplan⟩ | ⟨_, _, hplan⟩
    · cases hplan with
      | present hplan => cases hplan
      | witnessed hlatest _ _ hplan =>
        cases hplan with
        | rePresent _ hnext htrigger hautomatic hobserved hattempts =>
          subst hnext
          exact ⟨_, hlatest, htrigger, hautomatic, hobserved, hattempts⟩
    · cases hplan
  · intro uuid unit hunit hstate
    obtain ⟨_, _, _, rfl, _, hplan, hactions⟩ := hrounds.of_unit hunit
    rw [hactions]
    exact hplan.adopts hstate
  · intro uuid unit hunit hstate
    obtain ⟨_, _, hplan, hactions⟩ := hrounds.of_job hunit
    rw [hactions]
    cases hplan with
    | adopt _ hattempt hepoch hinvocation =>
      exact ⟨_, _, _, _, hinvocation, hattempt, hepoch, rfl⟩
    | absent hother | reconcile hother =>
      rw [hother] at hstate
      cases hstate
  · intro uuid unit hunit hstate hwitness
    obtain ⟨_, _, _, rfl, hchecked, hplan, hactions⟩ := hrounds.of_unit hunit
    rw [hactions]
    exact hplan.reconciles hchecked.unit hstate hwitness
  · intro uuid unit hunit hstate
    obtain ⟨_, hfact, hplan, hactions⟩ := hrounds.of_job hunit
    rw [hactions]
    cases hplan with
    | reconcile _ hrecord =>
      obtain ⟨hattempt, hepoch⟩ := validateUnitFactNamed_exited hfact hstate hrecord
      exact ⟨_, _, hrecord, hattempt, hepoch, rfl⟩
    | absent hother | adopt hother =>
      rw [hother] at hstate
      cases hstate
  · intro row hrow record hlatest
    obtain ⟨event, _, _, _, huuid, hchecked, hplan, _⟩ := hrounds.of_row hrow
    rw [huuid] at hlatest
    exact hplan.no_regress hlatest (hchecked.latest hlatest).2

def sampleUuid (digit : Fin 16) : Nibbles := ⟨List.replicate 32 digit, List.length_replicate⟩

def sampleRow (digit : Fin 16) : RowSeed Nibbles where
  uuid := sampleUuid digit
  pools := ["gpu"]
  executor := none
  resumedFrom := none
  dedupKey := none
  payloadHash := none
  briefHash := none
  orchestration := none
  usagePredecessor := none
  leaseEpoch := 1
  attempt := 1
  drv := none

def sampleEvent (digit : Fin 16) (retries : List DurableRetry) : DurableEnqueueEvent Nibbles where
  eventId := sampleUuid digit
  guardrailDepth := 0
  reuse := none
  retries
  row := sampleRow digit

def sampleRecord (digit : Fin 16) (verdict : Verdict) : WitnessRecord where
  taskUuid := some (render (sampleUuid digit))
  verdict
  exitCode := 1
  artifactContentHash := none
  storePaths := none
  drv := none
  attempt := 1
  leaseEpoch := 1
  dedupKey := none
  payloadHash := none
  briefHash := none
  orchestration := none
  laborClass := .fresh
  pools := ["gpu"]
  executor := none
  seq := 1

def sampleRunning (digit : Fin 16) : LocalUnitFact where
  unit := (sampleRow digit).unitName
  loaded := true
  state := .running
  invocationId := some "1f"
  attempt := some 1
  leaseEpoch := some 1
  exitRecord := none

def sampleExited (digit : Fin 16) : LocalUnitFact where
  unit := (sampleRow digit).unitName
  loaded := true
  state := .exited
  invocationId := some "2e"
  attempt := some 1
  leaseEpoch := some 1
  exitRecord := some {
    schemaVersion := unitExitSchemaVersion
    unit := (sampleRow digit).unitName
    invocationId := "2e"
    attempt := 1
    leaseEpoch := 1
    serviceResult := "exit-code"
    exitCode := some "exited"
    exitStatus := some "1" }

/-- Three rows and a job without one, at the second epoch: a unit is running, a pool has returned,
a unit has exited, and the job is running. -/
def sampleFacts : RecoveryFacts Nibbles where
  durable := {
    events := [sampleEvent 1 [], sampleEvent 2 [], sampleEvent 3 []]
    witness := [sampleRecord 2 .poolVanished]
    sorted := by decide +kernel
    numbered := by
      intro index record h
      match index with
      | 0 => cases h; rfl
      | _ + 1 => cases h }
  currentLeaseEpoch := 2
  units := (((∅ : Dict Nibbles LocalUnitFact).insert (sampleUuid 1) (sampleRunning 1)).insert
    (sampleUuid 2) (.absent (sampleRow 2).unitName)).insert (sampleUuid 3) (sampleExited 3)
  rowlessUnits := (∅ : Dict Nibbles LocalUnitFact).insert (sampleUuid 4) (sampleRunning 4)
  triggers := { confirmedPoolReturns := {"gpu"}, resourceReturns := ∅, boundedRequeues := ∅ }
  advisoryReturnAttestations := []

def samplePolicy : RecoveryPolicy where
  retry := { autoPoolReturn := true, autoResourceReturn := false, autoBoundedRequeue := false }
  maxAttempts := 3

theorem recover_sound_mixed :
    ∃ plan, recover sampleFacts samplePolicy = .ok plan ∧ plan.actions.length = 4 ∧
      SoundPlan sampleFacts samplePolicy plan := by
  have hok : (match recover sampleFacts samplePolicy with
    | .ok plan => decide (plan.actions.length = 4)
    | .error _ => false) = true := by
    decide +kernel
  split at hok
  next plan hplan => exact ⟨plan, hplan, of_decide_eq_true hok, recover_sound hplan⟩
  · cases hok

/-! ## Acknowledged retries -/

/-- What the daemon does for an action on a row: whose row it is, whether its unit is taken over, and
whether it needs a lease. -/
def taskRecoveryAction : RecoveryAction Uuid → Option (Uuid × Bool × Bool)
  | .queueExisting taskUuid _ _ => some (taskUuid, false, true)
  | .rePresent row _ _ _ _ _ => some (row.uuid, false, true)
  | .adoptRunning (.task uuid) _ _ _ _ _ => some (uuid, true, true)
  | .reconcileExit (.task uuid) _ _ => some (uuid, true, false)
  | _ => none

/-- The row is still to be worked on, and the daemon has something to do for it. -/
def KeepsWork (plan : RecoveryPlan Uuid) (uuid : Uuid) : Prop :=
  (∃ row ∈ plan.rows, row.row.uuid = uuid ∧
    row.state ∈ [.pending, .adoptedRunning, .awaitingReconciliation]) ∧
  ∃ action ∈ plan.actions, ∃ adopted needsLease,
    taskRecoveryAction action = some (uuid, adopted, needsLease)

omit [LinearOrder Uuid] [UuidText Uuid] in
theorem identity_of_taskRecoveryAction {action : RecoveryAction Uuid} {uuid : Uuid}
    {adopted needsLease : Bool} (h : taskRecoveryAction action = some (uuid, adopted, needsLease)) :
    action.identity = .task uuid := by
  unfold taskRecoveryAction at h
  split at h <;> cases h <;> rfl

omit [UuidText Uuid] in
/-- Of a plan with one row for a task, and the actions for it. -/
theorem keepsWork_iff {plan : RecoveryPlan Uuid} {uuid : Uuid} {row : RecoveryRow Uuid}
    {action : Option (RecoveryAction Uuid)}
    (hrows : plan.rows.filter (fun row => row.row.uuid = uuid) = [row])
    (hactions : plan.actionsFor (.task uuid) = action.toList) :
    KeepsWork plan uuid ↔
      row.state ∈ [.pending, .adoptedRunning, .awaitingReconciliation] ∧
        ∃ a, action = some a ∧ ∃ adopted needsLease,
          taskRecoveryAction a = some (uuid, adopted, needsLease) := by
  have hrow : ∀ other, other ∈ plan.rows ∧ other.row.uuid = uuid ↔ other = row := by
    intro other
    rw [← List.mem_singleton (a := other), ← hrows, List.mem_filter, decide_eq_true_iff]
  have haction : ∀ a, a ∈ plan.actions ∧ a.identity = .task uuid ↔ action = some a := by
    intro a
    rw [← Option.mem_toList, ← hactions, RecoveryPlan.actionsFor, List.mem_filter,
      decide_eq_true_iff]
  constructor
  · rintro ⟨⟨other, hother, huuid, hstate⟩, a, ha, adopted, needsLease, hexecutable⟩
    rw [(hrow other).mp ⟨hother, huuid⟩] at hstate
    exact ⟨hstate, a, (haction a).mp ⟨ha, identity_of_taskRecoveryAction hexecutable⟩, adopted,
      needsLease, hexecutable⟩
  · rintro ⟨hstate, a, ha, adopted, needsLease, hexecutable⟩
    obtain ⟨hmem, huuid⟩ := (hrow row).mpr rfl
    exact ⟨⟨row, hmem, huuid, hstate⟩, a, ((haction a).mpr ha).1, adopted, needsLease, hexecutable⟩

omit [LinearOrder Uuid] [UuidText Uuid] in
theorem hasExplicitRetry_of_mem {event : DurableEnqueueEvent Uuid} {record : WitnessRecord}
    {retry : DurableRetry} (hretry : retry ∈ event.retries)
    (hattempt : retry.attempt = record.attempt + 1) (hseq : retry.previousWitnessSeq = record.seq)
    (hmax : record.attempt + 1 ≤ u32Max) : hasExplicitRetry event (some record) = true := by
  refine List.any_eq_true.mpr ⟨retry, hretry, decide_eq_true ⟨?_, hseq⟩⟩
  rw [hattempt, saturatingSucc_eq hmax]

/-- An acknowledged retry is kept unless the unit of the witnessed attempt is still loaded. -/
theorem acknowledged_retry_survives_iff {facts : RecoveryFacts Uuid} {policy : RecoveryPolicy}
    {plan : RecoveryPlan Uuid} {event : DurableEnqueueEvent Uuid} {latest : WitnessRecord}
    {retry : DurableRetry} {unit : LocalUnitFact} (h : recover facts policy = .ok plan)
    (hevent : event ∈ facts.durable.events)
    (hlatest : latestWitness facts event.row.uuid = some latest) (hretry : retry ∈ event.retries)
    (hattempt : retry.attempt = latest.attempt + 1)
    (hseq : retry.previousWitnessSeq = latest.seq)
    (hunit : facts.units.get? event.row.uuid = some unit) :
    KeepsWork plan event.row.uuid ↔
      ¬ (unit.state = .exited ∧ unit.loaded = true ∧ unit.attempt = some latest.attempt) := by
  obtain ⟨outs, rowless, hrounds⟩ := recover_spec h
  obtain ⟨row, action, found, hchecked, hplan, hrows, hactions⟩ := hrounds.of_event hevent
  cases hunit.symm.trans hchecked.fact
  have hexplicit := hasExplicitRetry_of_mem hretry hattempt hseq (hchecked.latest hlatest).1
  rw [hlatest] at hplan
  rw [keepsWork_iff hrows hactions]
  cases hplan with
  | present hplan =>
    cases hplan with
    | collect hrecord hstate hloaded hcovered =>
      cases hrecord
      simp [hstate, hloaded, hcovered]
    | adopt hstate =>
      simp [hstate, taskRecoveryAction]
    | reconcile hstate hran _ _ hnext =>
      cases hnext with
      | first hnone => cases hnone
      | again hrecord hsucc =>
        cases hrecord
        have hother : unit.attempt ≠ some latest.attempt := by
          rw [hran, hsucc]
          simp
        simp [hother, taskRecoveryAction]
  | queue hnone => cases hnone
  | retry _ hidle =>
    have hunloaded : ¬ (unit.state = .exited ∧ unit.loaded = true) := by
      rintro ⟨hstate, hloaded⟩
      rcases hidle with habsent | ⟨_, hunloaded, _⟩
      · rw [hstate] at habsent
        cases habsent
      · rw [hloaded] at hunloaded
        cases hunloaded
    simp only [taskRecoveryAction]
    refine iff_of_true ⟨by simp, _, rfl, _, _, rfl⟩ fun hcollect => ?_
    exact hunloaded ⟨hcollect.1, hcollect.2.1⟩
  | witnessed _ _ hno => exact absurd hexplicit (by rw [hno]; exact Bool.false_ne_true)

/-- A row whose first attempt failed and whose retry was acknowledged. -/
def retriedFacts (unit : LocalUnitFact) : RecoveryFacts Nibbles where
  durable := {
    events := [sampleEvent 3 [{ attempt := 2, previousWitnessSeq := 1 }]]
    witness := [sampleRecord 3 .failed]
    sorted := List.pairwise_singleton _ _
    numbered := by
      intro index record h
      match index with
      | 0 => cases h; rfl
      | _ + 1 => cases h }
  currentLeaseEpoch := 2
  units := (∅ : Dict Nibbles LocalUnitFact).insert (sampleUuid 3) unit
  rowlessUnits := ∅
  triggers := { confirmedPoolReturns := ∅, resourceReturns := ∅, boundedRequeues := ∅ }
  advisoryReturnAttestations := []

theorem latestWitness_retriedFacts (unit : LocalUnitFact) :
    latestWitness (retriedFacts unit) (sampleUuid 3) = some (sampleRecord 3 .failed) := by
  change (historyOf [sampleRecord 3 .failed] (sampleUuid 3)).getLast? = _
  decide +kernel

/-- Once the unit of the first attempt is gone, the retry is queued. -/
theorem acknowledged_retry_survives_unloaded :
    ∃ plan, recover (retriedFacts { sampleExited 3 with loaded := false }) samplePolicy = .ok plan ∧
      KeepsWork plan (sampleUuid 3) := by
  have hok : (recover (retriedFacts { sampleExited 3 with loaded := false }) samplePolicy).isOk := by
    decide +kernel
  cases hplan : recover (retriedFacts { sampleExited 3 with loaded := false }) samplePolicy with
  | error error =>
    rw [hplan] at hok
    cases hok
  | ok plan =>
    refine ⟨plan, rfl, (acknowledged_retry_survives_iff hplan List.mem_cons_self
      (latestWitness_retriedFacts _) List.mem_cons_self rfl rfl (Dict.get?_insert_self _ _ _)).mpr ?_⟩
    rintro ⟨_, hloaded, _⟩
    cases hloaded

/-- While it is still loaded, the row is completed, and the only action is one that the daemon does
nothing for. -/
theorem acknowledged_retry_lost :
    (∃ retry ∈ (sampleEvent 3 [{ attempt := 2, previousWitnessSeq := 1 }]).retries,
      retry.attempt = (sampleRecord 3 .failed).attempt + 1 ∧
      retry.previousWitnessSeq = (sampleRecord 3 .failed).seq) ∧
    latestWitness (retriedFacts (sampleExited 3)) (sampleUuid 3) = some (sampleRecord 3 .failed) ∧
    ∃ plan, recover (retriedFacts (sampleExited 3)) samplePolicy = .ok plan ∧
      plan.rows.map (fun row => (row.row.uuid, row.state)) = [(sampleUuid 3, .completed)] ∧
      plan.actions = [.awaitUnitCollection (.task (sampleUuid 3)) (sampleExited 3).unit] ∧
      ¬ KeepsWork plan (sampleUuid 3) := by
  have hok : (match recover (retriedFacts (sampleExited 3)) samplePolicy with
    | .ok plan => decide (plan.rows.map (fun row => (row.row.uuid, row.state)) =
        [(sampleUuid 3, .completed)] ∧
      plan.actions = [.awaitUnitCollection (.task (sampleUuid 3)) (sampleExited 3).unit])
    | .error _ => false) = true := by
    decide +kernel
  refine ⟨⟨_, List.mem_cons_self, rfl, rfl⟩, latestWitness_retriedFacts _, ?_⟩
  split at hok
  next plan hplan =>
    obtain ⟨hrows, hactions⟩ := of_decide_eq_true hok
    refine ⟨plan, hplan, hrows, hactions, ?_⟩
    rintro ⟨-, action, haction, adopted, needsLease, hexecutable⟩
    rw [hactions, List.mem_singleton] at haction
    rw [haction] at hexecutable
    cases hexecutable
  · cases hok

end Tally.Recovery
