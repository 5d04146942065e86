import Tally.Recovery.Recover

/-!
# What the recovery plan says

Each round of the loop over the durable events adds one row and at most one action, and `RowPlan`
lists the ways in which it can do so (`recoverEvent_spec`). A plan is therefore a list of such
rounds followed by the rounds over the units that have no row (`recover_spec`), and what it says
about one row is read off the round of that row.
-/

namespace Tally.Recovery

open UuidText

variable {Uuid : Type} [LinearOrder Uuid] [UuidText Uuid]

theorem checkedSucc_eq_some {attempt next : Nat} :
    checkedSucc attempt = some next ↔ next = attempt + 1 ∧ attempt + 1 ≤ u32Max := by
  unfold checkedSucc
  split
  · simp only [Option.some.injEq]
    omega
  · simp only [reduceCtorEq, false_iff]
    omega

theorem saturatingSucc_eq {attempt : Nat} (h : attempt + 1 ≤ u32Max) :
    saturatingSucc attempt = attempt + 1 :=
  Nat.min_eq_left h

/-! ## One row -/

/-- The newest record of a row. -/
def latestWitness (facts : RecoveryFacts Uuid) (uuid : Uuid) : Option WitnessRecord :=
  (historyOf facts.durable.witness uuid).getLast?

/-- The newest record covers the attempt that the unit ran. -/
def Witnessed (latest : Option WitnessRecord) (unit : LocalUnitFact) : Prop :=
  ∃ record, latest = some record ∧ unit.attempt = some record.attempt

/-- The unit shows no execution that lacks its witness. -/
def Idle (latest : Option WitnessRecord) (unit : LocalUnitFact) : Prop :=
  unit.state = .absent ∨
    (unit.state = .exited ∧ unit.loaded = false ∧ Witnessed latest unit)

/-- A unit with this attempt and epoch is the next presentation of its row. -/
inductive NextPresentation (row : RowSeed Uuid) (latest : Option WitnessRecord)
    (explicitRetry : Bool) (attempt leaseEpoch : Nat) : LaborClass → Prop
  | first (hlatest : latest = none) (hattempt : attempt = row.attempt)
    (hepoch : row.leaseEpoch ≤ leaseEpoch) :
    NextPresentation row latest explicitRetry attempt leaseEpoch .fresh
  | again {record : WitnessRecord} (hlatest : latest = some record)
    (hattempt : attempt = record.attempt + 1) (hepoch : record.leaseEpoch ≤ leaseEpoch)
    (hagain : (retryTrigger record.verdict).isSome ∨ explicitRetry) :
    NextPresentation row latest explicitRetry attempt leaseEpoch .recovered

/-- A round that the unit of a row settles. -/
inductive PresentPlan (event : DurableEnqueueEvent Uuid) (latest : Option WitnessRecord)
    (unit : LocalUnitFact) : RecoveryRow Uuid → RecoveryAction Uuid → Prop
  | collect {record : WitnessRecord} (hlatest : latest = some record)
    (hstate : unit.state = .exited) (hloaded : unit.loaded = true)
    (hattempt : unit.attempt = some record.attempt) :
    PresentPlan event latest unit
      { row := { event.row with attempt := record.attempt, leaseEpoch := record.leaseEpoch }
        state := .completed
        laborClass := record.laborClass
        guardrailDepth := event.guardrailDepth }
      (.awaitUnitCollection (.task event.row.uuid) unit.unit)
  | adopt {attempt leaseEpoch : Nat} {invocationId : String} {laborClass : LaborClass}
    (hstate : unit.state = .running) (hattempt : unit.attempt = some attempt)
    (hepoch : unit.leaseEpoch = some leaseEpoch) (hinvocation : unit.invocationId = some invocationId)
    (hnext : NextPresentation event.row latest (hasExplicitRetry event latest) attempt leaseEpoch
      laborClass) :
    PresentPlan event latest unit
      { row := presentRow event.row latest (hasExplicitRetry event latest) laborClass attempt
          leaseEpoch
        state := .adoptedRunning
        laborClass
        guardrailDepth := event.guardrailDepth }
      (.adoptRunning (.task event.row.uuid) unit.unit invocationId attempt leaseEpoch
        (some laborClass))
  | reconcile {attempt leaseEpoch : Nat} {record : UnitExitRecord} {laborClass : LaborClass}
    (hstate : unit.state = .exited) (hattempt : unit.attempt = some attempt)
    (hepoch : unit.leaseEpoch = some leaseEpoch) (hrecord : unit.exitRecord = some record)
    (hnext : NextPresentation event.row latest (hasExplicitRetry event latest) attempt leaseEpoch
      laborClass) :
    PresentPlan event latest unit
      { row := presentRow event.row latest (hasExplicitRetry event latest) laborClass attempt
          leaseEpoch
        state := .awaitingReconciliation
        laborClass
        guardrailDepth := event.guardrailDepth }
      (.reconcileExit (.task event.row.uuid) record (some laborClass))

/-- A round for a row whose newest record decides. -/
inductive WitnessedPlan (facts : RecoveryFacts Uuid) (policy : RecoveryPolicy) (row : RowSeed Uuid)
    (record : WitnessRecord) (guardrailDepth : Nat) :
    RecoveryRow Uuid → Option (RecoveryAction Uuid) → Prop
  | terminal (htrigger : retryTrigger record.verdict = none) :
    WitnessedPlan facts policy row record guardrailDepth
      { row := { row with attempt := record.attempt, leaseEpoch := record.leaseEpoch }
        state := if record.verdict = .cancelled then .deleted else .completed
        laborClass := record.laborClass
        guardrailDepth }
      none
  | exhausted (htrigger : (retryTrigger record.verdict).isSome)
    (hattempts : policy.maxAttempts < record.attempt + 1) :
    WitnessedPlan facts policy row record guardrailDepth
      { row := { row with attempt := record.attempt, leaseEpoch := record.leaseEpoch }
        state := .completed
        laborClass := record.laborClass
        guardrailDepth }
      (some (.retryExhausted row.uuid record.attempt policy.maxAttempts))
  | await (observed : Bool) (htrigger : (retryTrigger record.verdict).isSome) :
    WitnessedPlan facts policy row record guardrailDepth
      { row := { row with attempt := record.attempt, leaseEpoch := record.leaseEpoch }
        state := .completed
        laborClass := record.laborClass
        guardrailDepth }
      (some (.awaitRetry row.uuid (retryDisposition record.verdict policy.retry) observed))
  | rePresent {trigger : RetryTrigger} (next : RowSeed Uuid)
    (hnext : next = { row with
      attempt := record.attempt + 1
      leaseEpoch := facts.currentLeaseEpoch
      usagePredecessor := some {
        taskUuid := render row.uuid
        attempt := record.attempt
        leaseEpoch := record.leaseEpoch } })
    (htrigger : retryTrigger record.verdict = some trigger)
    (hautomatic : retryDisposition record.verdict policy.retry = .automatic trigger)
    (hobserved : triggerObserved row facts.triggers trigger = true)
    (hattempts : record.attempt + 1 ≤ policy.maxAttempts) :
    WitnessedPlan facts policy row record guardrailDepth
      { row := next, state := .pending, laborClass := .recovered, guardrailDepth }
      (some (.rePresent next trigger record.seq record.attempt record.leaseEpoch
        row.usagePredecessor))

/-- A round of the loop over the durable events. -/
inductive RowPlan (facts : RecoveryFacts Uuid) (policy : RecoveryPolicy)
    (event : DurableEnqueueEvent Uuid) (latest : Option WitnessRecord) (unit : LocalUnitFact) :
    RecoveryRow Uuid → Option (RecoveryAction Uuid) → Prop
  | present {row : RecoveryRow Uuid} {action : RecoveryAction Uuid}
    (h : PresentPlan event latest unit row action) :
    RowPlan facts policy event latest unit row (some action)
  | queue (hlatest : latest = none) (hidle : Idle latest unit) :
    RowPlan facts policy event latest unit
      { row := { event.row with leaseEpoch := facts.currentLeaseEpoch }
        state := .pending
        laborClass := .fresh
        guardrailDepth := event.guardrailDepth }
      (some (.queueExisting event.row.uuid event.row.attempt facts.currentLeaseEpoch))
  | retry {record : WitnessRecord} (hlatest : latest = some record) (hidle : Idle latest unit)
    (hretry : hasExplicitRetry event latest = true) :
    RowPlan facts policy event latest unit
      { row := { event.row with
          attempt := record.attempt + 1
          leaseEpoch := facts.currentLeaseEpoch
          usagePredecessor := if event.row.resumedFrom.isSome then some {
            taskUuid := render event.row.uuid
            attempt := record.attempt
            leaseEpoch := record.leaseEpoch } else none }
        state := .pending
        laborClass := .recovered
        guardrailDepth := event.guardrailDepth }
      (some (.queueExisting event.row.uuid (record.attempt + 1) facts.currentLeaseEpoch))
  | witnessed {record : WitnessRecord} {row : RecoveryRow Uuid}
    {action : Option (RecoveryAction Uuid)} (hlatest : latest = some record)
    (hidle : Idle latest unit) (hretry : hasExplicitRetry event latest = false)
    (h : WitnessedPlan facts policy event.row record event.guardrailDepth row action) :
    RowPlan facts policy event latest unit row action

/-! ## The rounds of the planner -/

namespace Planner

/-- The rows and actions of a planner. -/
def view (planner : Planner Uuid) : List (RecoveryRow Uuid) × List (RecoveryAction Uuid) :=
  (planner.rows, planner.actions)

omit [UuidText Uuid] in
@[simp] theorem view_rememberStaleEpoch (planner : Planner Uuid) (identity : RecoveryIdentity Uuid)
    (epoch currentEpoch : Nat) :
    (planner.rememberStaleEpoch identity epoch currentEpoch).view = planner.view := by
  unfold rememberStaleEpoch
  split <;> rfl

omit [UuidText Uuid] in
@[simp] theorem view_rememberStaleEpoch? (planner : Planner Uuid)
    (identity : RecoveryIdentity Uuid) (epoch : Option Nat) (currentEpoch : Nat) :
    (planner.rememberStaleEpoch? identity epoch currentEpoch).view = planner.view := by
  cases epoch with
  | none => rfl
  | some epoch => exact planner.view_rememberStaleEpoch identity epoch currentEpoch

end Planner

/-- Add a row and the action that comes with it. -/
def addRow (view : List (RecoveryRow Uuid) × List (RecoveryAction Uuid))
    (out : RecoveryRow Uuid × Option (RecoveryAction Uuid)) :
    List (RecoveryRow Uuid) × List (RecoveryAction Uuid) :=
  (view.1 ++ [out.1], view.2 ++ out.2.toList)

omit [LinearOrder Uuid] [UuidText Uuid] in
@[simp] theorem Planner.view_pushAction (planner : Planner Uuid) (action : RecoveryAction Uuid) :
    (planner.pushAction action).view = (planner.view.1, planner.view.2 ++ [action]) :=
  rfl

omit [LinearOrder Uuid] [UuidText Uuid] in
@[simp] theorem Planner.view_pushAction_pushRow (planner : Planner Uuid) (row : RecoveryRow Uuid)
    (action : RecoveryAction Uuid) :
    ((planner.pushAction action).pushRow row).view = addRow planner.view (row, some action) :=
  rfl

omit [LinearOrder Uuid] in
theorem presentLabor_inl {row : RowSeed Uuid} {latest : Option WitnessRecord}
    {explicitRetry : Bool} {unit : LocalUnitFact} {attempt leaseEpoch : Nat}
    {laborClass : LaborClass}
    (h : presentLabor row latest explicitRetry unit attempt leaseEpoch = .ok (.inl laborClass)) :
    NextPresentation row latest explicitRetry attempt leaseEpoch laborClass := by
  unfold presentLabor at h
  cases latest with
  | none =>
    simp only [ensure_bind_ok_iff, pure, Except.pure, Except.ok.injEq, Sum.inl.injEq] at h
    obtain ⟨⟨hattempt, hepoch⟩, rfl⟩ := h
    exact .first rfl hattempt hepoch
  | some record =>
    dsimp only at h
    split at h
    · simp [pure, Except.pure] at h
    · simp only [ensure_bind_ok_iff, orError_bind_ok_iff, checkedSucc_eq_some, pure, Except.pure,
        Except.ok.injEq, Sum.inl.injEq] at h
      obtain ⟨_, ⟨rfl, _⟩, ⟨hattempt, hagain⟩, hepoch, rfl⟩ := h
      exact .again rfl hattempt hepoch hagain

omit [LinearOrder Uuid] in
theorem presentLabor_inr {row : RowSeed Uuid} {latest : Option WitnessRecord}
    {explicitRetry : Bool} {unit : LocalUnitFact} {attempt leaseEpoch : Nat}
    {record : WitnessRecord}
    (h : presentLabor row latest explicitRetry unit attempt leaseEpoch = .ok (.inr record)) :
    latest = some record ∧ unit.state ≠ .running ∧ attempt = record.attempt := by
  unfold presentLabor at h
  cases latest with
  | none => simp [pure, Except.pure] at h
  | some newest =>
    dsimp only at h
    split at h
    next hle =>
      simp only [ensure_bind_ok_iff, pure, Except.pure, Except.ok.injEq, Sum.inr.injEq] at h
      obtain ⟨hstate, hge, rfl⟩ := h
      exact ⟨rfl, hstate, by omega⟩
    · simp [pure, Except.pure] at h

omit [LinearOrder Uuid] in
/-- Either the unit leaves the row as it is, or it settles the row. -/
theorem handlePresentUnit_spec {event : DurableEnqueueEvent Uuid} {latest : Option WitnessRecord}
    {unit : LocalUnitFact} {planner next : Planner Uuid} {settled : Bool}
    (h : handlePresentUnit event.row event.guardrailDepth latest (hasExplicitRetry event latest)
      unit planner = .ok (settled, next)) :
    (settled = false ∧ next = planner ∧ Idle latest unit) ∨
      (settled = true ∧ ∃ row action, PresentPlan event latest unit row action ∧
        next = (planner.pushAction action).pushRow row) := by
  unfold handlePresentUnit at h
  rw [ensure_bind_ok_iff] at h
  obtain ⟨hactive, h⟩ := h
  split at h
  next habsent =>
    cases h
    exact .inl ⟨rfl, rfl, .inl habsent⟩
  next habsent =>
  simp only [orError_bind_ok_iff] at h
  obtain ⟨attempt, hattempt, leaseEpoch, hepoch, h⟩ := h
  obtain ⟨labor, hlabor, h⟩ := bind_ok_iff.mp h
  rcases labor with laborClass | record
  · -- an execution that the witness does not cover
    have hnext := presentLabor_inl hlabor
    dsimp only at h
    split at h
    next hstate =>
      simp only [orError_bind_ok_iff] at h
      obtain ⟨invocationId, hinvocation, h⟩ := h
      cases h
      exact .inr ⟨rfl, _, _, .adopt hstate hattempt hepoch hinvocation hnext, rfl⟩
    next hstate =>
      simp only [orError_bind_ok_iff] at h
      obtain ⟨record, hrecord, h⟩ := h
      cases h
      exact .inr ⟨rfl, _, _, .reconcile hstate hattempt hepoch hrecord hnext, rfl⟩
    · cases h
  · obtain ⟨hlatest, hrunning, rfl⟩ := presentLabor_inr hlabor
    have hstate : unit.state = .exited := by
      cases hs : unit.state <;> simp_all
    dsimp only at h
    split at h
    next hloaded =>
      cases h
      exact .inr ⟨rfl, _, _, .collect hlatest hstate hloaded hattempt, rfl⟩
    next hloaded =>
      cases h
      exact .inl ⟨rfl, rfl, .inr ⟨hstate, by simpa using hloaded, record, hlatest, hattempt⟩⟩

theorem planWitnessedRow_spec {facts : RecoveryFacts Uuid} {policy : RecoveryPolicy}
    {row : RowSeed Uuid} {record : WitnessRecord} {guardrailDepth : Nat}
    {planner next : Planner Uuid}
    (h : planWitnessedRow row record facts.triggers facts.currentLeaseEpoch policy guardrailDepth
      planner = .ok next) :
    ∃ out : RecoveryRow Uuid × Option (RecoveryAction Uuid),
      WitnessedPlan facts policy row record guardrailDepth out.1 out.2 ∧
        next.view = addRow planner.view out := by
  unfold planWitnessedRow at h
  dsimp only at h
  split at h
  next htrigger =>
    cases h
    exact ⟨(_, none), .terminal htrigger, by simp [Planner.view, Planner.pushRow, addRow]⟩
  next trigger htrigger =>
    simp only [orError_bind_ok_iff, checkedSucc_eq_some] at h
    obtain ⟨_, ⟨rfl, _⟩, h⟩ := h
    have hsome : (retryTrigger record.verdict).isSome := by rw [htrigger]; rfl
    split at h
    next hattempts =>
      cases h
      exact ⟨(_, some _), .exhausted hsome hattempts, rfl⟩
    next hattempts =>
    split at h
    next hmanual =>
      cases h
      exact ⟨(_, some _), .await _ hsome, rfl⟩
    next hautomatic =>
      cases h
      simp only [not_or, Bool.not_eq_true, ne_eq, not_not, Bool.not_eq_false'] at hautomatic
      exact ⟨(_, some _), .rePresent _ rfl htrigger hautomatic.1 hautomatic.2 (by omega), rfl⟩

omit [LinearOrder Uuid] in
/-- Every record of an accepted history can be followed by another attempt, and is not from a later
epoch. -/
theorem validateHistory_record {row : RowSeed Uuid} {history : List WitnessRecord}
    {retries : List DurableRetry} {currentEpoch : Nat}
    (h : validateHistory row history retries currentEpoch = .ok ()) {record : WitnessRecord}
    (hrecord : record ∈ history) :
    record.attempt + 1 ≤ u32Max ∧ record.leaseEpoch ≤ currentEpoch := by
  obtain ⟨_, hloop, _⟩ := bind_ok_iff.mp h
  obtain ⟨before, after, hround⟩ := round_of_foldlM hloop hrecord
  simp only [validateRecord, ensure_bind_ok_iff, orError_bind_ok_iff, checkedSucc_eq_some] at hround
  obtain ⟨_, hattempt, _, ⟨_, hmax⟩, ⟨_, hepoch⟩, _⟩ := hround
  exact ⟨hattempt ▸ hmax, hepoch⟩

/-- What has been checked about an event before its row is planned. -/
structure Checked (facts : RecoveryFacts Uuid) (event : DurableEnqueueEvent Uuid)
    (unit : LocalUnitFact) : Prop where
  epoch : event.row.leaseEpoch ≤ facts.currentLeaseEpoch
  history : validateHistory event.row (historyOf facts.durable.witness event.row.uuid)
    event.retries facts.currentLeaseEpoch = .ok ()
  fact : facts.units.get? event.row.uuid = some unit
  unit : validateUnitFact event.row unit facts.currentLeaseEpoch = .ok ()

namespace Checked

variable {facts : RecoveryFacts Uuid} {event : DurableEnqueueEvent Uuid} {unit : LocalUnitFact}

theorem latest (h : Checked facts event unit) {record : WitnessRecord}
    (hlatest : latestWitness facts event.row.uuid = some record) :
    record.attempt + 1 ≤ u32Max ∧ record.leaseEpoch ≤ facts.currentLeaseEpoch :=
  validateHistory_record h.history (List.mem_of_getLast? hlatest)

end Checked

theorem recoverEvent_spec {facts : RecoveryFacts Uuid} {policy : RecoveryPolicy}
    {planner next : Planner Uuid} {event : DurableEnqueueEvent Uuid}
    (h : recoverEvent facts policy planner event = .ok next) :
    ∃ out : RecoveryRow Uuid × Option (RecoveryAction Uuid),
      (∃ unit, Checked facts event unit ∧
        RowPlan facts policy event (latestWitness facts event.row.uuid) unit out.1 out.2) ∧
      next.view = addRow planner.view out := by
  unfold recoverEvent at h
  rw [ensure_bind_ok_iff] at h
  obtain ⟨hepoch, h⟩ := h
  obtain ⟨_, hhistory, h⟩ := bind_ok_iff.mp h
  rw [orError_bind_ok_iff] at h
  obtain ⟨unit, hfact, h⟩ := h
  obtain ⟨_, hunit, h⟩ := bind_ok_iff.mp h
  obtain ⟨⟨settled, started⟩, hpresent, h⟩ := bind_ok_iff.mp h
  have hchecked : Checked facts event unit := ⟨hepoch, hhistory, hfact, hunit⟩
  change handlePresentUnit event.row event.guardrailDepth (latestWitness facts event.row.uuid)
    (hasExplicitRetry event (latestWitness facts event.row.uuid)) unit _ = _ at hpresent
  have hlatest : (historyOf facts.durable.witness event.row.uuid).getLast? =
    latestWitness facts event.row.uuid := rfl
  dsimp only at h
  rw [hlatest] at h
  rcases handlePresentUnit_spec hpresent with ⟨rfl, rfl, hidle⟩ | ⟨rfl, row, action, hplan, rfl⟩
  · rw [if_neg Bool.false_ne_true] at h
    cases hlatest : latestWitness facts event.row.uuid with
    | none =>
      rw [hlatest] at h hidle
      cases h
      exact ⟨(_, some _), ⟨unit, hchecked, .queue rfl hidle⟩, by simp [queueExisting]⟩
    | some record =>
      rw [hlatest] at h hidle
      dsimp only at h
      split at h
      next hretry =>
        simp only [orError_bind_ok_iff, checkedSucc_eq_some] at h
        obtain ⟨_, ⟨rfl, _⟩, h⟩ := h
        cases h
        exact ⟨(_, some _), ⟨unit, hchecked, .retry rfl hidle hretry⟩, by simp [queueExisting]⟩
      next hretry =>
        obtain ⟨out, hout, hview⟩ := planWitnessedRow_spec h
        refine ⟨out, ⟨unit, hchecked, .witnessed rfl hidle (by simpa using hretry) hout⟩, ?_⟩
        rw [hview]
        simp
  · cases h
    exact ⟨(row, some action), ⟨unit, hchecked, .present hplan⟩, by simp⟩

/-- A round of the loop over the units that have no row. -/
inductive RowlessPlan (jobUuid : Uuid) (unit : LocalUnitFact) : Option (RecoveryAction Uuid) → Prop
  | absent (hstate : unit.state = .absent) : RowlessPlan jobUuid unit none
  | adopt {attempt leaseEpoch : Nat} {invocationId : String} (hstate : unit.state = .running)
    (hattempt : unit.attempt = some attempt) (hepoch : unit.leaseEpoch = some leaseEpoch)
    (hinvocation : unit.invocationId = some invocationId) :
    RowlessPlan jobUuid unit
      (some (.adoptRunning (.job jobUuid) unit.unit invocationId attempt leaseEpoch none))
  | reconcile {record : UnitExitRecord} (hstate : unit.state = .exited)
    (hrecord : unit.exitRecord = some record) :
    RowlessPlan jobUuid unit (some (.reconcileExit (.job jobUuid) record none))

/-- Add the action of a unit that has no row. -/
def addRowless (view : List (RecoveryRow Uuid) × List (RecoveryAction Uuid))
    (out : Uuid × Option (RecoveryAction Uuid)) :
    List (RecoveryRow Uuid) × List (RecoveryAction Uuid) :=
  (view.1, view.2 ++ out.2.toList)

theorem planRowlessUnit_spec {currentEpoch : Nat} {planner next : Planner Uuid}
    {entry : Uuid × LocalUnitFact} (h : planRowlessUnit currentEpoch planner entry = .ok next) :
    ∃ out : Uuid × Option (RecoveryAction Uuid),
      (out.1 = entry.1 ∧ validateUnitFactForUuid entry.1 entry.2 currentEpoch = .ok () ∧
        RowlessPlan entry.1 entry.2 out.2) ∧
      next.view = addRowless planner.view out := by
  obtain ⟨jobUuid, unit⟩ := entry
  obtain ⟨_, hfact, h⟩ := bind_ok_iff.mp h
  dsimp only at h
  split at h
  next hstate =>
    cases h
    exact ⟨(jobUuid, none), ⟨rfl, hfact, .absent hstate⟩, by simp [addRowless]⟩
  next hstate =>
    simp only [orError_bind_ok_iff] at h
    obtain ⟨invocationId, hinvocation, attempt, hattempt, leaseEpoch, hepoch, h⟩ := h
    cases h
    exact ⟨(jobUuid, some _), ⟨rfl, hfact, .adopt hstate hattempt hepoch hinvocation⟩, by
      simp [addRowless]⟩
  next hstate =>
    simp only [orError_bind_ok_iff] at h
    obtain ⟨record, hrecord, h⟩ := h
    cases h
    exact ⟨(jobUuid, some _), ⟨rfl, hfact, .reconcile hstate hrecord⟩, by
      simp [addRowless]⟩
  · cases h

omit [LinearOrder Uuid] [UuidText Uuid] in
theorem foldl_addRow (outs : List (RecoveryRow Uuid × Option (RecoveryAction Uuid)))
    (view : List (RecoveryRow Uuid) × List (RecoveryAction Uuid)) :
    outs.foldl addRow view =
      (view.1 ++ outs.map Prod.fst, view.2 ++ outs.flatMap (·.2.toList)) := by
  induction outs generalizing view with
  | nil => simp
  | cons out rest ih => simp [addRow, ih]

omit [LinearOrder Uuid] [UuidText Uuid] in
theorem foldl_addRowless (outs : List (Uuid × Option (RecoveryAction Uuid)))
    (view : List (RecoveryRow Uuid) × List (RecoveryAction Uuid)) :
    outs.foldl addRowless view = (view.1, view.2 ++ outs.flatMap (·.2.toList)) := by
  induction outs generalizing view with
  | nil => simp
  | cons out rest ih => simp [addRowless, ih]

/-- A plan, round by round. -/
structure Rounds (facts : RecoveryFacts Uuid) (policy : RecoveryPolicy) (plan : RecoveryPlan Uuid)
    (outs : List (RecoveryRow Uuid × Option (RecoveryAction Uuid)))
    (rowless : List (Uuid × Option (RecoveryAction Uuid))) : Prop where
  rowed : ∀ uuid unit, facts.units.get? uuid = some unit →
    uuid ∈ facts.durable.events.map (·.row.uuid)
  rounds : List.Forall₂ (fun event out => ∃ unit, Checked facts event unit ∧
    RowPlan facts policy event (latestWitness facts event.row.uuid) unit out.1 out.2)
      facts.durable.events outs
  jobs : List.Forall₂ (fun entry out => out.1 = entry.1 ∧
    validateUnitFactForUuid entry.1 entry.2 facts.currentLeaseEpoch = .ok () ∧
    RowlessPlan entry.1 entry.2 out.2) facts.rowlessUnits.entries rowless
  rows_eq : plan.rows = outs.map Prod.fst
  actions_eq : plan.actions = outs.flatMap (·.2.toList) ++ rowless.flatMap (·.2.toList)

theorem recover_spec {facts : RecoveryFacts Uuid} {policy : RecoveryPolicy}
    {plan : RecoveryPlan Uuid} (h : recover facts policy = .ok plan) :
    ∃ outs rowless, Rounds facts policy plan outs rowless := by
  unfold recover at h
  simp only [ensure_bind_ok_iff] at h
  obtain ⟨-, -, h⟩ := h
  split at h
  · cases h
  next hrowed =>
  split at h
  · cases h
  split at h
  · cases h
  obtain ⟨started, hevents, h⟩ := bind_ok_iff.mp h
  obtain ⟨finished, hrowless, h⟩ := bind_ok_iff.mp h
  cases h
  obtain ⟨outs, hrounds, hview⟩ := foldlM_rounds Planner.view addRow
    (fun event _ before after hstep => recoverEvent_spec hstep) hevents
  obtain ⟨rowless, hjobs, hfinal⟩ := foldlM_rounds Planner.view addRowless
    (fun entry _ before after hstep => planRowlessUnit_spec hstep) hrowless
  rw [hview, foldl_addRow, foldl_addRowless] at hfinal
  refine ⟨outs, rowless, ?_, hrounds, hjobs, ?_, ?_⟩
  · intro uuid unit hunit
    have hkey := (facts.units.mem_keys_iff).mpr ⟨unit, hunit⟩
    simpa using List.find?_eq_none.mp hrowed uuid hkey
  · exact congrArg Prod.fst hfinal
  · exact congrArg Prod.snd hfinal

end Tally.Recovery
