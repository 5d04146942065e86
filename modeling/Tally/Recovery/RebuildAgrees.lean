import Tally.Recovery.Rebuild

/-!
# The rebuild and the recovery plan

The rebuild claims to classify rows as a start of the daemon does. It does so for a run
(`rebuildAgrees_iff`) exactly as long as two things hold. No exited unit of a witnessed attempt is
still loaded for a row that was cancelled or whose retry was acknowledged: recovery completes such a
row and waits for the unit, while the rebuild looks past the unit. And the units that recovery takes
over belong to the run, since the rebuild looks at no others.
-/

namespace Tally.Recovery

open UuidText
open Lib (Table)

variable {Uuid : Type} [LinearOrder Uuid] [UuidText Uuid]

/-! ## What it means to agree -/

/-- An executor that answers from the facts of a start. -/
def RecoveryFacts.inspect (facts : RecoveryFacts Uuid) : Inspect Uuid := fun _ identity =>
  let unit := match identity.taskUuid with
    | some uuid => facts.units.get? uuid
    | none => facts.rowlessUnits.get? identity.jobId
  .ok (unit.getD (.absent (unitName identity.jobId identity.taskRef)))

/-- No trigger of a retry was observed. -/
def RecoveryTriggers.None (triggers : RecoveryTriggers Uuid) : Prop :=
  triggers.confirmedPoolReturns = ∅ ∧ triggers.resourceReturns = ∅ ∧ triggers.boundedRequeues = ∅

def RecoveryRowState.status : RecoveryRowState → RowStatus
  | pending | adoptedRunning | awaitingReconciliation => .pending
  | completed => .completed
  | deleted => .deleted

/-- The row of a rebuild is that of the plan. -/
structure RowAgrees (row : RecoveryRow Uuid) (detail : RowDetailFact) : Prop where
  taskUuid : detail.taskUuid = render row.row.uuid
  status : detail.rowStatus = row.state.status
  attempt : detail.attempt = row.row.attempt
  laborClass : detail.laborClass = row.laborClass

/-- The row whose unit an action adopts or reconciles. -/
def RecoveryAction.takenRow : RecoveryAction Uuid → Option Uuid
  | adoptRunning (.task uuid) _ _ _ _ _ => some uuid
  | reconcileExit (.task uuid) _ _ => some uuid
  | _ => none

/-- The rebuild says of every row what the plan says, and lists the rows that the plan adopts or
reconciles. A live job that is no row is the run itself. -/
structure RebuildAgrees (plan : RecoveryPlan Uuid) (details : List RowDetailFact)
    (live : List LiveJobFact) : Prop where
  rows : List.Forall₂ RowAgrees plan.rows details
  live : ((live.map (·.anchor)).filter (· ∈ details.map (·.taskUuid))).Perm
    ((plan.actions.filterMap (·.takenRow)).map render)

/-- The exited unit of the witnessed attempt is still loaded. -/
def LeftLoaded (latest : Option WitnessRecord) (unit : LocalUnitFact) : Prop :=
  unit.state = .exited ∧ unit.loaded = true ∧ Witnessed latest unit

/-- The unit has run, or runs, an attempt that lacks its witness. -/
def Unwitnessed (latest : Option WitnessRecord) (unit : LocalUnitFact) : Prop :=
  (unit.state = .running ∨ unit.state = .exited) ∧ ¬ Witnessed latest unit

/-- No unit is left loaded after its row was cancelled, or was presented again. -/
def SettledAlike (event : DurableEnqueueEvent Uuid) (latest : Option WitnessRecord)
    (unit : LocalUnitFact) : Prop :=
  LeftLoaded latest unit →
    (∀ record, latest = some record → record.verdict ≠ .cancelled) ∧
      hasExplicitRetry event latest = false

/-- What the rebuild of a run takes for granted about the unit of a row. -/
structure RebuildsAlike (relevant : Finset Uuid) (event : DurableEnqueueEvent Uuid)
    (latest : Option WitnessRecord) (unit : LocalUnitFact) : Prop where
  settled : SettledAlike event latest unit
  inRun : Unwitnessed latest unit → event.row.uuid ∈ relevant

/-! ## The units -/

theorem ofFact_eq_ok {fact : LocalUnitFact} {laborClass : LaborClass} {unit : RebuildUnitFact} :
    RebuildUnitFact.ofFact fact laborClass = .ok unit ↔
      unit.fact = fact ∧ unit.laborClass = laborClass := by
  unfold RebuildUnitFact.ofFact
  constructor
  · intro h
    split at h <;> cases h
    exact ⟨rfl, rfl⟩
  · rintro ⟨rfl, rfl⟩
    split
    next hnone => rw [unit.fact_attempt] at hnone; cases hnone
    next hnone => rw [unit.fact_leaseEpoch] at hnone; cases hnone
    next attempt leaseEpoch hattempt hepoch =>
      obtain ⟨fact, laborClass, attempt', leaseEpoch', hattempt', hepoch'⟩ := unit
      cases hattempt.symm.trans hattempt'
      cases hepoch.symm.trans hepoch'
      rfl

section Round

variable {facts : RecoveryFacts Uuid} {policy : RecoveryPolicy} {event : DurableEnqueueEvent Uuid}
  {unit : LocalUnitFact} {row : RecoveryRow Uuid} {action : Option (RecoveryAction Uuid)}
  {found : Option RebuildUnitFact}

/-- The rebuild has a reason not to count the unit of a row as live work. -/
inductive NotLive (event : DurableEnqueueEvent Uuid) (latest : Option WitnessRecord)
    (unit : LocalUnitFact) : Prop
  | absent (hstate : unit.state = .absent)
  | terminal {record : WitnessRecord} (hlatest : latest = some record)
    (htrigger : (retryTrigger record.verdict).isNone) (hretry : hasExplicitRetry event latest = false)
  | covered {record : WitnessRecord} {attempt : Nat} (hlatest : latest = some record)
    (hattempt : unit.attempt = some attempt) (hcovered : attempt ≤ record.attempt)

omit [LinearOrder Uuid] in
theorem rebuildLabor_none {latest : Option WitnessRecord} {attempt leaseEpoch : Nat}
    (h : rebuildLabor event latest unit attempt leaseEpoch = .ok none) :
    ∃ record, latest = some record ∧ attempt ≤ record.attempt := by
  unfold rebuildLabor at h
  cases latest with
  | none => simp [pure, Except.pure] at h
  | some record =>
    dsimp only at h
    split at h
    next hcovered => exact ⟨record, rfl, hcovered⟩
    · simp [pure, Except.pure] at h

/-- What the rebuild finds out about the unit of a row, given the facts of the plan. -/
theorem rebuildUnit_cases (hchecked : Checked facts event unit)
    (h : rebuildUnit facts.inspect facts.durable.witness event = .ok found) :
    (found = none ∧ NotLive event (latestWitness facts event.row.uuid) unit) ∨
    ∃ live, found = some live ∧ live.fact = unit ∧
      (unit.state = .running ∨ unit.state = .exited) ∧
      rebuildLabor event (latestWitness facts event.row.uuid) unit live.attempt live.leaseEpoch =
        .ok (some live.laborClass) := by
  have hinspect : facts.inspect event.row.executor (rowExecutionIdentity event.row) = .ok unit := by
    simp only [RecoveryFacts.inspect, rowExecutionIdentity, hchecked.fact, Option.getD_some]
  have hlatest : (historyOf facts.durable.witness event.row.uuid).getLast? =
    latestWitness facts event.row.uuid := rfl
  unfold rebuildUnit at h
  rw [hlatest, hinspect] at h
  generalize latestWitness facts event.row.uuid = latest at h
  dsimp only at h
  split at h
  next hskip =>
    cases h
    obtain ⟨record, hrecord, hterminal⟩ := (Option.any_eq_true _ _).mp hskip.2.1
    exact .inl ⟨rfl, .terminal hrecord hterminal hskip.2.2⟩
  next hskip =>
  simp only [Except.mapError, bind_ok_iff, Except.ok.injEq, exists_eq_left'] at h
  cases hstate : unit.state with
  | absent =>
    rw [hstate] at h
    cases h
    exact .inl ⟨rfl, .absent hstate⟩
  | inactiveWithoutRecord =>
    rw [hstate] at h
    cases h
  | running | exited =>
    all_goals
      rw [hstate] at h
      simp only [bind_ok_iff, orError_eq_ok] at h
      obtain ⟨attempt, hattempt, leaseEpoch, hepoch, labor, hlabor, h⟩ := h
      cases labor with
      | none =>
        cases h
        obtain ⟨record, hrecord, hcovered⟩ := rebuildLabor_none hlabor
        exact .inl ⟨rfl, .covered hrecord hattempt hcovered⟩
      | some laborClass =>
        obtain ⟨live, hlive, h⟩ := bind_ok_iff.mp h
        cases h
        obtain ⟨rfl, rfl⟩ := ofFact_eq_ok.mp hlive
        refine .inr ⟨live, rfl, rfl, by simp, ?_⟩
        cases hattempt.symm.trans live.fact_attempt
        cases hepoch.symm.trans live.fact_leaseEpoch
        exact hlabor

omit [LinearOrder Uuid] in
theorem rebuildLabor_some {latest : Option WitnessRecord} {attempt leaseEpoch : Nat}
    {laborClass : LaborClass}
    (h : rebuildLabor event latest unit attempt leaseEpoch = .ok (some laborClass)) :
    (latest = none ∧ laborClass = .fresh) ∨
      ∃ record, latest = some record ∧ record.attempt < attempt ∧ laborClass = .recovered := by
  unfold rebuildLabor at h
  cases latest with
  | none =>
    simp only [ensure_bind_ok_iff, pure, Except.pure, Except.ok.injEq, Option.some.injEq] at h
    exact .inl ⟨rfl, h.2.symm⟩
  | some record =>
    dsimp only at h
    split at h
    · cases h
    next hbeyond =>
      simp only [ensure_bind_ok_iff, pure, Except.pure, Except.ok.injEq, Option.some.injEq] at h
      exact .inr ⟨record, rfl, by omega, h.2.symm⟩

omit [LinearOrder Uuid] [UuidText Uuid] in
theorem NextPresentation.not_witnessed {seed : RowSeed Uuid} {latest : Option WitnessRecord}
    {explicitRetry : Bool} {attempt leaseEpoch : Nat} {laborClass : LaborClass}
    (h : NextPresentation seed latest explicitRetry attempt leaseEpoch laborClass)
    (hattempt : unit.attempt = some attempt) : ¬ Witnessed latest unit := by
  rintro ⟨record, hlatest, hrecord⟩
  cases hattempt.symm.trans hrecord
  cases h with
  | first hnone =>
    rw [hlatest] at hnone
    cases hnone
  | again hother hnext =>
    cases hlatest.symm.trans hother
    omega

/-- A plan takes over the unit of a row exactly if the unit lacks a witness. -/
theorem RowPlan.taken_cases {latest : Option WitnessRecord}
    (h : RowPlan facts policy event latest unit row action) :
    (action.bind (·.takenRow) = none ∧ ¬ Unwitnessed latest unit) ∨
      (action.bind (·.takenRow) = some event.row.uuid ∧ Unwitnessed latest unit ∧
        row.state.status = .pending ∧ unit.attempt = some row.row.attempt ∧
        ∃ leaseEpoch, NextPresentation event.row latest (hasExplicitRetry event latest)
          row.row.attempt leaseEpoch row.laborClass) := by
  have hidle : Idle latest unit → ¬ Unwitnessed latest unit := by
    rintro (habsent | ⟨-, -, hwitnessed⟩) ⟨hstate, hnot⟩
    · rw [habsent] at hstate
      rcases hstate with hstate | hstate <;> cases hstate
    · exact hnot hwitnessed
  cases h with
  | present h =>
    cases h with
    | collect hlatest _ _ hattempt =>
      exact .inl ⟨rfl, fun hun => hun.2 ⟨_, hlatest, hattempt⟩⟩
    | adopt hstate hattempt _ _ hnext =>
      exact .inr ⟨rfl, ⟨.inl hstate, hnext.not_witnessed hattempt⟩, rfl, hattempt, _, hnext⟩
    | reconcile hstate hattempt _ _ hnext =>
      exact .inr ⟨rfl, ⟨.inr hstate, hnext.not_witnessed hattempt⟩, rfl, hattempt, _, hnext⟩
  | queue _ hunit => exact .inl ⟨rfl, hidle hunit⟩
  | retry _ hunit => exact .inl ⟨rfl, hidle hunit⟩
  | witnessed _ hunit _ h =>
    refine .inl ⟨?_, hidle hunit⟩
    cases h <;> rfl

/-- The rebuild looks at a unit that the plan takes over, and counts it as live work. -/
theorem rebuildUnit_of_taken (hchecked : Checked facts event unit)
    (h : rebuildUnit facts.inspect facts.durable.witness event = .ok found) {attempt leaseEpoch : Nat}
    {laborClass : LaborClass} (hun : Unwitnessed (latestWitness facts event.row.uuid) unit)
    (hattempt : unit.attempt = some attempt)
    (hnext : NextPresentation event.row (latestWitness facts event.row.uuid)
      (hasExplicitRetry event (latestWitness facts event.row.uuid)) attempt leaseEpoch laborClass) :
    ∃ live, found = some live ∧ live.attempt = attempt ∧ live.laborClass = laborClass := by
  rcases rebuildUnit_cases hchecked h with ⟨-, hnot⟩ | ⟨live, hfound, rfl, -, hlabor⟩
  · exfalso
    cases hnot with
    | absent habsent =>
      rcases hun.1 with hstate | hstate <;> rw [habsent] at hstate <;> cases hstate
    | terminal hlatest htrigger hretry =>
      cases hnext with
      | first hnone => cases hlatest.symm.trans hnone
      | again hother _ _ hagain =>
        cases hlatest.symm.trans hother
        rcases hagain with hsome | hexplicit
        · rw [Option.isNone_iff_eq_none.mp htrigger] at hsome
          cases hsome
        · rw [hretry] at hexplicit
          cases hexplicit
    | covered hlatest hran hcovered =>
      cases hattempt.symm.trans hran
      cases hnext with
      | first hnone => cases hlatest.symm.trans hnone
      | again hother hsucc =>
        cases hlatest.symm.trans hother
        omega
  · cases hattempt.symm.trans live.fact_attempt
    refine ⟨live, hfound, rfl, ?_⟩
    rcases rebuildLabor_some hlabor with ⟨hnone, hfresh⟩ | ⟨record, hlatest, -, hrecovered⟩
    · cases hnext with
      | first => exact hfresh
      | again hother => cases hnone.symm.trans hother
    · cases hnext with
      | first hnone => cases hnone.symm.trans hlatest
      | again => exact hrecovered

/-- Any other unit does not count. -/
theorem rebuildUnit_of_not_unwitnessed (hchecked : Checked facts event unit)
    (h : rebuildUnit facts.inspect facts.durable.witness event = .ok found)
    (hun : ¬ Unwitnessed (latestWitness facts event.row.uuid) unit) : found = none := by
  rcases rebuildUnit_cases hchecked h with ⟨hnone, -⟩ | ⟨live, -, rfl, hpresent, hlabor⟩
  · exact hnone
  · exfalso
    refine hun ⟨hpresent, ?_⟩
    rintro ⟨record, hlatest, hattempt⟩
    have hsame : record.attempt = live.attempt :=
      Option.some.inj (hattempt.symm.trans live.fact_attempt)
    rcases rebuildLabor_some hlabor with ⟨hnone, -⟩ | ⟨other, hother, hbeyond, -⟩
    · cases hnone.symm.trans hlatest
    · cases hother.symm.trans hlatest
      omega

/-! ## One row -/

omit [LinearOrder Uuid] [UuidText Uuid] in
theorem followingRetry_of_not_retried {record : WitnessRecord}
    (h : hasExplicitRetry event (some record) = false) : followingRetry event record = none := by
  unfold followingRetry
  rw [List.find?_eq_none]
  intro retry hretry hfollows
  have hfollows := of_decide_eq_true hfollows
  have hany : hasExplicitRetry event (some record) = true :=
    List.any_eq_true.mpr ⟨retry, hretry, decide_eq_true hfollows.symm⟩
  rw [h] at hany
  cases hany

omit [LinearOrder Uuid] [UuidText Uuid] in
theorem followingRetry_of_retried {record : WitnessRecord}
    (h : hasExplicitRetry event (some record) = true) :
    ∃ retry, followingRetry event record = some retry ∧
      retry.attempt = saturatingSucc record.attempt := by
  obtain ⟨retry, hretry, hfollows⟩ := List.any_eq_true.mp h
  have hfound : (followingRetry event record).isSome := by
    unfold followingRetry
    rw [List.find?_isSome]
    exact ⟨retry, hretry, decide_eq_true (of_decide_eq_true hfollows).symm⟩
  obtain ⟨first, hfirst⟩ := Option.isSome_iff_exists.mp hfound
  have hsome := List.find?_some hfirst
  exact ⟨first, hfirst, (of_decide_eq_true hsome).2⟩

omit [LinearOrder Uuid] in
/-- A row that the witness of its cancelled or retried attempt settles, while its unit lingers. -/
theorem rowAgrees_collect_iff {record : WitnessRecord}
    (hrow : row.row.uuid = event.row.uuid ∧ row.row.attempt = record.attempt ∧
      row.state = .completed ∧ row.laborClass = record.laborClass) :
    RowAgrees row (rebuiltRowDetail event (some record) none) ↔
      record.verdict ≠ .cancelled ∧ hasExplicitRetry event (some record) = false := by
  obtain ⟨huuid, hattempt, hstate, hlabor⟩ := hrow
  cases hretry : hasExplicitRetry event (some record) with
  | true =>
    obtain ⟨retry, hfollowing, -⟩ := followingRetry_of_retried hretry
    refine iff_of_false (fun h => ?_) (fun h => Bool.noConfusion h.2)
    have hstatus := h.status
    simp only [rebuiltRowDetail, hfollowing, RowDetailFact.fromSeed, hstate,
      RecoveryRowState.status] at hstatus
    cases hstatus
  | false =>
    have hfollowing := followingRetry_of_not_retried hretry
    simp only [rebuiltRowDetail, hfollowing, RowDetailFact.fromSeed, and_true]
    constructor
    · intro h hcancelled
      have hstatus := h.status
      rw [if_pos hcancelled, hstate] at hstatus
      cases hstatus
    · intro hnot
      refine ⟨congrArg render huuid.symm, ?_, hattempt.symm, hlabor.symm⟩
      rw [if_neg hnot, hstate]
      rfl

omit [LinearOrder Uuid] [UuidText Uuid] in
theorem not_leftLoaded_of_idle {latest : Option WitnessRecord} (h : Idle latest unit) :
    ¬ LeftLoaded latest unit := by
  rintro ⟨hstate, hloaded, -⟩
  rcases h with habsent | ⟨-, hunloaded, -⟩
  · cases hstate.symm.trans habsent
  · cases hloaded.symm.trans hunloaded

/-- Of a row whose unit shows nothing that lacks its witness, both read the same. -/
theorem rowAgrees_of_idle (htriggers : facts.triggers.None) (hchecked : Checked facts event unit)
    (h : RowPlan facts policy event (latestWitness facts event.row.uuid) unit row action)
    (hidle : Idle (latestWitness facts event.row.uuid) unit) :
    RowAgrees row (rebuiltRowDetail event (latestWitness facts event.row.uuid) none) := by
  have hmax : ∀ record, _ := @hchecked.latest
  generalize latestWitness facts event.row.uuid = latest at h hidle hmax
  cases h with
  | present h =>
    exfalso
    cases h with
    | collect hlatest hstate hloaded hattempt =>
      exact not_leftLoaded_of_idle hidle ⟨hstate, hloaded, _, hlatest, hattempt⟩
    | adopt hstate => rcases hidle with hother | ⟨hother, -⟩ <;> cases hstate.symm.trans hother
    | reconcile hstate hattempt _ _ hnext =>
      rcases hidle with hother | ⟨-, -, hwitnessed⟩
      · cases hstate.symm.trans hother
      · exact hnext.not_witnessed hattempt hwitnessed
  | queue hlatest =>
    subst hlatest
    exact ⟨rfl, rfl, rfl, rfl⟩
  | retry hlatest _ hretry =>
    subst hlatest
    obtain ⟨retry, hfollowing, hattempt⟩ := followingRetry_of_retried hretry
    rw [saturatingSucc_eq (hmax _ rfl).1] at hattempt
    simp only [rebuiltRowDetail, hfollowing]
    exact ⟨rfl, rfl, hattempt, rfl⟩
  | witnessed hlatest _ hretry h =>
    subst hlatest
    simp only [rebuiltRowDetail, followingRetry_of_not_retried hretry]
    cases h with
    | terminal =>
      refine ⟨rfl, ?_, rfl, rfl⟩
      dsimp only [RowDetailFact.fromSeed]
      split <;> rfl
    | exhausted htrigger | await _ htrigger =>
      refine ⟨rfl, ?_, rfl, rfl⟩
      dsimp only [RowDetailFact.fromSeed]
      rw [if_neg]
      · rfl
      · intro hcancelled
        rw [hcancelled] at htrigger
        cases htrigger
    | rePresent _ _ _ _ hobserved =>
      exfalso
      obtain ⟨hpools, hresources, hrequeues⟩ := htriggers
      unfold triggerObserved at hobserved
      rw [hpools, hresources, hrequeues] at hobserved
      split at hobserved <;> simp at hobserved

/-- A row whose unit is not taken over reads the same unless its unit is left loaded. -/
theorem rowAgrees_settled_iff (htriggers : facts.triggers.None)
    (hchecked : Checked facts event unit)
    (h : RowPlan facts policy event (latestWitness facts event.row.uuid) unit row action)
    (hun : ¬ Unwitnessed (latestWitness facts event.row.uuid) unit) :
    RowAgrees row (rebuiltRowDetail event (latestWitness facts event.row.uuid) none) ↔
      SettledAlike event (latestWitness facts event.row.uuid) unit := by
  have hplan := h
  cases h with
  | present h =>
    cases h with
    | collect hlatest hstate hloaded hattempt =>
      have hleft : LeftLoaded (latestWitness facts event.row.uuid) unit :=
        ⟨hstate, hloaded, _, hlatest, hattempt⟩
      unfold SettledAlike
      rw [forall_prop_of_true hleft, hlatest, rowAgrees_collect_iff ⟨rfl, rfl, rfl, rfl⟩]
      simp
    | adopt hstate hattempt _ _ hnext =>
      exact absurd ⟨.inl hstate, hnext.not_witnessed hattempt⟩ hun
    | reconcile hstate hattempt _ _ hnext =>
      exact absurd ⟨.inr hstate, hnext.not_witnessed hattempt⟩ hun
  | queue _ hidle | retry _ hidle | witnessed _ hidle =>
    exact iff_of_true (rowAgrees_of_idle htriggers hchecked hplan hidle) fun hleft =>
      absurd hleft (not_leftLoaded_of_idle hidle)

/-- A row reads the same in the rebuild and in the plan exactly if its unit is not left loaded after a
cancellation or a retry, and is looked at if it lacks its witness. -/
theorem rowAgrees_iff {relevant : Finset Uuid} (htriggers : facts.triggers.None)
    (hchecked : Checked facts event unit)
    (h : RowPlan facts policy event (latestWitness facts event.row.uuid) unit row action)
    (hin : event.row.uuid ∈ relevant →
      rebuildUnit facts.inspect facts.durable.witness event = .ok found)
    (hout : event.row.uuid ∉ relevant → found = none) :
    (RowAgrees row (rebuiltRowDetail event (latestWitness facts event.row.uuid) found) ∧
      (found.isSome ↔ (action.bind (·.takenRow)).isSome)) ↔
      RebuildsAlike relevant event (latestWitness facts event.row.uuid) unit := by
  rcases h.taken_cases with ⟨hleft, hun⟩ | ⟨htaken, hun, hstatus, hattempt, leaseEpoch, hnext⟩
  · have hnone : found = none := by
      by_cases hrelevant : event.row.uuid ∈ relevant
      · exact rebuildUnit_of_not_unwitnessed hchecked (hin hrelevant) hun
      · exact hout hrelevant
    subst hnone
    rw [hleft, rowAgrees_settled_iff htriggers hchecked h hun]
    exact ⟨fun hagrees => ⟨hagrees.1, fun hyes => absurd hyes hun⟩, fun halike => ⟨halike.settled, .rfl⟩⟩
  · have hsettled : SettledAlike event (latestWitness facts event.row.uuid) unit := fun hloaded =>
      absurd hloaded.2.2 hun.2
    constructor
    · rintro ⟨-, hlive⟩
      refine ⟨hsettled, fun _ => ?_⟩
      by_contra hrelevant
      rw [hout hrelevant, htaken] at hlive
      exact Bool.false_ne_true (hlive.mpr rfl)
    · intro halike
      obtain ⟨live, rfl, hran, hlabor⟩ :=
        rebuildUnit_of_taken hchecked (hin (halike.inRun hun)) hun hattempt hnext
      refine ⟨⟨congrArg render h.uuid_eq.symm, hstatus.symm, hran, hlabor⟩, ?_⟩
      rw [htaken]
      exact iff_of_true rfl rfl

end Round

/-! ## All rows -/

section Collect

variable {inspect : Inspect Uuid} {witness : List WitnessRecord}
  {units result : Table Uuid RebuildUnitFact}

theorem collectRebuildUnit_ok {event : DurableEnqueueEvent Uuid}
    (h : collectRebuildUnit inspect witness units event = .ok result) :
    ∃ found, rebuildUnit inspect witness event = .ok found ∧
      result = found.elim units (units.insert event.row.uuid) := by
  obtain ⟨found, hfound, h⟩ := bind_ok_iff.mp h
  refine ⟨found, hfound, ?_⟩
  cases found <;> cases h <;> rfl

/-- The loop over the relevant events files what it finds under the row of each event. -/
theorem collectRebuildUnit_loop {events : List (DurableEnqueueEvent Uuid)}
    (hnodup : (events.map (·.row.uuid)).Nodup)
    (h : events.foldlM (collectRebuildUnit inspect witness) units = .ok result) :
    (∀ uuid, uuid ∉ events.map (·.row.uuid) → result.get? uuid = units.get? uuid) ∧
      ((∀ event ∈ events, units.get? event.row.uuid = none) →
        ∀ event ∈ events, rebuildUnit inspect witness event = .ok (result.get? event.row.uuid)) := by
  induction events generalizing units with
  | nil =>
    cases h
    exact ⟨fun _ _ => rfl, fun _ _ hevent => nomatch hevent⟩
  | cons event rest ih =>
    rw [List.map_cons, List.nodup_cons] at hnodup
    obtain ⟨next, hround, hrest⟩ := foldlM_cons_ok_iff.mp h
    obtain ⟨found, hfound, rfl⟩ := collectRebuildUnit_ok hround
    obtain ⟨hother, hfiled⟩ := ih hnodup.2 hrest
    have hkept : ∀ uuid, uuid ≠ event.row.uuid →
        (found.elim units (units.insert event.row.uuid)).get? uuid = units.get? uuid := by
      intro uuid hne
      cases found with
      | none => rfl
      | some unit => exact units.get?_insert_ne unit hne
    refine ⟨?_, ?_⟩
    · intro uuid huuid
      rw [List.map_cons, List.mem_cons, not_or] at huuid
      rw [hother uuid huuid.2, hkept uuid huuid.1]
    · intro hfresh other hmem
      rcases List.mem_cons.mp hmem with rfl | hmem
      · rw [hfound, hother _ hnodup.1]
        cases found with
        | none => rw [Option.elim_none, hfresh _ List.mem_cons_self]
        | some unit => rw [Option.elim_some, units.get?_insert_self]
      · apply hfiled _ other hmem
        intro later hlater
        rw [hkept]
        · exact hfresh later (List.mem_cons_of_mem _ hlater)
        · intro heq
          exact hnodup.1 (heq ▸ List.mem_map_of_mem hlater)

/-- The unit of the run comes under the run, and only if no row has its UUID. -/
theorem get?_collectRunUnit {durable : DurableRecoveryFacts Uuid} {flowRun : String}
    (h : collectRunUnit inspect durable flowRun units = .ok result)
    {event : DurableEnqueueEvent Uuid} (hevent : event ∈ durable.events) :
    result.get? event.row.uuid = units.get? event.row.uuid := by
  unfold collectRunUnit at h
  split at h
  · cases h
    rfl
  next jobUuid hjob =>
  split at h
  · cases h
    rfl
  next hrow =>
  have hne : event.row.uuid ≠ jobUuid := by
    rintro rfl
    exact hrow (List.any_eq_true.mpr ⟨event, hevent, decide_eq_true rfl⟩)
  obtain ⟨fact, -, h⟩ := bind_ok_iff.mp h
  split at h
  · cases h
    rfl
  · obtain ⟨unit, -, h⟩ := bind_ok_iff.mp h
    cases h
    exact units.get?_insert_ne unit hne
  · obtain ⟨unit, -, h⟩ := bind_ok_iff.mp h
    cases h
    exact units.get?_insert_ne unit hne
  · cases h

theorem collectRebuildUnitFacts_spec {durable : DurableRecoveryFacts Uuid}
    {membership : Flow.FlowMembership} {flowRun : String}
    (h : collectRebuildUnitFacts durable membership flowRun inspect = .ok result)
    {event : DurableEnqueueEvent Uuid} (hevent : event ∈ durable.events) :
    (event.row.uuid ∈ relevantRows durable membership flowRun →
      rebuildUnit inspect durable.witness event = .ok (result.get? event.row.uuid)) ∧
    (event.row.uuid ∉ relevantRows durable membership flowRun →
      result.get? event.row.uuid = none) := by
  obtain ⟨units, hloop, hrun⟩ := bind_ok_iff.mp h
  rw [get?_collectRunUnit hrun hevent]
  have hnodup : (durable.events.map (·.row.uuid)).Nodup := durable.sorted.imp ne_of_lt
  obtain ⟨hother, hfiled⟩ :=
    collectRebuildUnit_loop (hnodup.sublist (List.filter_sublist.map _)) hloop
  constructor
  · intro hrelevant
    exact hfiled (fun _ _ => rfl) event (List.mem_filter.mpr ⟨hevent, decide_eq_true hrelevant⟩)
  · intro hrelevant
    apply hother
    rintro hmem
    obtain ⟨other, hfilter, heq⟩ := List.mem_map.mp hmem
    apply hrelevant
    rw [← heq]
    exact of_decide_eq_true (List.mem_filter.mp hfilter).2

end Collect

section Live

variable {durable : DurableRecoveryFacts Uuid} {units : Table Uuid RebuildUnitFact}

theorem taskUuids_rebuiltRowDetails :
    (rebuiltRowDetails durable units).map (·.taskUuid) =
      durable.events.map fun event => render event.row.uuid := by
  unfold rebuiltRowDetails
  rw [List.map_map]
  apply List.map_congr_left
  intro event _
  dsimp only [Function.comp, rebuiltRowDetail]
  split
  · rfl
  · split
    · rfl
    · split <;> rfl

/-- The live jobs that are rows. -/
theorem live_rows_perm :
    (((rebuiltLiveJobs durable units).map (·.anchor)).filter
      (· ∈ (rebuiltRowDetails durable units).map (·.taskUuid))).Perm
      (durable.events.filterMap fun event =>
        (units.get? event.row.uuid).map fun _ => render event.row.uuid) := by
  rw [taskUuids_rebuiltRowDetails]
  unfold rebuiltLiveJobs
  refine (((List.perm_insertionSort _ _).map _).filter _).trans (.of_eq ?_)
  rw [List.map_append, List.filter_append, List.map_filterMap, List.map_map]
  have hrowed : (durable.events.filterMap fun event =>
      ((units.get? event.row.uuid).map (liveJob event.row.uuid)).map (·.anchor)).filter
        (· ∈ durable.events.map fun event => render event.row.uuid) =
      durable.events.filterMap fun event =>
        (units.get? event.row.uuid).map fun _ => render event.row.uuid := by
    simp only [Option.map_map, Function.comp_def, liveJob]
    rw [List.filter_eq_self]
    intro anchor hanchor
    obtain ⟨event, hevent, hsome⟩ := List.mem_filterMap.mp hanchor
    obtain ⟨-, -, rfl⟩ := Option.map_eq_some_iff.mp hsome
    exact decide_eq_true (List.mem_map_of_mem hevent)
  have hrowless : ((units.entries.filter fun entry =>
      !(durable.events.map (·.row.uuid)).contains entry.1).map fun entry =>
        (liveJob entry.1 entry.2).anchor).filter
          (· ∈ durable.events.map fun event => render event.row.uuid) = [] := by
    rw [List.filter_eq_nil_iff]
    intro anchor hanchor hrow
    obtain ⟨entry, hentry, rfl⟩ := List.mem_map.mp hanchor
    obtain ⟨event, hevent, heq⟩ := List.mem_map.mp (of_decide_eq_true hrow)
    have hnot : entry.1 ∉ durable.events.map (·.row.uuid) := by
      simpa only [Bool.not_eq_true', ← Bool.not_eq_true, List.contains_iff_mem] using
        (List.mem_filter.mp hentry).2
    apply hnot
    rw [← render_inj.mp heq]
    exact List.mem_map_of_mem hevent
  rw [hrowed]
  exact (congrArg _ hrowless).trans (List.append_nil _)

end Live

section Plan

variable {facts : RecoveryFacts Uuid} {policy : RecoveryPolicy} {plan : RecoveryPlan Uuid}
  {outs : List (RecoveryRow Uuid × Option (RecoveryAction Uuid))}
  {rowless : List (Uuid × Option (RecoveryAction Uuid))}

theorem Rounds.takenRows_eq (h : Rounds facts policy plan outs rowless) :
    plan.actions.filterMap (·.takenRow) = outs.filterMap fun out => out.2.bind (·.takenRow) := by
  have hjobs : (rowless.flatMap (·.2.toList)).filterMap (·.takenRow) = [] := by
    rw [List.filterMap_eq_nil_iff]
    intro action haction
    obtain ⟨⟨jobUuid, out⟩, hout, haction⟩ := List.mem_flatMap.mp haction
    obtain ⟨entry, -, -, -, hplan⟩ := exists_item h.jobs hout
    rw [Option.mem_toList] at haction
    cases hplan <;> cases haction <;> rfl
  rw [h.actions_eq, List.filterMap_append, hjobs, List.append_nil, List.filterMap_flatMap,
    List.filterMap_eq_flatMap_toList]
  refine List.flatMap_congr fun out _ => ?_
  obtain ⟨row, action⟩ := out
  cases action with
  | none => rfl
  | some action =>
    simp only [Option.toList_some, Option.bind_some, List.filterMap_cons, List.filterMap_nil]
    cases action.takenRow <;> rfl

/-- The action of a round takes over the unit of its row, and no other. -/
theorem RowPlan.takenRow_eq {event : DurableEnqueueEvent Uuid} {latest : Option WitnessRecord}
    {unit : LocalUnitFact} {row : RecoveryRow Uuid} {action : Option (RecoveryAction Uuid)}
    (h : RowPlan facts policy event latest unit row action) {uuid : Uuid}
    (htaken : action.bind (·.takenRow) = some uuid) : uuid = row.row.uuid := by
  rw [h.uuid_eq]
  rcases h.taken_cases with ⟨hnone, -⟩ | ⟨hsome, -⟩
  · cases hnone.symm.trans htaken
  · exact Option.some.inj (htaken.symm.trans hsome)

/-- The plan takes over the unit of a row exactly if the round of the row does. -/
theorem Rounds.mem_takenRows_iff (h : Rounds facts policy plan outs rowless)
    {out : RecoveryRow Uuid × Option (RecoveryAction Uuid)} (hout : out ∈ outs) :
    out.1.row.uuid ∈ plan.actions.filterMap (·.takenRow) ↔ (out.2.bind (·.takenRow)).isSome := by
  rw [h.takenRows_eq, List.mem_filterMap]
  constructor
  · rintro ⟨other, hother, htaken⟩
    obtain ⟨event, -, unit, -, hplan⟩ := exists_item h.rounds hother
    have hsame : other = out :=
      List.inj_on_of_nodup_map h.uuids_nodup hother hout (hplan.takenRow_eq htaken).symm
    rw [← hsame, htaken]
    rfl
  · intro hsome
    obtain ⟨uuid, htaken⟩ := Option.isSome_iff_exists.mp hsome
    obtain ⟨event, -, unit, -, hplan⟩ := exists_item h.rounds hout
    exact ⟨out, hout, htaken.trans (congrArg some (hplan.takenRow_eq htaken))⟩

end Plan

omit [LinearOrder Uuid] in
theorem mem_map_render_iff {uuids : List Uuid} {uuid : Uuid} :
    render uuid ∈ uuids.map render ↔ uuid ∈ uuids := by
  rw [List.mem_map]
  constructor
  · rintro ⟨other, hother, heq⟩
    exact render_inj.mp heq ▸ hother
  · exact fun huuid => ⟨uuid, huuid, rfl⟩

/-- A row is among the live jobs exactly if its unit counts as live work. -/
theorem mem_live_rows_iff {durable : DurableRecoveryFacts Uuid} {units : Table Uuid RebuildUnitFact}
    {event : DurableEnqueueEvent Uuid} (hevent : event ∈ durable.events) :
    render event.row.uuid ∈ (durable.events.filterMap fun event =>
      (units.get? event.row.uuid).map fun _ => render event.row.uuid) ↔
      (units.get? event.row.uuid).isSome := by
  rw [List.mem_filterMap]
  constructor
  · rintro ⟨other, -, hsome⟩
    obtain ⟨unit, hunit, heq⟩ := Option.map_eq_some_iff.mp hsome
    rw [← render_inj.mp heq, hunit]
    rfl
  · intro hsome
    obtain ⟨unit, hunit⟩ := Option.isSome_iff_exists.mp hsome
    exact ⟨event, hevent, by rw [hunit]; rfl⟩

/-- The rebuild of a run agrees with the recovery plan exactly if no unit is left loaded for a row that
was cancelled or retried, and the units that lack their witness are those of the run. -/
theorem rebuildAgrees_iff {facts : RecoveryFacts Uuid} {policy : RecoveryPolicy}
    {plan : RecoveryPlan Uuid} {membership : Flow.FlowMembership} {flowRun : String}
    {units : Table Uuid RebuildUnitFact} (h : recover facts policy = .ok plan)
    (htriggers : facts.triggers.None)
    (hunits : collectRebuildUnitFacts facts.durable membership flowRun facts.inspect = .ok units) :
    RebuildAgrees plan (rebuiltRowDetails facts.durable units)
        (rebuiltLiveJobs facts.durable units) ↔
      ∀ event ∈ facts.durable.events, ∀ unit, facts.units.get? event.row.uuid = some unit →
        RebuildsAlike (relevantRows facts.durable membership flowRun) event
          (latestWitness facts event.row.uuid) unit := by
  obtain ⟨outs, rowless, hrounds⟩ := recover_spec h
  have hmembers := (List.forall₂_and_left facts.durable.events outs).mpr ⟨fun _ hevent => hevent,
    hrounds.rounds⟩
  -- row by row, this is `rowAgrees_iff`
  have hiff : List.Forall₂ (fun event out =>
      (out.1.row.uuid = event.row.uuid ∧
        ∀ uuid, out.2.bind (·.takenRow) = some uuid → uuid = out.1.row.uuid) ∧
      ((RowAgrees out.1 (rebuiltRowDetail event (latestWitness facts event.row.uuid)
          (units.get? event.row.uuid)) ∧
        ((units.get? event.row.uuid).isSome ↔ (out.2.bind (·.takenRow)).isSome)) ↔
      ∀ unit, facts.units.get? event.row.uuid = some unit →
        RebuildsAlike (relevantRows facts.durable membership flowRun) event
          (latestWitness facts event.row.uuid) unit)) facts.durable.events outs := by
    refine hmembers.imp fun event out hround => ?_
    obtain ⟨hevent, unit, hchecked, hplan⟩ := hround
    obtain ⟨hin, hout⟩ := collectRebuildUnitFacts_spec hunits hevent
    refine ⟨⟨hplan.uuid_eq, fun _ => hplan.takenRow_eq⟩, (rowAgrees_iff htriggers hchecked hplan hin hout).trans ?_⟩
    rw [hchecked.fact]
    simp
  constructor
  · intro hagrees event hevent
    have hrows := hagrees.rows
    unfold rebuiltRowDetails at hrows
    rw [hrounds.rows_eq, List.forall₂_map_left_iff, List.forall₂_map_right_iff] at hrows
    obtain ⟨out, hout, ⟨⟨huuid, -⟩, hround⟩, hrow⟩ := exists_round
      (List.Forall₂.mp (fun _ _ hround hrow => And.intro hround hrow) hiff (List.Forall₂.flip hrows))
      hevent
    refine hround.mp ⟨hrow, ?_⟩
    rw [← hrounds.mem_takenRows_iff hout, huuid, ← mem_map_render_iff, ← hagrees.live.mem_iff,
      live_rows_perm.mem_iff, mem_live_rows_iff hevent]
  · intro halike
    have hpairs := List.Forall₂.mp (fun _ _ hround hevent => And.intro hround.1 (hround.2.mpr hevent.1))
      hiff ((List.forall₂_and_left facts.durable.events outs).mpr ⟨halike, hrounds.rounds⟩)
    refine ⟨?_, live_rows_perm.trans (.of_eq ?_)⟩
    · unfold rebuiltRowDetails
      rw [hrounds.rows_eq, List.forall₂_map_left_iff, List.forall₂_map_right_iff]
      exact List.Forall₂.flip (hpairs.imp fun _ _ hpair => hpair.2.1)
    · have hlive : outs.map (fun out => (out.2.bind (·.takenRow)).map render) =
          facts.durable.events.map fun event =>
            (units.get? event.row.uuid).map fun _ => render event.row.uuid := by
        refine map_key_of_rounds hpairs fun event out hpair => ?_
        obtain ⟨⟨huuid, htaken⟩, -, hlive⟩ := hpair
        cases hrow : out.2.bind (·.takenRow) with
        | none =>
          rw [hrow] at hlive
          rw [Option.not_isSome_iff_eq_none.mp fun hsome => Bool.false_ne_true (hlive.mp hsome)]
          rfl
        | some uuid =>
          rw [hrow] at hlive
          obtain ⟨unit, hunit⟩ := Option.isSome_iff_exists.mp (hlive.mpr rfl)
          rw [hunit, htaken uuid hrow, huuid]
          rfl
      have hreduced := congrArg (List.filterMap id) hlive
      rw [List.filterMap_map, List.filterMap_map] at hreduced
      rw [hrounds.takenRows_eq, List.map_filterMap]
      exact hreduced.symm

/-- A run of two rows: one runs, and the other has been witnessed while its unit may linger. -/
def lingeringFacts (retries : List DurableRetry) (verdict : Verdict) (loaded : Bool) :
    RecoveryFacts Nibbles where
  durable := {
    events := [sampleEvent 1 [], sampleEvent 3 retries]
    witness := [sampleRecord 3 verdict]
    sorted := show List.Pairwise (· < ·) [sampleUuid 1, sampleUuid 3] by decide +kernel
    numbered := by
      intro index record h
      match index with
      | 0 => cases h; rfl
      | _ + 1 => cases h }
  currentLeaseEpoch := 2
  units := ((∅ : Dict Nibbles LocalUnitFact).insert (sampleUuid 1) (sampleRunning 1)).insert
    (sampleUuid 3) { sampleExited 3 with loaded }
  rowlessUnits := ∅
  triggers := { confirmedPoolReturns := ∅, resourceReturns := ∅, boundedRequeues := ∅ }
  advisoryReturnAttestations := []

def lingeringMembership : Flow.FlowMembership :=
  .fromRecords ([1, 3].map fun digit =>
    .new "run" (render (sampleUuid digit)) .created none none "2026-01-01T00:00:00Z")

/-- The status of every row, in the plan and in the rebuild, and the live jobs of the rebuild. -/
def rebuildReport (facts : RecoveryFacts Nibbles) :
    Option (List RecoveryRowState × List RowStatus × List String) :=
  match recover facts samplePolicy,
    collectRebuildUnitFacts facts.durable lingeringMembership "run" facts.inspect with
  | .ok plan, .ok units => some (plan.rows.map (·.state),
      (rebuiltRowDetails facts.durable units).map (·.rowStatus),
      (rebuiltLiveJobs facts.durable units).map (·.anchor))
  | _, _ => none

/-- Of what is reported, the rows and the live jobs have to match. -/
theorem rebuildReport_eq {facts : RecoveryFacts Nibbles} {states : List RecoveryRowState}
    {statuses : List RowStatus} {live : List String}
    (h : rebuildReport facts = some (states, statuses, live)) :
    ∃ plan units, recover facts samplePolicy = .ok plan ∧
      collectRebuildUnitFacts facts.durable lingeringMembership "run" facts.inspect = .ok units ∧
      plan.rows.map (·.state) = states ∧
      (rebuiltRowDetails facts.durable units).map (·.rowStatus) = statuses ∧
      (rebuiltLiveJobs facts.durable units).map (·.anchor) = live := by
  unfold rebuildReport at h
  split at h
  next plan units hplan hunits =>
    cases h
    exact ⟨plan, units, hplan, hunits, rfl, rfl, rfl⟩
  · cases h

/-- A failed row whose unit lingers reads the same. -/
theorem rebuildAgrees_failed :
    ∃ plan units, recover (lingeringFacts [] .failed true) samplePolicy = .ok plan ∧
      collectRebuildUnitFacts (lingeringFacts [] .failed true).durable lingeringMembership "run"
        (lingeringFacts [] .failed true).inspect = .ok units ∧
      (rebuiltLiveJobs (lingeringFacts [] .failed true).durable units).map (·.anchor) =
        [render (sampleUuid 1)] ∧
      RebuildAgrees plan (rebuiltRowDetails (lingeringFacts [] .failed true).durable units)
        (rebuiltLiveJobs (lingeringFacts [] .failed true).durable units) := by
  have hreport : rebuildReport (lingeringFacts [] .failed true) = some
      ([.adoptedRunning, .completed], [.pending, .completed], [render (sampleUuid 1)]) := by
    decide +kernel
  obtain ⟨plan, units, hplan, hunits, -, -, hlive⟩ := rebuildReport_eq hreport
  refine ⟨plan, units, hplan, hunits, hlive, (rebuildAgrees_iff hplan ⟨rfl, rfl, rfl⟩ hunits).mpr ?_⟩
  have hrelevant : ∀ event ∈ (lingeringFacts [] .failed true).durable.events, event.row.uuid ∈
      relevantRows (lingeringFacts [] .failed true).durable lingeringMembership "run" := by
    decide +kernel
  have hsettled : ∀ event ∈ (lingeringFacts [] .failed true).durable.events,
      hasExplicitRetry event (latestWitness (lingeringFacts [] .failed true) event.row.uuid) = false ∧
      ((latestWitness (lingeringFacts [] .failed true) event.row.uuid).all
        fun record => record.verdict ≠ .cancelled) = true := by
    decide +kernel
  intro event hevent unit hunit
  obtain ⟨hretry, hverdict⟩ := hsettled event hevent
  refine ⟨fun _ => ⟨fun record hlatest => ?_, hretry⟩, fun _ => hrelevant event hevent⟩
  rw [hlatest] at hverdict
  exact of_decide_eq_true hverdict

/-- Nothing else interferes, and recovery and the rebuild differ. -/
def RebuildDiffers (facts : RecoveryFacts Nibbles) : Prop :=
  facts.triggers.None ∧
    ∃ plan units, recover facts samplePolicy = .ok plan ∧
      collectRebuildUnitFacts facts.durable lingeringMembership "run" facts.inspect = .ok units ∧
      ¬ RebuildAgrees plan (rebuiltRowDetails facts.durable units)
        (rebuiltLiveJobs facts.durable units)

/-- A cancelled row whose unit is still loaded is completed for recovery and deleted for the rebuild,
and one whose retry was acknowledged is completed for recovery and pending for the rebuild. -/
theorem not_rebuildAgrees_lingering :
    RebuildDiffers (lingeringFacts [] .cancelled true) ∧
      RebuildDiffers (lingeringFacts [⟨2, 1⟩] .failed true) := by
  have hdiffer : ∀ facts status, status ≠ RowStatus.completed →
      rebuildReport facts = some ([.adoptedRunning, .completed], [.pending, status],
        [render (sampleUuid 1)]) →
      ∃ plan units, recover facts samplePolicy = .ok plan ∧
        collectRebuildUnitFacts facts.durable lingeringMembership "run" facts.inspect = .ok units ∧
        ¬ RebuildAgrees plan (rebuiltRowDetails facts.durable units)
          (rebuiltLiveJobs facts.durable units) := by
    intro facts status hstatus hreport
    obtain ⟨plan, units, hplan, hunits, hstates, hstatuses, -⟩ := rebuildReport_eq hreport
    refine ⟨plan, units, hplan, hunits, fun hagrees => hstatus ?_⟩
    have hsame : (rebuiltRowDetails facts.durable units).map (·.rowStatus) =
        plan.rows.map (·.state.status) := map_key_of_rounds hagrees.rows fun _ _ h => h.status
    have hmap := congrArg (List.map RecoveryRowState.status) hstates
    rw [List.map_map] at hmap
    cases (hstatuses.symm.trans hsame).trans hmap
    rfl
  constructor
  · exact ⟨⟨rfl, rfl, rfl⟩, hdiffer _ .deleted (by decide) (by decide +kernel)⟩
  · exact ⟨⟨rfl, rfl, rfl⟩, hdiffer _ .pending (by decide) (by decide +kernel)⟩

end Tally.Recovery
