import Tally.Flow.Host

/-!
# Admission in order

A run of the host: nodes are prepared, futures are polled in any order and with any answers, logs are
queued and observations released. The futures of the accepted nodes have the ordinals 0, 1, 2 and so on,
the frontier never passes them, and the client is asked once for each ordinal and in their order
(`Admitting`). The dedup keys that the host makes up are distinct; a key that a script gives as it is can
be one of those (`run_admits_in_order`).
-/

namespace Tally.Flow

open Tally.Lib
open Tally (Eff)

/-! ## Runs -/

structure FlowRun where
  host : HostState := {}
  /-- The futures of the accepted nodes, in their order. -/
  futures : List Execution := []

inductive RunEvent
  | prepare (spec : NodeSpec) (revisions : NodeRevisions) (settle : Bool) (location : SourceLocation)
  | poll (index : Nat) (answers : Answers)
  | log (message : Value) (location : SourceLocation)
  | release

section Run

variable [Validators] [Witness.Libraries] (host : HostShared)

namespace FlowRun

/-- `make_job_promise`: the future of an accepted node has not been polled. -/
def prepare (run : FlowRun) (spec : NodeSpec) (revisions : NodeRevisions) (settle : Bool)
    (location : SourceLocation) : FlowRun :=
  match (prepareSubmission host location spec revisions settle).exec run.host.toPrepared with
  | (.ok plan, prepared) =>
    { host := { run.host with toPrepared := prepared }, futures := run.futures ++ [.admission plan] }
  | (.error _, prepared) => { run with host := { run.host with toPrepared := prepared } }

def step (run : FlowRun) : RunEvent → FlowRun
  | .prepare spec revisions settle location => run.prepare host spec revisions settle location
  | .poll index answers =>
    match run.futures[index]? with
    | none => run
    | some execution =>
      let (next, state) := poll host answers execution run.host
      { host := state, futures := run.futures.set index next }
  | .log message location => { run with host := queueLog host message location run.host }
  | .release => { run with host := releaseReadyObservation run.host }

def after (events : List RunEvent) : FlowRun := events.foldl (step host) {}

end FlowRun

end Run

/-! ## Preparing -/

section Admission

variable (host : HostShared)

/-- The dedup key of a node. -/
def dedupKeyOf (spec : NodeSpec) (ordinal : Nat) : String :=
  match spec.key, spec.dedupKey with
  | some key, _ => localKey host.flowRunId key
  | none, some key => key
  | none, none => ordinalKey host.flowRunId ordinal

/-- The keys after a node has claimed its own. -/
def claimed (spec : NodeSpec) (location : SourceLocation) (prepared : Prepared) : Prepared :=
  match spec.key with
  | some key =>
    { prepared with explicitKeys := prepared.explicitKeys.insert key (prepared.nextOrdinal, location) }
  | none => prepared

/-- A node may claim its key. -/
structure MayClaim (spec : NodeSpec) (prepared : Prepared) : Prop where
  single : spec.key = none ∨ spec.dedupKey = none
  free : ∀ key, spec.key = some key → prepared.explicitKeys.get? key = none

variable {host} {location : SourceLocation} {spec : NodeSpec} {prepared after : Prepared}

theorem claimKey_ok {key : String}
    (h : (claimKey host location spec).exec prepared = (.ok key, after)) :
    MayClaim spec prepared ∧ key = dedupKeyOf host spec prepared.nextOrdinal ∧
      after = claimed spec location prepared := by
  rw [claimKey, Eff.exec_get_bind, Eff.exec_require_bind] at h
  split at h
  · next hsingle =>
    cases hkey : spec.key with
    | some name =>
      rw [hkey] at h
      cases hfree : prepared.explicitKeys.get? name with
      | some first =>
        simp only [hfree] at h
        cases h
      | none =>
        simp only [hfree] at h
        cases h
        refine ⟨⟨hsingle, fun other hother => ?_⟩, ?_, ?_⟩
        · cases hkey.symm.trans hother
          exact hfree
        · rw [dedupKeyOf, hkey]
        · rw [claimed, hkey]
    | none =>
      have hmay : MayClaim spec prepared :=
        ⟨hsingle, fun other hother => (by cases hkey.symm.trans hother)⟩
      rw [hkey] at h
      cases hdedup : spec.dedupKey with
      | some given =>
        rw [hdedup] at h
        cases h
        refine ⟨hmay, ?_, ?_⟩
        · rw [dedupKeyOf, hkey, hdedup]
        · rw [claimed, hkey]
      | none =>
        rw [hdedup] at h
        cases h
        refine ⟨hmay, ?_, ?_⟩
        · rw [dedupKeyOf, hkey, hdedup]
        · rw [claimed, hkey]
  · cases h

theorem claimKey_error {error : FlowError}
    (h : (claimKey host location spec).exec prepared = (.error error, after)) : after = prepared := by
  rw [claimKey, Eff.exec_get_bind, Eff.exec_require_bind] at h
  split at h
  · split at h
    · split at h <;> cases h
      rfl
    · cases h
    · cases h
  · cases h
    rfl

theorem rejectUnknown_ok {allowed : List String} {fields : Fields} {error : String → FlowError}
    (h : ∀ member ∈ fields, member.1 ∈ allowed) : rejectUnknown allowed fields error = .ok () := by
  have hnone : fields.find? (fun member => member.1 ∉ allowed) = none := by
    rw [List.find?_eq_none]
    intro member hmember
    rw [decide_eq_true_eq, not_not]
    exact h member hmember
  rw [rejectUnknown, hnone]
  rfl

section Hash

variable [Witness.Libraries]

/-- Every member that is hashed has its place in the contract. -/
theorem payloadMembers_known {credentials : Value} {member : String × Value}
    (h : member ∈ payloadMembers spec credentials) : member.1 ∈ flowCanonicalPayloadFields := by
  obtain ⟨entry, hentry, hmember⟩ := List.mem_filterMap.mp h
  obtain ⟨value, -, rfl⟩ := Option.map_eq_some_iff.mp hmember
  have hname := List.mem_map_of_mem (f := Prod.fst) hentry
  revert hname
  generalize entry.1 = name
  intro hname
  simp only [List.map_cons, List.map_nil] at hname
  revert name
  decide

/-- The only way in which the hash fails. -/
theorem canonicalPayloadHash_error {credentials : Table String PathBuf} {error : FlowError}
    (h : canonicalPayloadHash spec credentials = .error error) : error.code = "payload-serialization" := by
  rw [canonicalPayloadHash] at h
  cases hvalue : credentialsValue credentials with
  | none =>
    rw [hvalue] at h
    cases h
    rfl
  | some value =>
    rw [hvalue] at h
    change (rejectUnknown _ _ _ >>= fun _ => _) = _ at h
    rw [rejectUnknown_ok fun member => payloadMembers_known] at h
    cases h

end Hash

/-- What preparing a node comes to when it is accepted. -/
structure Accepts (host : HostShared) (plan : SubmissionPlan) (prepared after : Prepared) : Prop where
  mayClaim : MayClaim plan.submission.spec prepared
  key : plan.submission.dedupKey = dedupKeyOf host plan.submission.spec prepared.nextOrdinal
  ordinal : plan.ordinal = prepared.nextOrdinal
  nodeOrdinal : plan.submission.orchestration.nodeOrdinal = prepared.nextOrdinal
  next : after.nextOrdinal = prepared.nextOrdinal + 1
  keys : after.ordinalKeys = prepared.ordinalKeys ++ [plan.submission.dedupKey]
  explicitKeys : after.explicitKeys =
    (claimed plan.submission.spec plan.location prepared).explicitKeys

theorem countCall_spec {result : Except FlowError Unit}
    (h : (countCall host location).exec prepared = (result, after)) :
    ∃ counts, after = { prepared with iterationCounts := counts } := by
  rw [countCall, Eff.exec_get_bind, Eff.exec_set_bind] at h
  cases h
  exact ⟨_, rfl⟩

section Prepare

variable [Schemas] [Witness.Libraries] {revisions : NodeRevisions} {settle : Bool}

/-- A node is refused: it gets no ordinal and claims no key, unless its credentials cannot be
written. -/
theorem prepareSubmission_error {error : FlowError}
    (h : (prepareSubmission host location spec revisions settle).exec prepared = (.error error, after)) :
    after.nextOrdinal = prepared.nextOrdinal ∧ after.ordinalKeys = prepared.ordinalKeys ∧
      (after.explicitKeys = prepared.explicitKeys ∨
        error.code = "payload-serialization" ∧ ∃ spec : NodeSpec, MayClaim spec prepared ∧
          after.explicitKeys = (claimed spec location prepared).explicitKeys) := by
  rw [prepareSubmission, Eff.exec_ofExcept_bind] at h
  split at h
  · next spec _ =>
    rcases Eff.exec_bind_cases h with ⟨_, counted, hcount, h⟩ | ⟨_, hcount, -⟩
    · obtain ⟨counts, rfl⟩ := countCall_spec hcount
      rcases Eff.exec_bind_cases h with ⟨key, mid, hclaim, h⟩ | ⟨_, hclaim, -⟩
      · obtain ⟨hmay, -, rfl⟩ := claimKey_ok hclaim
        dsimp only at h
        rw [Eff.exec_ofExcept_bind] at h
        split at h
        · cases h
        · next hhash =>
          cases h
          refine ⟨?_, ?_, .inr ⟨canonicalPayloadHash_error hhash, spec, ⟨hmay.single, hmay.free⟩, ?_⟩⟩
          all_goals rw [claimed]
          · split <;> rfl
          · split <;> rfl
          · rw [claimed]
            cases spec.key <;> rfl
      · rw [claimKey_error hclaim]
        exact ⟨rfl, rfl, .inl rfl⟩
    · obtain ⟨counts, rfl⟩ := countCall_spec hcount
      exact ⟨rfl, rfl, .inl rfl⟩
  · cases h
    exact ⟨rfl, rfl, .inl rfl⟩

theorem prepareSubmission_ok {plan : SubmissionPlan}
    (h : (prepareSubmission host location spec revisions settle).exec prepared = (.ok plan, after)) :
    Accepts host plan prepared after := by
  rw [prepareSubmission, Eff.exec_ofExcept_bind] at h
  split at h
  · next spec _ =>
    rcases Eff.exec_bind_cases h with ⟨_, counted, hcount, h⟩ | ⟨_, -, h⟩
    · obtain ⟨counts, rfl⟩ := countCall_spec hcount
      rcases Eff.exec_bind_cases h with ⟨key, mid, hclaim, h⟩ | ⟨_, -, h⟩
      · obtain ⟨hmay, hkey, rfl⟩ := claimKey_ok hclaim
        dsimp only at h
        rw [Eff.exec_ofExcept_bind] at h
        split at h
        · rw [Eff.exec_get_bind, Eff.exec_set_bind] at h
          cases h
          have hnext : (claimed spec location { prepared with iterationCounts := counts }).nextOrdinal =
              prepared.nextOrdinal := by
            rw [claimed]
            split <;> rfl
          refine ⟨⟨hmay.single, hmay.free⟩, hkey, hnext, hnext, congrArg (· + 1) hnext, ?_, ?_⟩
          · rw [claimed]
            split <;> rfl
          · rw [claimed, claimed]
            cases spec.key <;> rfl
        · cases h
      · cases h
    · cases h
  · cases h

end Prepare

/-! ## Errors of the frontier -/

/-- An error of this kind comes from `finish_admission` or from the sink. -/
def IsOrderCorrupt (error : FlowError) : Prop :=
  error.code = "admission-order-corrupt" ∧ error.name = "FlowReplayError"

/-- No error of the frontier has ended the run. -/
def Sound (state : HostState) : Prop := ∀ error, state.fatal = some error → ¬ IsOrderCorrupt error

theorem nodeError_sound {plan : SubmissionPlan} {name code message : String} (h : code ≠ "admission-order-corrupt") :
    ¬ IsOrderCorrupt (nodeError plan name code message) := fun hcorrupt => absurd hcorrupt.1 h

/-- The details do not matter. -/
theorem detail_sound {error : FlowError} (h : ¬ IsOrderCorrupt error) {key : String} {value : Value} :
    ¬ IsOrderCorrupt (error.detail key value) := h

theorem withRecoveryFacts_sound {error : FlowError} (h : ¬ IsOrderCorrupt error) :
    ¬ IsOrderCorrupt (withRecoveryFacts error) := by
  rwa [IsOrderCorrupt, withRecoveryFacts_code, withRecoveryFacts_name]

theorem extend_code_name (error : FlowError) (details : Fields) :
    (error.extend details).code = error.code ∧ (error.extend details).name = error.name := by
  induction details generalizing error with
  | nil => exact ⟨rfl, rfl⟩
  | cons member rest ih => exact ih (error.detail member.1 member.2)

theorem addTo_code_name (error : ClientError) (flowError : FlowError) :
    (error.addTo flowError).code = flowError.code ∧ (error.addTo flowError).name = flowError.name := by
  rw [ClientError.addTo]
  split
  · exact ⟨rfl, rfl⟩
  · dsimp only
    split
    · split
      · exact extend_code_name flowError _
      · exact ⟨rfl, rfl⟩
    · exact ⟨rfl, rfl⟩

theorem intoFlow_code (error : ClientError) (location : SourceLocation) (ordinal : Nat) :
    (error.intoFlow location ordinal).code = error.code := by
  rw [ClientError.intoFlow, withRecoveryFacts_code, (addTo_code_name _ _).1]
  rfl

theorem intoFlow_sound (error : ClientError) (location : SourceLocation) (ordinal : Nat) :
    ¬ IsOrderCorrupt (error.intoFlow location ordinal) := by
  intro hcorrupt
  obtain ⟨hcode, hname⟩ := hcorrupt
  rw [intoFlow_code] at hcode
  rw [ClientError.intoFlow, withRecoveryFacts_name, (addTo_code_name _ _).2] at hname
  dsimp only [FlowError.withOrdinal, FlowError.at, FlowError.new] at hname
  rw [hcode] at hname
  exact absurd hname (by decide)

/-- A client error of the family has the fourteen members, whatever the client says of it. -/
theorem intoFlow_fields {error : ClientError} (h : isSupersessionCode error.code = true)
    (location : SourceLocation) (ordinal : Nat) :
    supersessionDetailFields <+: (error.intoFlow location ordinal).details.map Prod.fst := by
  rw [ClientError.intoFlow]
  apply fields_prefix_of_code
  rw [(addTo_code_name _ _).1]
  exact h

theorem hashMismatch_sound {plan : SubmissionPlan} {admission : Admission} :
    ¬ IsOrderCorrupt (hashMismatch host plan admission) := by
  apply withRecoveryFacts_sound
  split
  · exact detail_sound (detail_sound (detail_sound (nodeError_sound (by decide))))
  · intro hcorrupt
    have hcode : "replay-divergence" = "admission-order-corrupt" := hcorrupt.1
    exact absurd hcode (by decide)

/-- What the runner finds itself is stamped twice and reported as if it were once. -/
theorem hashMismatch_eq {plan : SubmissionPlan} {admission : Admission}
    (h : admission.disposition ≠ .created) :
    ∃ message fields, hashMismatch host plan admission =
      ((supersessionError "replay-divergence" message fields).at plan.location).withOrdinal
        plan.ordinal := by
  have hcode : isSupersessionCode "replay-divergence" = true := by decide
  rw [hashMismatch, if_neg h]
  exact ⟨_, _, withRecoveryFacts_of_details hcode rfl⟩

/-! ## Polling -/

/-- What a poll keeps unless it admits a node. -/
def admissions (state : HostState) : Prepared × Nat × List FlowSubmission × Option FlowError :=
  (state.toPrepared, state.admissionFrontier, state.submits, state.fatal)

/-- The future is past the submission. -/
def Execution.Passed : Execution → Prop
  | .admission _ | .submit _ => False
  | .terminal _ _ | .observation _ _ _ | .finished _ _ => True

def PassedOf (plan : SubmissionPlan) (execution : Execution) : Prop :=
  execution.plan = plan ∧ execution.Passed

section Poll

open Eff

variable {answers : Answers} {plan : SubmissionPlan} {state state' : HostState}

theorem emit_admissions {event : Value} : Preserves admissions (emit answers event) := fun _ => rfl

theorem registerObservation_admissions {witnessSeq ordinal : Nat} :
    Preserves admissions (registerObservation witnessSeq ordinal) := fun _ => rfl

theorem pollObservation_admissions {settled : Settled} {token : Nat} :
    Preserves admissions (pollObservation host answers plan settled token) := by
  refine .get_bind fun state => ?_
  cases hfatal : state.fatal with
  | some error => rfl
  | none =>
    dsimp only
    split
    · rw [exec_set_bind]
      refine ((emit_admissions.bind fun _ => .pure _) _).trans ?_
      rw [admissions, admissions, hfatal]
    · rfl

theorem pollObservation_returns {settled : Settled} {token : Nat} :
    Returns (PassedOf plan) (pollObservation host answers plan settled token) := by
  refine .bind fun state => ?_
  cases state.fatal with
  | some error => exact .throw _
  | none =>
    dsimp only
    split
    · exact .bind fun _ => .bind fun _ => .pure ⟨rfl, trivial⟩
    · exact .pure ⟨rfl, trivial⟩

/-- The turn of a node ends, or the run does. -/
structure Turned (before after : HostState) : Prop where
  prepared : after.toPrepared = before.toPrepared
  submits : after.submits = before.submits
  frontier : after.admissionFrontier = before.admissionFrontier ∨
    after.admissionFrontier = before.admissionFrontier + 1
  sound : Sound before → Sound after

theorem Turned.keep {before mid after : HostState} (h : Turned before mid)
    (hkeep : admissions after = admissions mid) : Turned before after := by
  rw [admissions, admissions, Prod.mk.injEq, Prod.mk.injEq, Prod.mk.injEq] at hkeep
  obtain ⟨hprepared, hfrontier, hsubmits, hfatal⟩ := hkeep
  refine ⟨hprepared.trans h.prepared, hsubmits.trans h.submits, ?_, fun hsound error herror => ?_⟩
  · rw [hfrontier]
    exact h.frontier
  · exact h.sound hsound error (hfatal ▸ herror)

theorem finishAdmission_turned (ordinal : Nat) (disposition : Option Disposition) (state : HostState) :
    Turned state ((finishAdmission answers ordinal disposition).exec state).2 := by
  rw [finishAdmission, exec_get_bind, exec_require_bind]
  split
  · rw [exec_set_bind]
    have hturned : Turned state { state with
        pendingLogs := state.pendingLogs.erase ordinal
        admissionFrontier := state.admissionFrontier + 1 } := ⟨rfl, rfl, .inr rfl, fun h => h⟩
    apply hturned.keep
    split
    · exact Preserves.forM (fun _ => emit_admissions) _
    · rfl
  · exact ⟨rfl, rfl, .inl rfl, fun h => h⟩

/-- After `finish_admission` nothing else moves the frontier. -/
theorem finishAdmission_bind_turned {ordinal : Nat} {disposition : Option Disposition}
    {next : Unit → HostM Execution} (hnext : Preserves admissions (next ())) (state : HostState) :
    Turned state ((finishAdmission answers ordinal disposition >>= next).exec state).2 := by
  have hfinish := @finishAdmission_turned answers ordinal disposition state
  rw [exec_bind]
  rcases hexec : exec (finishAdmission answers ordinal disposition) state with ⟨error | ⟨⟩, mid⟩
  · rwa [hexec] at hfinish
  · rw [hexec] at hfinish
    exact hfinish.keep (hnext mid)

theorem setFatal_turned {error : FlowError} (herror : ¬ IsOrderCorrupt error) (state : HostState) :
    Turned state (setFatal error state) := by
  refine ⟨rfl, rfl, .inl rfl, fun hsound other hother => ?_⟩
  rw [setFatal, Option.some.injEq] at hother
  subst hother
  cases hfatal : state.fatal with
  | none => exact herror
  | some first => exact hsound first hfatal

section Terminal

variable [Validators] {admission : Admission}

theorem observeResult_admissions {result : NodeResult} :
    Preserves admissions (observeResult host answers plan admission result) :=
  (Preserves.ofExcept _).bind fun _ => registerObservation_admissions.bind fun _ =>
    pollObservation_admissions

theorem observeResult_returns {result : NodeResult} :
    Returns (PassedOf plan) (observeResult host answers plan admission result) :=
  .bind fun _ => .bind fun _ => pollObservation_returns

theorem pollTerminal_admissions :
    Preserves admissions (pollTerminal host answers plan admission) := by
  rw [pollTerminal]
  split
  · exact .pure _
  · exact .throw _
  · exact observeResult_admissions

theorem pollTerminal_returns : Returns (PassedOf plan) (pollTerminal host answers plan admission) := by
  rw [pollTerminal]
  split
  · exact .pure ⟨rfl, trivial⟩
  · exact .throw _
  · exact observeResult_returns

theorem terminalResult_admissions :
    Preserves admissions (terminalResult host answers plan admission) := by
  rw [terminalResult]
  split
  · exact observeResult_admissions
  · exact pollTerminal_admissions
  · exact pollTerminal_admissions
  · exact .throw _

theorem terminalResult_returns :
    Returns (PassedOf plan) (terminalResult host answers plan admission) := by
  rw [terminalResult]
  split
  · exact observeResult_returns
  · exact pollTerminal_returns
  · exact pollTerminal_returns
  · exact .throw _

theorem admitted_turned (answer : Except ClientError Admission) (state : HostState) :
    Turned state ((admitted host answers plan answer).exec state).2 := by
  cases answer with
  | error error =>
    rw [admitted]
    dsimp only
    split
    · exact setFatal_turned (intoFlow_sound _ _ _) _
    · exact finishAdmission_bind_turned (.throw _) state
  | ok admission =>
    rw [admitted]
    split
    · exact finishAdmission_bind_turned (.throw _) state
    · split
      · exact setFatal_turned hashMismatch_sound _
      · exact finishAdmission_bind_turned (emit_admissions.bind fun _ => terminalResult_admissions) state

theorem admitted_returns (answer : Except ClientError Admission) :
    Returns (PassedOf plan) (admitted host answers plan answer) := by
  cases answer with
  | error error =>
    rw [admitted]
    dsimp only
    split
    · exact .bind fun _ => .throw _
    · exact .bind fun _ => .throw _
  | ok admission =>
    rw [admitted]
    split
    · exact .bind fun _ => .throw _
    · split
      · exact .bind fun _ => .throw _
      · exact .bind fun _ => .bind fun _ => terminalResult_returns

/-- The client has been asked. -/
def ask (plan : SubmissionPlan) (state : HostState) : HostState :=
  { state with submits := state.submits ++ [plan.submission] }

/-- What a poll does for the order of admission. -/
inductive Polled : Execution → HostState → Execution → HostState → Prop
  | still (execution : Execution) (state : HostState) : Polled execution state execution state
  | kept {execution next : Execution} {state after : HostState} (hnext : PassedOf execution.plan next)
      (hkeep : admissions after = admissions state) : Polled execution state next after
  | asked {plan : SubmissionPlan} {state : HostState} (hturn : state.admissionFrontier = plan.ordinal) :
      Polled (.admission plan) state (.submit plan) (ask plan state)
  | answered {plan : SubmissionPlan} {next : Execution} {state after : HostState}
      (hnext : PassedOf plan next) (hturned : Turned state after) :
      Polled (.submit plan) state next after
  | through {plan : SubmissionPlan} {next : Execution} {state after : HostState}
      (hturn : state.admissionFrontier = plan.ordinal) (hnext : PassedOf plan next)
      (hturned : Turned (ask plan state) after) : Polled (.admission plan) state next after

theorem passedOf_poll {execution : Execution} {x : HostM Execution}
    (h : pollPhase host answers execution = x) (hx : Returns (PassedOf execution.plan) x) :
    PassedOf execution.plan (poll host answers execution state).1 := by
  subst h
  rw [poll]
  rcases hexec : exec (pollPhase host answers execution) state with ⟨error | next, after⟩
  · exact ⟨rfl, trivial⟩
  · exact hx _ _ _ hexec

theorem poll_snd (execution : Execution) :
    (poll host answers execution state).2 = (exec (pollPhase host answers execution) state).2 := by
  rw [poll]
  rcases exec (pollPhase host answers execution) state with ⟨error | next, after⟩ <;> rfl

theorem polled_kept {execution : Execution} (hreturns : Returns (PassedOf execution.plan)
    (pollPhase host answers execution)) (hkeep : Preserves admissions (pollPhase host answers execution)) :
    Polled execution state (poll host answers execution state).1 (poll host answers execution state).2 := by
  refine .kept (passedOf_poll rfl hreturns) ?_
  rw [poll_snd]
  exact hkeep state

theorem polled (execution : Execution) (state : HostState) :
    Polled execution state (poll host answers execution state).1 (poll host answers execution state).2 := by
  cases execution with
  | terminal plan admission => exact polled_kept pollTerminal_returns pollTerminal_admissions
  | observation plan settled token => exact polled_kept pollObservation_returns pollObservation_admissions
  | finished plan outcome => exact .still _ _
  | submit plan =>
    cases hanswer : answers.submit plan.submission with
    | none =>
      rw [poll, pollPhase, pollSubmit, hanswer]
      exact .still _ _
    | some answer =>
      have hphase : pollPhase host answers (.submit plan) = admitted host answers plan answer := by
        rw [pollPhase, pollSubmit, hanswer]
      refine .answered (passedOf_poll hphase (admitted_returns answer)) ?_
      rw [poll_snd, hphase]
      exact admitted_turned answer state
  | admission plan =>
    have hexec : exec (pollPhase host answers (.admission plan)) state =
        state.fatal.elim
          (if state.admissionFrontier = plan.ordinal then
            exec (pollSubmit host answers plan) (ask plan state)
          else (.ok (.admission plan), state))
          (fun error => (.error error, state)) := by
      rw [pollPhase, pollAdmission, exec_get_bind]
      cases hfatal : state.fatal with
      | some error => rfl
      | none =>
        dsimp only [Option.elim]
        split
        · rw [exec_set_bind, ask, hfatal]
        · rfl
    rw [poll, hexec]
    cases state.fatal with
    | some error => exact .kept ⟨rfl, trivial⟩ rfl
    | none =>
      by_cases hturn : state.admissionFrontier = plan.ordinal
      · simp only [if_pos hturn]
        cases hanswer : answers.submit plan.submission with
        | none =>
          simp only [pollSubmit, hanswer, exec_pure]
          exact .asked hturn
        | some answer =>
          simp only [pollSubmit, hanswer]
          have hturned := @admitted_turned host answers plan _ answer (ask plan state)
          rcases hadmitted : exec (admitted host answers plan answer) (ask plan state) with
            ⟨error | next, after⟩
          · rw [hadmitted] at hturned
            exact .through hturn ⟨rfl, trivial⟩ hturned
          · rw [hadmitted] at hturned
            exact .through hturn (admitted_returns answer _ _ _ hadmitted) hturned
      · simp only [if_neg hturn]
        exact .still _ _

end Terminal

end Poll

/-! ## The order of admission -/

/-- The ordinal that a submission carries. -/
def FlowSubmission.ordinal (submission : FlowSubmission) : Nat := submission.orchestration.nodeOrdinal

structure Admitting (host : HostShared) (run : FlowRun) : Prop where
  next : run.host.nextOrdinal = run.futures.length
  keys : run.host.ordinalKeys = run.futures.map (·.plan.submission.dedupKey)
  ordinal : ∀ (i : Nat) e, run.futures[i]? = some e → e.plan.ordinal = i ∧ e.plan.submission.ordinal = i
  dedupKey : ∀ (i : Nat) e, run.futures[i]? = some e →
    e.plan.submission.dedupKey = dedupKeyOf host e.plan.submission.spec i
  claimed : ∀ e ∈ run.futures, ∀ key, e.plan.submission.spec.key = some key →
    run.host.explicitKeys.get? key ≠ none
  distinct : run.futures.Pairwise fun a b => ∀ key, a.plan.submission.spec.key = some key →
    b.plan.submission.spec.key ≠ some key
  frontier : run.host.admissionFrontier ≤ run.futures.length
  submit : ∀ (i : Nat) plan, run.futures[i]? = some (.submit plan) → i = run.host.admissionFrontier
  ascending : (run.host.submits.map (·.ordinal)).Pairwise (· < ·)
  below : ∀ s ∈ run.host.submits, s.ordinal ≤ run.host.admissionFrontier
  asked : ∀ s ∈ run.host.submits, s.ordinal < run.futures.length
  turn : ∀ s ∈ run.host.submits, s.ordinal = run.host.admissionFrontier →
    ∀ plan, run.futures[run.host.admissionFrontier]? ≠ some (.admission plan)
  sound : Sound run.host

theorem admitting_init : Admitting host {} where
  next := rfl
  keys := rfl
  ordinal _ _ h := nomatch h
  dedupKey _ _ h := nomatch h
  claimed _ h := nomatch h
  distinct := .nil
  frontier := Nat.zero_le _
  submit _ _ h := nomatch h
  ascending := .nil
  below _ h := nomatch h
  asked _ h := nomatch h
  turn _ h := nomatch h
  sound _ h := nomatch h

namespace Admitting

variable {run : FlowRun}

/-- Steps that touch nothing that the order of admission is about. -/
theorem of_admissions {state : HostState} (h : Admitting host run)
    (hkeep : admissions state = admissions run.host) : Admitting host { run with host := state } := by
  rw [admissions, admissions, Prod.mk.injEq, Prod.mk.injEq, Prod.mk.injEq] at hkeep
  obtain ⟨hprepared, hfrontier, hsubmits, hfatal⟩ := hkeep
  obtain ⟨next, keys, ordinal, dedupKey, claimed, distinct, frontier, submit, ascending, below, asked, turn, sound⟩ := h
  constructor
  all_goals simp only [hprepared, hfrontier, hsubmits, Sound, hfatal]
  all_goals assumption

/-- A key that was claimed stays so. -/
theorem claimed_keys {plan : SubmissionPlan} {prepared after : Prepared} (h : Accepts host plan prepared after)
    {key : String} : after.explicitKeys.get? key ≠ none ↔
      prepared.explicitKeys.get? key ≠ none ∨ plan.submission.spec.key = some key := by
  rw [h.explicitKeys, Tally.Flow.claimed]
  cases hkey : plan.submission.spec.key with
  | none => simp
  | some own =>
    dsimp only
    rw [Dict.get?_insert]
    split
    · next heq =>
      subst heq
      simp
    · next hne => simp [Ne.symm hne]

theorem accept {plan : SubmissionPlan} {prepared : Prepared} (h : Admitting host run)
    (haccepts : Accepts host plan run.host.toPrepared prepared) :
    Admitting host ⟨{ run.host with toPrepared := prepared }, run.futures ++ [.admission plan]⟩ := by
  have hlast : ∀ {i : Nat} {e}, (run.futures ++ [.admission plan])[i]? = some e →
      run.futures[i]? = some e ∨ i = run.host.nextOrdinal ∧ e = .admission plan := by
    intro i e hi
    rw [List.getElem?_append] at hi
    split at hi
    · exact .inl hi
    · next hlt =>
      have hi := List.getElem?_eq_some_iff.mp hi
      obtain ⟨hlength, rfl⟩ := hi
      rw [List.length_singleton] at hlength
      rw [h.next]
      exact .inr ⟨by omega, by simp⟩
  constructor
  · dsimp only
    rw [haccepts.next, h.next, List.length_append, List.length_singleton]
  · dsimp only
    rw [haccepts.keys, h.keys, List.map_append]
    rfl
  · intro i e hi
    rcases hlast hi with hi | ⟨rfl, rfl⟩
    · exact h.ordinal i e hi
    · exact ⟨haccepts.ordinal, haccepts.nodeOrdinal⟩
  · intro i e hi
    rcases hlast hi with hi | ⟨rfl, rfl⟩
    · exact h.dedupKey i e hi
    · exact haccepts.key
  · intro e he key hkey
    rw [claimed_keys haccepts]
    rcases List.mem_append.mp he with he | he
    · exact .inl (h.claimed e he key hkey)
    · cases List.mem_singleton.mp he
      exact .inr hkey
  · rw [List.pairwise_append]
    refine ⟨h.distinct, List.pairwise_singleton .., fun a ha b hb key hkey hother => ?_⟩
    cases List.mem_singleton.mp hb
    exact h.claimed a ha key hkey (haccepts.mayClaim.free key hother)
  · dsimp only
    rw [List.length_append]
    exact h.frontier.trans (Nat.le_add_right ..)
  · intro i other hi
    rcases hlast hi with hi | ⟨-, hi⟩
    · exact h.submit i other hi
    · cases hi
  · exact h.ascending
  · exact h.below
  · intro s hs
    dsimp only
    rw [List.length_append]
    exact (h.asked s hs).trans_le (Nat.le_add_right ..)
  · -- the new future has an ordinal that nobody has asked for
    intro s hs hordinal other hother
    rcases hlast hother with hother | ⟨hfrontier, -⟩
    · exact h.turn s hs hordinal other hother
    · have hasked := h.asked s hs
      rw [hordinal] at hasked
      rw [h.next] at hfrontier
      exact absurd (hfrontier ▸ hasked) (lt_irrefl _)
  · exact h.sound

/-- A refused node changes at most who has claimed which key. -/
theorem refuse {prepared : Prepared} (h : Admitting host run)
    (hnext : prepared.nextOrdinal = run.host.nextOrdinal)
    (hkeys : prepared.ordinalKeys = run.host.ordinalKeys)
    (hclaimed : ∀ key, run.host.explicitKeys.get? key ≠ none → prepared.explicitKeys.get? key ≠ none) :
    Admitting host { run with host := { run.host with toPrepared := prepared } } where
  next := hnext.trans h.next
  keys := hkeys.trans h.keys
  ordinal := h.ordinal
  dedupKey := h.dedupKey
  claimed e he key hkey := hclaimed key (h.claimed e he key hkey)
  distinct := h.distinct
  frontier := h.frontier
  submit := h.submit
  ascending := h.ascending
  below := h.below
  asked := h.asked
  turn := h.turn
  sound := h.sound

/-- The plans of the futures do not change. -/
theorem of_set {index : Nat} {execution next : Execution} {state : HostState} (h : Admitting host run)
    (hfuture : run.futures[index]? = some execution) (hplan : next.plan = execution.plan)
    (hprepared : state.toPrepared = run.host.toPrepared)
    (hfrontier : state.admissionFrontier ≤ run.futures.length)
    (hsubmit : ∀ (i : Nat) plan, (run.futures.set index next)[i]? = some (.submit plan) →
      i = state.admissionFrontier)
    (hascending : (state.submits.map (·.ordinal)).Pairwise (· < ·))
    (hbelow : ∀ s ∈ state.submits, s.ordinal ≤ state.admissionFrontier)
    (hasked : ∀ s ∈ state.submits, s.ordinal < run.futures.length)
    (hturn : ∀ s ∈ state.submits, s.ordinal = state.admissionFrontier →
      ∀ plan, (run.futures.set index next)[state.admissionFrontier]? ≠ some (.admission plan))
    (hsound : Sound state) : Admitting host ⟨state, run.futures.set index next⟩ := by
  have hplans : (run.futures.set index next).map Execution.plan = run.futures.map Execution.plan := by
    rw [List.map_set, hplan]
    apply List.ext_getElem?
    intro i
    rw [List.getElem?_set, List.getElem?_map]
    split
    · next heq =>
      subst heq
      split
      · rw [hfuture]
        rfl
      · next hlt => rw [List.getElem?_eq_none (by rw [List.length_map] at hlt; omega)]; rfl
    · rfl
  have hold : ∀ {i : Nat} {e}, (run.futures.set index next)[i]? = some e →
      ∃ old, run.futures[i]? = some old ∧ old.plan = e.plan := by
    intro i e hi
    have hi' : ((run.futures.set index next).map Execution.plan)[i]? = some e.plan := by
      rw [List.getElem?_map, hi]
      rfl
    rw [hplans, List.getElem?_map, Option.map_eq_some_iff] at hi'
    exact hi'
  constructor
  · dsimp only
    rw [hprepared, List.length_set]
    exact h.next
  · dsimp only
    rw [hprepared, h.keys]
    have := congrArg (List.map (·.submission.dedupKey)) hplans
    rw [List.map_map, List.map_map] at this
    exact this.symm
  · intro i e hi
    obtain ⟨old, hi, hplan⟩ := hold hi
    rw [← hplan]
    exact h.ordinal i old hi
  · intro i e hi
    obtain ⟨old, hi, hplan⟩ := hold hi
    rw [← hplan]
    exact h.dedupKey i old hi
  · intro e he key hkey
    dsimp only
    rw [hprepared]
    obtain ⟨i, hi⟩ := List.getElem?_of_mem he
    obtain ⟨old, hi, hplan⟩ := hold hi
    rw [← hplan] at hkey
    exact h.claimed old (List.mem_of_getElem? hi) key hkey
  · have hdistinct := h.distinct
    change (run.futures.set index next).Pairwise _
    rw [← List.pairwise_map (f := Execution.plan)
      (R := fun a b => ∀ key, a.submission.spec.key = some key → b.submission.spec.key ≠ some key)] at hdistinct ⊢
    rwa [hplans]
  · dsimp only
    rwa [List.length_set]
  · exact hsubmit
  · exact hascending
  · exact hbelow
  · dsimp only
    rwa [List.length_set]
  · exact hturn
  · exact hsound

theorem ordinal_of {index : Nat} {plan : SubmissionPlan} (h : Admitting host run)
    (hfuture : run.futures[index]? = some (.admission plan)) : plan.submission.ordinal = index :=
  (h.ordinal index _ hfuture).2

/-- A node whose turn it is has not been submitted before. -/
theorem submits_lt {index : Nat} {plan : SubmissionPlan} (h : Admitting host run)
    (hfuture : run.futures[index]? = some (.admission plan))
    (hindex : index = run.host.admissionFrontier) :
    ∀ s ∈ run.host.submits, s.ordinal < run.host.admissionFrontier := by
  subst hindex
  intro s hs
  exact lt_of_le_of_ne (h.below s hs) fun heq => h.turn s hs heq plan hfuture

/-- The submissions with the one whose turn it is. -/
theorem ascending_ask {index : Nat} {plan : SubmissionPlan} (h : Admitting host run)
    (hfuture : run.futures[index]? = some (.admission plan))
    (hindex : index = run.host.admissionFrontier) :
    ((ask plan run.host).submits.map (·.ordinal)).Pairwise (· < ·) := by
  rw [ask, List.map_append, List.pairwise_append]
  refine ⟨h.ascending, List.pairwise_singleton .., fun a ha b hb => ?_⟩
  obtain ⟨s, hs, rfl⟩ := List.mem_map.mp ha
  rw [List.map_singleton, List.mem_singleton] at hb
  rw [hb, h.ordinal_of hfuture, hindex]
  exact h.submits_lt hfuture hindex s hs

theorem mem_ask {index : Nat} {plan : SubmissionPlan} (h : Admitting host run)
    (hfuture : run.futures[index]? = some (.admission plan))
    (hindex : index = run.host.admissionFrontier) :
    ∀ s ∈ (ask plan run.host).submits,
      s.ordinal ≤ run.host.admissionFrontier ∧ s.ordinal < run.futures.length := by
  have hlt := (List.getElem?_eq_some_iff.mp hfuture).1
  intro s hs
  rcases List.mem_append.mp hs with hs | hs
  · exact ⟨h.below s hs, h.asked s hs⟩
  · rw [List.mem_singleton.mp hs, h.ordinal_of hfuture, ← hindex]
    exact ⟨le_rfl, hlt⟩

/-- The future whose turn it is has been taken past its submission. -/
theorem turned {index : Nat} {execution next : Execution} {submits : List FlowSubmission}
    {state : HostState} (h : Admitting host run) (hfuture : run.futures[index]? = some execution)
    (hindex : index = run.host.admissionFrontier) (hnext : PassedOf execution.plan next)
    (hascending : (submits.map (·.ordinal)).Pairwise (· < ·))
    (hsubmits : ∀ s ∈ submits, s.ordinal ≤ run.host.admissionFrontier ∧ s.ordinal < run.futures.length)
    (hturned : Turned { run.host with submits := submits } state) :
    Admitting host ⟨state, run.futures.set index next⟩ := by
  obtain ⟨hprepared, hasked, hfrontier, hsound⟩ := hturned
  dsimp only at hprepared hasked hfrontier
  have hlt := (List.getElem?_eq_some_iff.mp hfuture).1
  have hset : ∀ {i : Nat} {e}, (run.futures.set index next)[i]? = some e →
      i ≠ index ∧ run.futures[i]? = some e ∨ e.Passed := by
    intro i e hi
    rcases eq_or_ne i index with rfl | hne
    · rw [List.getElem?_set_self hlt] at hi
      cases hi
      exact .inr hnext.2
    · rw [List.getElem?_set_ne hne.symm] at hi
      exact .inl ⟨hne, hi⟩
  refine h.of_set hfuture hnext.1 hprepared ?_ ?_ (hasked ▸ hascending) ?_ ?_ ?_ (hsound h.sound)
  · omega
  · intro i plan hi
    rcases hset hi with ⟨hne, hi⟩ | hpassed
    · exact absurd ((h.submit i plan hi).trans hindex.symm) hne
    · exact hpassed.elim
  · intro s hs
    have := (hsubmits s (hasked ▸ hs)).1
    omega
  · intro s hs
    exact (hsubmits s (hasked ▸ hs)).2
  · intro s hs hordinal plan hi
    have hle := (hsubmits s (hasked ▸ hs)).1
    rcases hset hi with ⟨hne, -⟩ | hpassed
    · omega
    · exact hpassed

end Admitting

theorem Admitting.poll [Validators] {run : FlowRun} {index : Nat} {execution : Execution}
    (h : Admitting host run) (hfuture : run.futures[index]? = some execution) (answers : Answers) :
    Admitting host ⟨(poll host answers execution run.host).2,
      run.futures.set index (poll host answers execution run.host).1⟩ := by
  have hlt := (List.getElem?_eq_some_iff.mp hfuture).1
  generalize hstate : run.host = state
  have hpolled := @polled host answers _ execution state
  revert hpolled
  generalize Tally.Flow.poll host answers execution state = result
  obtain ⟨next, after⟩ := result
  intro hpolled
  dsimp only at hpolled ⊢
  cases hpolled with
  | still =>
    subst hstate
    rw [← (List.getElem?_eq_some_iff.mp hfuture).2, List.set_getElem_self]
    exact h
  | kept hnext hkeep =>
    subst hstate
    rw [admissions, admissions, Prod.mk.injEq, Prod.mk.injEq, Prod.mk.injEq] at hkeep
    obtain ⟨hprepared, hfrontier, hsubmits, hfatal⟩ := hkeep
    have hset : ∀ {i : Nat} {e}, (run.futures.set index next)[i]? = some e →
        run.futures[i]? = some e ∨ e.Passed := by
      intro i e hi
      rcases eq_or_ne i index with rfl | hne
      · rw [List.getElem?_set_self hlt] at hi
        cases hi
        exact .inr hnext.2
      · rw [List.getElem?_set_ne hne.symm] at hi
        exact .inl hi
    refine h.of_set hfuture hnext.1 hprepared ?_ ?_ ?_ ?_ ?_ ?_ ?_
    all_goals simp only [hfrontier, hsubmits, Sound, hfatal]
    · exact h.frontier
    · intro i plan hi
      rcases hset hi with hi | hpassed
      · exact h.submit i plan hi
      · exact hpassed.elim
    · exact h.ascending
    · exact h.below
    · exact h.asked
    · intro s hs hordinal plan hi
      rcases hset hi with hi | hpassed
      · exact h.turn s hs hordinal plan hi
      · exact hpassed
    · exact h.sound
  | @asked plan _ hturn =>
    subst hstate
    have hindex := (h.ordinal index _ hfuture).1.symm.trans hturn.symm
    refine h.of_set hfuture rfl rfl h.frontier ?_ (h.ascending_ask hfuture hindex)
      (fun s hs => (h.mem_ask hfuture hindex s hs).1) (fun s hs => (h.mem_ask hfuture hindex s hs).2) ?_
      h.sound
    · intro i other hi
      rcases eq_or_ne i index with rfl | hne
      · exact hindex
      · rw [List.getElem?_set_ne hne.symm] at hi
        exact h.submit i other hi
    · intro s hs hordinal other hother
      change (run.futures.set index _)[run.host.admissionFrontier]? = _ at hother
      rw [← hindex, List.getElem?_set_self hlt] at hother
      cases hother
  | @answered plan _ _ _ hnext hturned =>
    subst hstate
    exact h.turned hfuture (h.submit index plan hfuture) hnext h.ascending
      (fun s hs => ⟨h.below s hs, h.asked s hs⟩) hturned
  | @through plan _ _ _ hturn hnext hturned =>
    subst hstate
    have hindex := ((h.ordinal index _ hfuture).1.symm.trans hturn.symm)
    exact h.turned hfuture hindex hnext (h.ascending_ask hfuture hindex) (h.mem_ask hfuture hindex) hturned


section Runs

variable [Validators] [Witness.Libraries] {run : FlowRun}

theorem Admitting.step (h : Admitting host run) (event : RunEvent) :
    Admitting host (run.step host event) := by
  cases event with
  | prepare spec revisions settle location =>
    rw [FlowRun.step, FlowRun.prepare]
    split
    · next plan prepared hexec => exact h.accept (prepareSubmission_ok hexec)
    · next error prepared hexec =>
      obtain ⟨hnext, hkeys, hclaims⟩ := prepareSubmission_error hexec
      refine h.refuse hnext hkeys fun key hkey => ?_
      rcases hclaims with hsame | ⟨-, claimant, -, hclaims⟩
      · rwa [hsame]
      · rw [hclaims, Tally.Flow.claimed]
        split
        · dsimp only
          rw [Dict.get?_insert]
          split
          · exact Option.some_ne_none _
          · exact hkey
        · exact hkey
  | poll index answers =>
    rw [FlowRun.step]
    split
    · exact h
    · next execution hfuture => exact h.poll hfuture answers
  | log message location => exact h.of_admissions rfl
  | release =>
    refine h.of_admissions ?_
    rw [releaseReadyObservation]
    split
    · rfl
    · split <;> rfl

theorem admitting_after (events : List RunEvent) : Admitting host (FlowRun.after host events) := by
  have hfold : ∀ run, Admitting host run → Admitting host (events.foldl (FlowRun.step host) run) := by
    induction events with
    | nil => exact fun _ h => h
    | cons event events ih => exact fun run h => ih _ (h.step event)
  exact hfold {} admitting_init

end Runs


/-! ## The frontier is never passed out of turn -/

/-- The error is not one of the frontier, unless the sink gave it. -/
def InTurn (answers : Answers) (error : FlowError) : Prop :=
  IsOrderCorrupt error → ∃ events event, answers.sink events event = .error error

section InTurn

open Eff

variable {answers : Answers} {plan : SubmissionPlan} {admission : Admission}

theorem inTurn_of_sound {error : FlowError} (h : ¬ IsOrderCorrupt error) : InTurn answers error :=
  fun hcorrupt => absurd hcorrupt h

theorem emit_inTurn {I : HostState → Prop} {event : Value} :
    FailsFrom I (InTurn answers) (emit answers event) := by
  refine .get_bind fun s _ error s' hexec => ?_
  rw [exec_set_bind, exec_ofExcept, Prod.mk.injEq] at hexec
  exact fun _ => ⟨_, _, hexec.1⟩

theorem emit_sound {event : Value} (s : HostState) (h : Sound s) :
    Sound (exec (emit answers event) s).2 := h

theorem pollObservation_inTurn {settled : Settled} {token : Nat} :
    FailsFrom Sound (InTurn answers) (pollObservation host answers plan settled token) := by
  refine .get_bind fun s hs error s' hexec => ?_
  cases hfatal : s.fatal with
  | some fatal =>
    rw [hfatal] at hexec
    cases hexec
    exact fun hcorrupt => absurd hcorrupt (hs _ hfatal)
  | none =>
    rw [hfatal] at hexec
    dsimp only at hexec
    split at hexec
    · rw [exec_set_bind] at hexec
      exact (emit_inTurn (I := fun _ => True)).bind (J := fun _ => True) (fun _ _ => trivial)
        (fun _ => .pure _) _ trivial _ _ hexec
    · cases hexec

section Terminal

variable [Validators]

theorem observeResult_inTurn {result : NodeResult} :
    FailsFrom Sound (InTurn answers) (observeResult host answers plan admission result) := by
  refine FailsFrom.bind (J := Sound) (.ofExcept fun error herror => ?_) (fun _ h => h) fun _ => ?_
  · rw [validateTerminalResult, ensure] at herror
    apply inTurn_of_sound
    split at herror
    · rw [ensure] at herror
      change (if _ then _ else _) = _ at herror
      split at herror
      · cases herror
      · cases herror
        exact nodeError_sound (by decide)
    · cases herror
      exact nodeError_sound (by decide)
  · refine FailsFrom.bind (J := Sound) (fun _ _ _ _ h => (by cases h)) (fun _ h => h) fun _ => ?_
    exact pollObservation_inTurn

theorem pollTerminal_inTurn :
    FailsFrom Sound (InTurn answers) (pollTerminal host answers plan admission) := by
  rw [pollTerminal]
  split
  · exact .pure _
  · exact .throw (inTurn_of_sound (intoFlow_sound _ _ _))
  · exact observeResult_inTurn

theorem terminalResult_inTurn :
    FailsFrom Sound (InTurn answers) (terminalResult host answers plan admission) := by
  rw [terminalResult]
  split
  · exact observeResult_inTurn
  · exact pollTerminal_inTurn
  · exact pollTerminal_inTurn
  · exact .throw (inTurn_of_sound (nodeError_sound (by decide)))

end Terminal

theorem finishAdmission_sound {ordinal : Nat} {disposition : Option Disposition} (s : HostState)
    (h : Sound s) : Sound (exec (finishAdmission answers ordinal disposition) s).2 :=
  (finishAdmission_turned ordinal disposition s).sound h

/-- A node whose turn it is ends its turn. -/
theorem finishAdmission_inTurn {ordinal : Nat} {disposition : Option Disposition} :
    FailsFrom (fun s => Sound s ∧ s.admissionFrontier = ordinal) (InTurn answers)
      (finishAdmission answers ordinal disposition) := by
  refine .get_bind fun s hs error s' hexec => ?_
  rw [exec_require_bind, if_pos hs.2, exec_set_bind] at hexec
  split at hexec
  · exact FailsFrom.forM (I := fun _ => True) (fun _ _ _ => trivial) (fun _ => emit_inTurn) _ trivial _ _
      hexec
  · cases hexec

/-- What follows an answer that ends a run. -/
theorem throw_inTurn {α : Type} {x : HostM Unit} {I : HostState → Prop} {error : FlowError}
    (hx : FailsFrom I (InTurn answers) x) (herror : ¬ IsOrderCorrupt error) :
    FailsFrom I (InTurn answers) (x >>= fun _ => (throw error : HostM α)) :=
  hx.bind (J := fun _ => True) (fun _ _ => trivial) fun _ => .throw (inTurn_of_sound herror)

section Admitted

variable [Validators]

theorem admitted_inTurn (answer : Except ClientError Admission) :
    FailsFrom (fun s => Sound s ∧ s.admissionFrontier = plan.ordinal) (InTurn answers)
      (admitted host answers plan answer) := by
  cases answer with
  | error error =>
    rw [admitted]
    dsimp only
    split
    · exact throw_inTurn (fun _ _ _ _ h => (by cases h)) (intoFlow_sound _ _ _)
    · exact throw_inTurn finishAdmission_inTurn (intoFlow_sound _ _ _)
  | ok admission =>
    rw [admitted]
    split
    · exact throw_inTurn finishAdmission_inTurn (detail_sound (nodeError_sound (by decide)))
    · split
      · exact throw_inTurn (fun _ _ _ _ h => (by cases h)) hashMismatch_sound
      · refine finishAdmission_inTurn.bind (fun s hs => finishAdmission_sound s hs.1) fun _ => ?_
        exact emit_inTurn.bind emit_sound fun _ => terminalResult_inTurn

/-- In a run without such an error, a future whose turn it is or that is past its submission ends with
none. -/
theorem pollPhase_inTurn {execution : Execution} {state : HostState} (hsound : Sound state)
    (hturn : ∀ plan, execution = .submit plan → state.admissionFrontier = plan.ordinal) :
    ∀ error after, exec (pollPhase host answers execution) state = (.error error, after) →
      InTurn answers error := by
  intro error after hexec
  have hsubmit : ∀ plan s, Sound s → s.admissionFrontier = plan.ordinal →
      exec (pollSubmit host answers plan) s = (.error error, after) → InTurn answers error := by
    intro plan s hs hfrontier hexec
    rw [pollSubmit] at hexec
    split at hexec
    · cases hexec
    · exact admitted_inTurn _ s ⟨hs, hfrontier⟩ _ _ hexec
  cases execution with
  | terminal plan admission => exact pollTerminal_inTurn _ hsound _ _ hexec
  | observation plan settled token => exact pollObservation_inTurn _ hsound _ _ hexec
  | finished plan outcome => cases hexec
  | submit plan => exact hsubmit plan state hsound (hturn plan rfl) hexec
  | admission plan =>
    rw [pollPhase, pollAdmission, exec_get_bind] at hexec
    cases hfatal : state.fatal with
    | some fatal =>
      rw [hfatal] at hexec
      cases hexec
      exact inTurn_of_sound (hsound _ hfatal)
    | none =>
      rw [hfatal] at hexec
      dsimp only at hexec
      split at hexec
      · next hfrontier =>
        rw [exec_set_bind] at hexec
        exact hsubmit plan { state with fatal := none, submits := state.submits ++ [plan.submission] }
          (fun _ h => (nomatch h)) hfrontier hexec
      · cases hexec

end Admitted

end InTurn


/-! ## Dedup keys -/

theorem toList_toString (n : Nat) : (toString n).toList = Nat.toDigits 10 n := by
  rw [Nat.toString_eq_repr, Nat.repr, String.toList_ofList]

theorem localKey_inj {flowRunId a b : String} (h : localKey flowRunId a = localKey flowRunId b) : a = b := by
  rw [localKey, localKey] at h
  exact (String.append_right_inj _).mp h

theorem ordinalKey_inj {flowRunId : String} {m n : Nat}
    (h : ordinalKey flowRunId m = ordinalKey flowRunId n) : m = n := by
  rw [ordinalKey, ordinalKey] at h
  have hdigits := congrArg String.toList ((String.append_right_inj _).mp h)
  rw [toList_toString, toList_toString] at hdigits
  rw [← Nat.ofDigitChars_ten_toDigits (n := m), hdigits, Nat.ofDigitChars_ten_toDigits]

/-- After the run, a flow-local key has a letter and an ordinal has none. -/
theorem localKey_ne_ordinalKey {flowRunId key : String} {n : Nat} :
    localKey flowRunId key ≠ ordinalKey flowRunId n := by
  intro h
  have h := congrArg String.toList h
  rw [localKey, ordinalKey] at h
  simp only [String.toList_append, List.append_assoc, List.append_cancel_left_eq, toList_toString] at h
  have hmem : 'k' ∈ ":".toList ++ Nat.toDigits 10 n := by
    rw [← h, List.mem_append]
    exact .inl (by decide)
  rcases List.mem_append.mp hmem with hcolon | hdigit
  · exact absurd hcolon (by decide)
  · exact absurd (Nat.isDigit_of_mem_toDigits (by decide) le_rfl hdigit) (by decide)

/-- Two nodes with one dedup key: one of them at least was given it by the script. -/
theorem dedupKey_shared {a b : NodeSpec} {m n : Nat} (hne : m ≠ n)
    (hkeys : ∀ key, a.key = some key → b.key ≠ some key)
    (h : dedupKeyOf host a m = dedupKeyOf host b n) :
    a.dedupKey = some (dedupKeyOf host a m) ∨ b.dedupKey = some (dedupKeyOf host a m) := by
  cases hakey : a.key with
  | some akey =>
    cases hbkey : b.key with
    | some bkey =>
      rw [dedupKeyOf, dedupKeyOf, hakey, hbkey] at h
      have := localKey_inj h
      subst this
      exact absurd hbkey (hkeys _ hakey)
    | none =>
      cases hbdedup : b.dedupKey with
      | some key =>
        rw [h, dedupKeyOf, hbkey, hbdedup]
        exact .inr rfl
      | none =>
        rw [dedupKeyOf, dedupKeyOf, hakey, hbkey, hbdedup] at h
        exact absurd h localKey_ne_ordinalKey
  | none =>
    cases hadedup : a.dedupKey with
    | some key =>
      rw [dedupKeyOf, hakey, hadedup]
      exact .inl rfl
    | none =>
      cases hbkey : b.key with
      | some bkey =>
        rw [dedupKeyOf, dedupKeyOf, hakey, hadedup, hbkey] at h
        exact absurd h.symm localKey_ne_ordinalKey
      | none =>
        cases hbdedup : b.dedupKey with
        | some key =>
          rw [h, dedupKeyOf, hbkey, hbdedup]
          exact .inr rfl
        | none =>
          rw [dedupKeyOf, dedupKeyOf, hakey, hadedup, hbkey, hbdedup] at h
          exact absurd (ordinalKey_inj h) hne

/-! ## The law -/

/-- The keys of two nodes are the same only if both gave it as it is, or one did and it is the key that
the host made up for the other. -/
def SharedKeyIsGiven (run : FlowRun) : Prop :=
  ∀ (i j : Nat) a b, i ≠ j → run.futures[i]? = some a → run.futures[j]? = some b →
    a.plan.submission.dedupKey = b.plan.submission.dedupKey →
      a.plan.submission.spec.dedupKey = some a.plan.submission.dedupKey ∨
        b.plan.submission.spec.dedupKey = some b.plan.submission.dedupKey

theorem Admitting.sharedKeyIsGiven {run : FlowRun} (h : Admitting host run) : SharedKeyIsGiven run := by
  have hdistinct : ∀ (i j : Nat) a b, i ≠ j → run.futures[i]? = some a → run.futures[j]? = some b →
      ∀ key, a.plan.submission.spec.key = some key → b.plan.submission.spec.key ≠ some key := by
    intro i j a b hne ha hb key hkey hother
    obtain ⟨hi, rfl⟩ := List.getElem?_eq_some_iff.mp ha
    obtain ⟨hj, rfl⟩ := List.getElem?_eq_some_iff.mp hb
    rcases Nat.lt_or_gt_of_ne hne with hlt | hgt
    · exact List.pairwise_iff_getElem.mp h.distinct i j hi hj hlt key hkey hother
    · exact List.pairwise_iff_getElem.mp h.distinct j i hj hi hgt key hother hkey
  intro i j a b hne ha hb heq
  have hakey := h.dedupKey i a ha
  have hbkey := h.dedupKey j b hb
  have hshared := dedupKey_shared hne (hdistinct i j a b hne ha hb)
    (hakey.symm.trans (heq.trans hbkey))
  rw [← hakey] at hshared
  rwa [← heq]

section Law

variable [Validators] [Witness.Libraries]

/-- A refused node changes neither the ordinals nor the dedup keys, and claims no key unless it is
refused for credentials that cannot be written. -/
def RefusalIsClean (host : HostShared) (state : HostState) : Prop :=
  ∀ spec revisions settle location error prepared,
    (prepareSubmission host location spec revisions settle).exec state.toPrepared =
        (.error error, prepared) →
      prepared.nextOrdinal = state.nextOrdinal ∧ prepared.ordinalKeys = state.ordinalKeys ∧
        (error.code ≠ "payload-serialization" → prepared.explicitKeys = state.explicitKeys)

/-- Whatever is prepared, refused, polled and answered, in whatever order: the client is asked once for
each ordinal and in their order, the frontier does not pass the ordinals that there are, a future that
passes it does so in turn, refusals are clean, and dedup keys are shared only where a script says so. -/
theorem run_admits_in_order (host : HostShared) (events : List RunEvent) :
    ((FlowRun.after host events).host.submits.map (·.orchestration.nodeOrdinal)).Pairwise (· < ·) ∧
      (FlowRun.after host events).host.admissionFrontier ≤ (FlowRun.after host events).host.nextOrdinal ∧
      (∀ execution ∈ (FlowRun.after host events).futures, ∀ answers error,
        ((pollPhase host answers execution).exec (FlowRun.after host events).host).1 = .error error →
          InTurn answers error) ∧
      RefusalIsClean host (FlowRun.after host events).host ∧
      SharedKeyIsGiven (FlowRun.after host events) := by
  have h : Admitting host (FlowRun.after host events) := admitting_after events
  generalize FlowRun.after host events = run at h
  refine ⟨h.ascending, h.next ▸ h.frontier, ?_, ?_, h.sharedKeyIsGiven⟩
  · intro execution hexecution answers error herror
    obtain ⟨i, hi⟩ := List.getElem?_of_mem hexecution
    refine pollPhase_inTurn h.sound (fun plan hplan => ?_) error _ (Eff.exec_eq_of_fst herror)
    subst hplan
    exact (h.submit i plan hi).symm.trans (h.ordinal i _ hi).1.symm
  · intro spec revisions settle location error prepared hexec
    obtain ⟨hnext, hkeys, hclaims⟩ := prepareSubmission_error hexec
    exact ⟨hnext, hkeys, fun hcode => hclaims.resolve_right fun h => hcode h.1⟩

end Law

end Admission

/-! ## A key that spells another one -/

namespace AdmissionSample

local instance validators : Validators where
  validatorFor _ := .ok ()
  iterErrors _ _ := []

local instance libraries : Witness.Libraries where
  fromStr _ := .error "no text"
  decodeValue value := .ok value
  sha256 _ := "00"
  decodeContent _ := .error "not a record"
  f64ToValue _ := .null
  isFiniteLexeme _ := true
  legacyF64 n := .ok n
  rfc3339Millis _ := none
  isUuid _ := false

def host : HostShared where
  «meta» := ⟨"nightly", ["slot"], none⟩
  flowRunId := "r"
  scriptHash := "s"
  argsHash := "a"
  effectiveMaxNodes := 8
  catalogHash := none
  poolCredentials := ∅

def node (dedupKey : Option String) : NodeSpec where
  argv := some ["true"]
  adapter := none
  prompt := none
  pools := ["slot"]
  executor := none
  priority := none
  runtimeMaxSec := none
  evidence := []
  drv := none
  evidenceClass := none
  manifestHash := none
  workspace := none
  brief := none
  key := none
  dedupKey := dedupKey
  label := none
  taskRef := none
  env := ∅
  approvalPolicy := none
  sandboxPolicy := none
  model := none
  resultSchema := none
  adapterOptions := none
  selection := none

def prepare (dedupKey : Option String) : RunEvent :=
  .prepare (node dedupKey) ⟨none, none⟩ true ⟨1, 1⟩

/-- The first node gets the key that the second one is given. -/
def run : FlowRun := FlowRun.after host [prepare none, prepare (some "flow:r:0")]

theorem keys_run : run.futures.map (fun e => (e.plan.submission.dedupKey, e.plan.submission.spec.dedupKey)) =
    [("flow:r:0", none), ("flow:r:0", some "flow:r:0")] := by
  decide +kernel

theorem given_key_spells_ordinal_key :
    ¬ ∀ (i j : Nat) (a b : Execution), i ≠ j → run.futures[i]? = some a → run.futures[j]? = some b →
      a.plan.submission.dedupKey = b.plan.submission.dedupKey →
        ∃ key, a.plan.submission.spec.dedupKey = some key ∧ b.plan.submission.spec.dedupKey = some key := by
  intro h
  have hkeys := keys_run
  generalize run.futures = futures at h hkeys
  obtain ⟨a, rest, rfl, ha, hrest⟩ := List.map_eq_cons_iff.mp hkeys
  obtain ⟨b, tail, rfl, hb, -⟩ := List.map_eq_cons_iff.mp hrest
  simp only [Prod.mk.injEq] at ha hb
  obtain ⟨key, hkey, -⟩ := h 0 1 a b (by decide) rfl rfl (ha.1.trans hb.1.symm)
  rw [ha.2] at hkey
  cases hkey

end AdmissionSample

end Tally.Flow
