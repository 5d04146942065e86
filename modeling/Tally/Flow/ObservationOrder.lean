import Tally.Flow.Drive

/-!
# Live runs and replays

A run is fed from a ledger: every node has a task there, and every task a result. What a run observes is
decided by an abstract run (`Stage`), which always observes the least result of all nodes that wait, as long
as no node with a smaller result is still without it when one is observed (`Orderly`). Replays, whose
admissions carry the results, are orderly by themselves (`replay_follows_live`); a live run need not be.
-/

namespace Tally.Flow

open Tally.Lib
open Tally (Eff)

/-! ## Ledgers -/

/-- The tasks of the nodes and their terminal results. -/
structure Ledger where
  task : FlowSubmission → String × UInt32
  result : String → UInt32 → NodeResult
  taskUuid : ∀ task attempt, (result task attempt).taskUuid = task
  witnessSeq : ∀ task attempt, (result task attempt).witnessSeq ≠ 0

namespace Ledger

def resultOf (ledger : Ledger) (plan : SubmissionPlan) : NodeResult :=
  ledger.result (ledger.task plan.submission).1 (ledger.task plan.submission).2

/-- The place of a node in the order of the ledger. -/
def key (ledger : Ledger) (plan : SubmissionPlan) : Nat ×ₗ Nat :=
  toLex ((ledger.resultOf plan).witnessSeq, plan.ordinal)

end Ledger

/-- An admission of the submission to its task. -/
structure Fits (ledger : Ledger) (disposition : FlowSubmission → Disposition) (submission : FlowSubmission)
    (admission : Admission) : Prop where
  schemaVersion : admission.schemaVersion = 1
  payloadHash : admission.payloadHash = submission.payloadHash
  task : (admission.taskUuid, admission.attempt) = ledger.task submission
  disposition : admission.disposition = disposition submission
  terminal : ∀ result, admission.terminal = some result →
    result = ledger.result admission.taskUuid admission.attempt
  waits : admission.terminal = none →
    admission.disposition = .created ∨ admission.disposition = .attached

/-- The answers come from the ledger: every node is admitted and gets its result, sooner or later. -/
structure Answers.From (answers : Answers) (ledger : Ledger) (disposition : FlowSubmission → Disposition) :
    Prop where
  submit : ∀ submission answer, answers.submit submission = some answer →
    ∃ admission, answer = .ok admission ∧ Fits ledger disposition submission admission
  awaitTerminal : ∀ task attempt answer, answers.awaitTerminal task attempt = some answer →
    answer = .ok (ledger.result task attempt)
  sink : ∀ events event, answers.sink events event = .ok ()

/-- Every admission carries its result. -/
def Answers.Carries (answers : Answers) : Prop :=
  ∀ submission admission, answers.submit submission = some (.ok admission) → admission.terminal ≠ none

/-! ## Orderly runs -/

/-- The result of the node has reached the host. -/
def Execution.isRegistered : Execution → Bool
  | .observation _ _ _ | .finished _ _ => true
  | _ => false

/-- The nodes whose results have not reached the host come after the one that is released. -/
def Orderly (ledger : Ledger) {S : Type} (drive : Drive S) : Prop :=
  drive.host.admissionFrontier = drive.host.nextOrdinal →
    ∀ first ∈ drive.host.readyObservations.entries.head?, ∀ execution ∈ drive.active,
      execution.isRegistered = false → first.1 < ledger.key execution.plan

section Orderly

variable [Validators] [Witness.Libraries] {S V : Type}

instance {ledger : Ledger} {S : Type} (drive : Drive S) : Decidable (Orderly ledger drive) :=
  inferInstanceAs (Decidable (_ = _ → ∀ first ∈ drive.host.readyObservations.entries.head?,
    ∀ execution ∈ drive.active, execution.isRegistered = false → first.1 < ledger.key execution.plan))

/-- Every release of the run is orderly. -/
def OrderlyFrom (host : HostShared) (script : Script S V) (ledger : Ledger) (drive : Drive S) :
    List Answers → Prop
  | [] => True
  | answers :: rest =>
    (drive.mayRelease host script answers = true →
        Orderly ledger (drive.beforeRelease host script answers)) ∧
      OrderlyFrom host script ledger (drive.turn host script answers) rest

instance decidableOrderlyFrom {host : HostShared} {script : Script S V} {ledger : Ledger} :
    (turns : List Answers) → (drive : Drive S) → Decidable (OrderlyFrom host script ledger drive turns)
  | [], _ => .isTrue trivial
  | answers :: rest, drive =>
    @instDecidableAnd _ _
      (inferInstanceAs (Decidable (_ = true → Orderly ledger (drive.beforeRelease host script answers))))
      (decidableOrderlyFrom rest (drive.turn host script answers))

end Orderly

/-! ## The part of the host that observations are about -/

structure Core where
  prepared : Prepared
  frontier : Nat
  fatal : Option FlowError
  ready : Table (Nat ×ₗ Nat) Nat
  granted : List Nat
  nextToken : Nat
  order : List Nat

def core (state : HostState) : Core where
  prepared := state.toPrepared
  frontier := state.admissionFrontier
  fatal := state.fatal
  ready := state.readyObservations
  granted := state.grantedObservations
  nextToken := state.nextObservationToken
  order := state.observationOrder

namespace Core

def pass (c : Core) : Core := { c with frontier := c.frontier + 1 }

def register (c : Core) (key : Nat ×ₗ Nat) : Core :=
  { c with nextToken := c.nextToken + 1, ready := c.ready.insert key c.nextToken }

def take (c : Core) (token : Nat) : Core := { c with granted := c.granted.erase token }

end Core

section Polls

open Eff

variable {ledger : Ledger} {disposition : FlowSubmission → Disposition} (host : HostShared)
  {answers : Answers} {plan : SubmissionPlan} {admission : Admission} {s : HostState}

theorem exec_emit (hanswers : answers.From ledger disposition) (event : Value) :
    exec (emit answers event) s = (.ok (), { s with events := s.events ++ [event] }) := by
  rw [emit, exec_get_bind, exec_set_bind, exec_ofExcept, hanswers.sink]

theorem exec_emits (hanswers : answers.From ledger disposition) (events : List Value) (s : HostState) :
    ∃ after, exec (events.forM (emit answers)) s = (.ok (), after) ∧ core after = core s := by
  induction events generalizing s with
  | nil => exact ⟨s, rfl, rfl⟩
  | cons event events ih =>
    obtain ⟨after, hexec, hcore⟩ := ih { s with events := s.events ++ [event] }
    refine ⟨after, ?_, hcore⟩
    rw [List.forM, exec_bind_ok (exec_emit hanswers event)]
    exact hexec

theorem exec_finishAdmission (hanswers : answers.From ledger disposition) {ordinal : Nat}
    (hturn : s.admissionFrontier = ordinal) (given : Option Disposition) :
    ∃ after, exec (finishAdmission answers ordinal given) s = (.ok (), after) ∧
      core after = (core s).pass := by
  rw [finishAdmission, exec_get_bind, exec_require_bind, if_pos hturn, exec_set_bind]
  split
  · obtain ⟨after, hexec, hcore⟩ := exec_emits hanswers ((s.pendingLogs.get? ordinal).getD [])
      { s with
        pendingLogs := s.pendingLogs.erase ordinal
        admissionFrontier := s.admissionFrontier + 1 }
    exact ⟨after, hexec, hcore⟩
  · exact ⟨_, rfl, rfl⟩

section Results

variable [Validators]

theorem settleResult_witnessSeq (plan : SubmissionPlan) (result : NodeResult) :
    (settleResult plan result).result.witnessSeq = result.witnessSeq := by
  have hverdict : ∀ result, (settleVerdict plan result).result = result := by
    intro result
    rw [settleVerdict]
    split
    · rfl
    · split <;> rfl
  rw [settleResult]
  split
  · rfl
  · split
    · rw [hverdict]
      split <;> rfl
    · split
      · rw [hverdict]
      · rfl

/-- The result of the node as this run hands it over. -/
def settledOf (ledger : Ledger) (disposition : FlowSubmission → Disposition) (plan : SubmissionPlan) :
    Settled :=
  settleResult plan { ledger.resultOf plan with disposition := disposition plan.submission }

theorem settledOf_witnessSeq :
    (settledOf ledger disposition plan).result.witnessSeq = (ledger.resultOf plan).witnessSeq := by
  rw [settledOf, settleResult_witnessSeq]

theorem exec_observeResult (answers : Answers) (hfits : Fits ledger disposition plan.submission admission)
    (hfatal : s.fatal = none) (hfresh : s.nextObservationToken ∉ s.grantedObservations) :
    ∃ after, exec (observeResult host answers plan admission
        (ledger.result admission.taskUuid admission.attempt)) s =
        (.ok (.observation plan (settledOf ledger disposition plan) s.nextObservationToken), after) ∧
      core after = (core s).register (ledger.key plan) := by
  have hresult : ledger.result admission.taskUuid admission.attempt = ledger.resultOf plan := by
    rw [Ledger.resultOf, ← hfits.task]
  have hvalid : validateTerminalResult plan { ledger.resultOf plan with disposition := admission.disposition }
      admission = .ok () := by
    rw [validateTerminalResult, ← hresult, ensure_bind_ok_iff, ensure_eq_ok]
    exact ⟨ledger.taskUuid _ _, ledger.witnessSeq _ _⟩
  rw [observeResult, hresult]
  dsimp only
  rw [exec_ofExcept_bind, hvalid]
  dsimp only
  rw [hfits.disposition, ← settledOf, settledOf_witnessSeq]
  have hregister : exec (registerObservation (ledger.resultOf plan).witnessSeq plan.ordinal) s =
      (.ok s.nextObservationToken, { s with
        nextObservationToken := s.nextObservationToken + 1
        readyObservations := s.readyObservations.insert (ledger.key plan) s.nextObservationToken }) := rfl
  rw [exec_bind_ok hregister, pollObservation, exec_get_bind]
  dsimp only
  rw [hfatal]
  dsimp only
  rw [if_neg hfresh]
  refine ⟨_, rfl, ?_⟩
  rw [core, core, hfatal]
  rfl

/-- The token of a future that waits to be observed. -/
def token? : Execution → Option Nat
  | .observation _ _ token => some token
  | _ => none

/-- What a poll does to a future in a run that is fed from the ledger. -/
inductive Progress (ledger : Ledger) (disposition : FlowSubmission → Disposition) (answers : Answers) :
    Execution → Core → Execution → Core → Prop
  | still {execution : Execution} {c : Core}
      (hgranted : ∀ token, token? execution = some token → token ∉ c.granted) :
      Progress ledger disposition answers execution c execution c
  | asked {plan : SubmissionPlan} {c : Core} (hturn : c.frontier = plan.ordinal) :
      Progress ledger disposition answers (.admission plan) c (.submit plan) c
  | admitted {execution : Execution} {plan : SubmissionPlan} {c : Core} {admission : Admission}
      (hexecution : execution = .admission plan ∨ execution = .submit plan)
      (hturn : c.frontier = plan.ordinal) (hfits : Fits ledger disposition plan.submission admission)
      (hanswer : answers.submit plan.submission = some (.ok admission)) (hnone : admission.terminal = none) :
      Progress ledger disposition answers execution c (.terminal plan admission) c.pass
  | arrived {execution : Execution} {plan : SubmissionPlan} {c : Core}
      (hexecution : execution = .admission plan ∨ execution = .submit plan)
      (hturn : c.frontier = plan.ordinal) :
      Progress ledger disposition answers execution c
        (.observation plan (settledOf ledger disposition plan) c.nextToken)
        (c.pass.register (ledger.key plan))
  | registered {plan : SubmissionPlan} {admission : Admission} {c : Core} :
      Progress ledger disposition answers (.terminal plan admission) c
        (.observation plan (settledOf ledger disposition plan) c.nextToken)
        (c.register (ledger.key plan))
  | observed {plan : SubmissionPlan} {settled : Settled} {token : Nat} {c : Core}
      (hgranted : token ∈ c.granted) :
      Progress ledger disposition answers (.observation plan settled token) c
        (.finished plan settled.outcome) (c.take token)

/-- What a future knows of its node. -/
def Placed (ledger : Ledger) (disposition : FlowSubmission → Disposition) (c : Core) : Execution → Prop
  | .admission plan => c.frontier ≤ plan.ordinal
  | .submit plan => c.frontier = plan.ordinal
  | .terminal plan admission => plan.ordinal < c.frontier ∧ Fits ledger disposition plan.submission admission
  | .observation plan settled token =>
    plan.ordinal < c.frontier ∧ settled = settledOf ledger disposition plan ∧ token < c.nextToken
  | .finished plan outcome =>
    plan.ordinal < c.frontier ∧ outcome = (settledOf ledger disposition plan).outcome

theorem exec_pollTerminal (hanswers : answers.From ledger disposition)
    (hfits : Fits ledger disposition plan.submission admission) (hfatal : s.fatal = none)
    (hfresh : s.nextObservationToken ∉ s.grantedObservations) :
    ∃ next after, exec (pollTerminal host answers plan admission) s = (.ok next, after) ∧
      (next = .terminal plan admission ∧ core after = core s ∨
        next = .observation plan (settledOf ledger disposition plan) s.nextObservationToken ∧
          core after = (core s).register (ledger.key plan)) := by
  rw [pollTerminal]
  cases hanswer : answers.awaitTerminal admission.taskUuid admission.attempt with
  | none => exact ⟨_, _, rfl, .inl ⟨rfl, rfl⟩⟩
  | some answer =>
    rw [hanswers.awaitTerminal _ _ _ hanswer]
    obtain ⟨after, hexec, hcore⟩ := exec_observeResult host answers hfits hfatal hfresh
    exact ⟨_, _, hexec, .inr ⟨rfl, hcore⟩⟩

/-- The client has answered a submission. -/
theorem exec_admitted (hanswers : answers.From ledger disposition)
    (hturn : s.admissionFrontier = plan.ordinal) (hfatal : s.fatal = none)
    (hfresh : s.nextObservationToken ∉ s.grantedObservations) {answer : Except ClientError Admission}
    (hanswer : answers.submit plan.submission = some answer) :
    ∃ next after, exec (admitted host answers plan answer) s = (.ok next, after) ∧
      ((∃ admission, next = .terminal plan admission ∧ Fits ledger disposition plan.submission admission ∧
          answers.submit plan.submission = some (.ok admission) ∧ admission.terminal = none ∧
          core after = (core s).pass) ∨
        next = .observation plan (settledOf ledger disposition plan) s.nextObservationToken ∧
          core after = (core s).pass.register (ledger.key plan)) := by
  obtain ⟨admission, rfl, hfits⟩ := hanswers.submit _ _ hanswer
  rw [admitted, if_neg (fun h => h hfits.schemaVersion), if_neg (fun h => h hfits.payloadHash)]
  obtain ⟨passed, hexec, hpassed⟩ :=
    exec_finishAdmission hanswers hturn (some admission.disposition)
  rw [exec_bind_ok hexec, exec_bind_ok (exec_emit hanswers _)]
  generalize hstate : { passed with events := _ } = emitted
  have hcore : core emitted = (core s).pass := by rw [← hstate]; exact hpassed
  have hfatal : emitted.fatal = none := (congrArg Core.fatal hcore).trans hfatal
  have htoken : emitted.nextObservationToken = s.nextObservationToken := congrArg Core.nextToken hcore
  have hgranted : emitted.grantedObservations = s.grantedObservations := congrArg Core.granted hcore
  have hfresh : emitted.nextObservationToken ∉ emitted.grantedObservations := by rwa [htoken, hgranted]
  rw [terminalResult]
  cases hterminal : admission.terminal with
  | some result =>
    dsimp only
    rw [hfits.terminal result hterminal]
    obtain ⟨after, hexec, hafter⟩ := exec_observeResult host answers hfits hfatal hfresh
    exact ⟨_, _, hexec, .inr ⟨by rw [htoken], by rw [hafter, hcore]⟩⟩
  | none =>
    obtain ⟨next, after, hexec, hnext⟩ :=
      exec_pollTerminal host hanswers hfits hfatal hfresh
    refine ⟨next, after, ?_, ?_⟩
    · rcases hfits.waits hterminal with hcreated | hattached
      · rw [hcreated]
        exact hexec
      · rw [hattached]
        exact hexec
    rcases hnext with ⟨rfl, hafter⟩ | ⟨rfl, hafter⟩
    · exact .inl ⟨admission, rfl, hfits, hanswer, hterminal, hafter.trans hcore⟩
    · exact .inr ⟨by rw [htoken], by rw [hafter, hcore]⟩

theorem poll_of_ok {execution next : Execution} {after : HostState}
    (h : exec (pollPhase host answers execution) s = (.ok next, after)) :
    poll host answers execution s = (next, after) := by
  rw [poll, h]

/-- A node whose turn it is. -/
theorem exec_pollSubmit (hanswers : answers.From ledger disposition) {execution : Execution}
    (hexecution : execution = .admission plan ∨ execution = .submit plan)
    (hturn : s.admissionFrontier = plan.ordinal) (hfatal : s.fatal = none)
    (hfresh : s.nextObservationToken ∉ s.grantedObservations) :
    ∃ next after, exec (pollSubmit host answers plan) s = (.ok next, after) ∧
      Progress ledger disposition answers execution (core s) next (core after) := by
  rw [pollSubmit]
  cases hanswer : answers.submit plan.submission with
  | none =>
    refine ⟨_, _, rfl, ?_⟩
    rcases hexecution with rfl | rfl
    · exact .asked hturn
    · exact .still fun _ h => (by cases h)
  | some answer =>
    obtain ⟨next, after, hexec, hnext⟩ :=
      exec_admitted host hanswers hturn hfatal hfresh hanswer
    refine ⟨next, after, hexec, ?_⟩
    rcases hnext with ⟨admission, rfl, hfits, hsubmit, hnone, hcore⟩ | ⟨rfl, hcore⟩
    · rw [hcore]
      exact .admitted hexecution hturn hfits hsubmit hnone
    · rw [hcore]
      exact .arrived hexecution hturn

/-- Every poll makes such progress. -/
theorem progress (hanswers : answers.From ledger disposition) {execution : Execution}
    (hplaced : Placed ledger disposition (core s) execution) (hfatal : s.fatal = none)
    (hgranted : ∀ token ∈ s.grantedObservations, token < s.nextObservationToken) :
    ∃ next after, poll host answers execution s = (next, after) ∧
      Progress ledger disposition answers execution (core s) next (core after) := by
  have hfresh : s.nextObservationToken ∉ s.grantedObservations := fun h => lt_irrefl _ (hgranted _ h)
  cases execution with
  | finished plan outcome => exact ⟨_, _, rfl, .still fun _ h => (by cases h)⟩
  | observation plan settled token =>
    have hexec : exec (pollPhase host answers (.observation plan settled token)) s =
        if token ∈ s.grantedObservations then
          exec (emit answers (nodeTerminal host plan.ordinal plan.submission.dedupKey settled.result) >>=
            fun _ => return .finished plan settled.outcome)
            { s with grantedObservations := s.grantedObservations.erase token }
        else (.ok (.observation plan settled token), s) := by
      rw [pollPhase, pollObservation, exec_get_bind, hfatal]
      dsimp only
      split
      · rw [exec_set_bind]
      · rfl
    by_cases htoken : token ∈ s.grantedObservations
    · rw [if_pos htoken, exec_bind_ok (exec_emit hanswers _)] at hexec
      exact ⟨_, _, poll_of_ok host hexec, .observed htoken⟩
    · rw [if_neg htoken] at hexec
      refine ⟨_, _, poll_of_ok host hexec, .still fun _ heq => ?_⟩
      cases heq
      exact htoken
  | terminal plan admission =>
    obtain ⟨next, after, hexec, hnext⟩ :=
      exec_pollTerminal host hanswers hplaced.2 hfatal hfresh
    refine ⟨next, after, poll_of_ok host hexec, ?_⟩
    rcases hnext with ⟨rfl, hcore⟩ | ⟨rfl, hcore⟩
    · rw [hcore]
      exact .still fun _ h => (by cases h)
    · rw [hcore]
      exact .registered
  | submit plan =>
    obtain ⟨next, after, hexec, hnext⟩ :=
      exec_pollSubmit host hanswers (.inr rfl) hplaced hfatal hfresh
    exact ⟨next, after, poll_of_ok host hexec, hnext⟩
  | admission plan =>
    have hphase : exec (pollPhase host answers (.admission plan)) s =
        if s.admissionFrontier = plan.ordinal then exec (pollSubmit host answers plan) (ask plan s)
        else (.ok (.admission plan), s) := by
      rw [pollPhase, pollAdmission, exec_get_bind, hfatal]
      dsimp only
      split
      · rw [exec_set_bind, ask, hfatal]
      · rfl
    by_cases hturn : s.admissionFrontier = plan.ordinal
    · rw [if_pos hturn] at hphase
      obtain ⟨next, after, hexec, hnext⟩ := @exec_pollSubmit ledger disposition host answers plan
        (ask plan s) _ hanswers (.admission plan) (.inl rfl) hturn hfatal hfresh
      exact ⟨next, after, poll_of_ok host (hphase.trans hexec), hnext⟩
    · rw [if_neg hturn] at hphase
      exact ⟨_, _, poll_of_ok host hphase, .still fun _ h => (by cases h)⟩

end Results

end Polls

/-! ## Between two polls -/

/-- The nodes of a run that have not been observed, or of which one has been released. -/
structure Tidy [Validators] (ledger : Ledger) (disposition : FlowSubmission → Disposition)
    (released : Option SubmissionPlan) (active : List Execution) (c : Core) : Prop where
  fatal : c.fatal = none
  ordinals : (active.map Execution.plan).Pairwise fun a b => a.ordinal < b.ordinal
  bounded : ∀ e ∈ active, e.plan.ordinal < c.prepared.nextOrdinal
  frontier : c.frontier ≤ c.prepared.nextOrdinal
  tokens : ∀ a ∈ active, ∀ b ∈ active, ∀ token, token? a = some token → token? b = some token → a = b
  placed : ∀ e ∈ active, Placed ledger disposition c e
  ready : ∀ key token, c.ready.get? key = some token →
    ∃ plan settled, .observation plan settled token ∈ active ∧ key = ledger.key plan
  waiting : ∀ plan settled token, .observation plan settled token ∈ active →
    c.ready.get? (ledger.key plan) = some token ∧ token ∉ c.granted ∧ released ≠ some plan ∨
      c.granted = [token] ∧ released = some plan ∧ c.ready.get? (ledger.key plan) = none
  granted : ∀ token ∈ c.granted, ∃ plan settled, .observation plan settled token ∈ active
  finished : ∀ plan outcome, .finished plan outcome ∈ active → released = some plan ∧ c.granted = []
  released : ∀ plan, released = some plan → (∃ outcome, .finished plan outcome ∈ active) ∨
    ∃ settled token, .observation plan settled token ∈ active ∧ c.granted = [token]

section Tidy

variable [Validators] {ledger : Ledger} {disposition : FlowSubmission → Disposition}
  {released : Option SubmissionPlan} {before after : List Execution} {execution next : Execution}
  {c d : Core} {answers : Answers}

omit [Validators] in
theorem isRegistered_of_token {token : Nat} (h : token? execution = some token) :
    execution.isRegistered = true := by
  cases execution with
  | observation => rfl
  | admission | submit | terminal | finished => cases h

namespace Tidy

theorem token_lt {active : List Execution} (h : Tidy ledger disposition released active c)
    (hmem : execution ∈ active) {token : Nat} (htoken : token? execution = some token) :
    token < c.nextToken := by
  have hplaced := h.placed execution hmem
  cases execution with
  | observation =>
    cases htoken
    exact hplaced.2.2
  | admission | submit | terminal | finished => cases htoken

theorem granted_lt {active : List Execution} (h : Tidy ledger disposition released active c) :
    ∀ token ∈ c.granted, token < c.nextToken := by
  intro token htoken
  obtain ⟨plan, settled, hmem⟩ := h.granted token htoken
  exact (h.placed _ hmem).2.2

/-- Nothing is granted while no node is released. -/
theorem granted_nil {active : List Execution} (h : Tidy ledger disposition none active c) :
    c.granted = [] := by
  rw [List.eq_nil_iff_forall_not_mem]
  intro token htoken
  obtain ⟨plan, settled, hmem⟩ := h.granted token htoken
  rcases h.waiting plan settled token hmem with ⟨-, hnot, -⟩ | ⟨-, hsome, -⟩
  · exact hnot htoken
  · cases hsome

/-- Ordinals tell the nodes apart. -/
theorem eq_of_ordinal {active : List Execution} (h : Tidy ledger disposition released active c)
    {a b : Execution} (ha : a ∈ active) (hb : b ∈ active) (heq : a.plan.ordinal = b.plan.ordinal) :
    a = b := by
  have hpairwise := List.pairwise_map.mp h.ordinals
  have hnodup : (active.map fun e => e.plan.ordinal).Nodup :=
    List.pairwise_map.mpr (hpairwise.imp fun hlt => ne_of_lt hlt)
  exact List.inj_on_of_nodup_map hnodup ha hb heq

omit [Validators] in
theorem mem_replace {x : Execution} :
    x ∈ before ++ execution :: after ↔ x = execution ∨ x ∈ before ++ after := by
  simp only [List.mem_append, List.mem_cons]
  tauto

theorem ordinal_ne (h : Tidy ledger disposition released (before ++ execution :: after) c) {x : Execution}
    (hx : x ∈ before ++ after) : x.plan.ordinal ≠ execution.plan.ordinal := by
  have hpairwise := List.pairwise_map.mp h.ordinals
  rw [List.pairwise_append, List.pairwise_cons] at hpairwise
  obtain ⟨-, ⟨hafter, -⟩, hbefore⟩ := hpairwise
  rcases List.mem_append.mp hx with hx | hx
  · exact ne_of_lt (hbefore x hx execution List.mem_cons_self)
  · exact ne_of_gt (hafter x hx)

/-- A future whose node is not released has not been observed. -/
theorem released_ne (h : Tidy ledger disposition released (before ++ execution :: after) c)
    (hexecution : execution.isRegistered = false) : released ≠ some execution.plan := by
  intro hreleased
  have hmem : execution ∈ before ++ execution :: after := mem_replace.mpr (.inl rfl)
  rcases h.released _ hreleased with ⟨outcome, hfinished⟩ | ⟨settled, token, hobserving, -⟩
  · rw [← h.eq_of_ordinal hfinished hmem rfl] at hexecution
    cases hexecution
  · rw [← h.eq_of_ordinal hobserving hmem rfl] at hexecution
    cases hexecution

/-- The parts that do not depend on what a future waits for. -/
structure Steps (execution next : Execution) (c d : Core) : Prop where
  plan : next.plan = execution.plan
  prepared : d.prepared = c.prepared
  fatal : d.fatal = c.fatal
  frontier : d.frontier = c.frontier ∨ d.frontier = c.frontier + 1 ∧ c.frontier = execution.plan.ordinal
  nextToken : c.nextToken ≤ d.nextToken

theorem placed_of_steps (h : Tidy ledger disposition released (before ++ execution :: after) c)
    (hsteps : Steps execution next c d) {x : Execution} (hx : x ∈ before ++ after) :
    Placed ledger disposition d x := by
  have hplaced := h.placed x (mem_replace.mpr (.inr hx))
  have hne := h.ordinal_ne hx
  have htoken := hsteps.nextToken
  cases x with
  | admission plan =>
    have hplaced : c.frontier ≤ plan.ordinal := hplaced
    have hne : plan.ordinal ≠ execution.plan.ordinal := hne
    show d.frontier ≤ plan.ordinal
    rcases hsteps.frontier with hsame | ⟨hnext, hturn⟩ <;> omega
  | submit plan =>
    have hplaced : c.frontier = plan.ordinal := hplaced
    have hne : plan.ordinal ≠ execution.plan.ordinal := hne
    show d.frontier = plan.ordinal
    rcases hsteps.frontier with hsame | ⟨hnext, hturn⟩ <;> omega
  | terminal plan admission =>
    refine ⟨?_, hplaced.2⟩
    have hlt := hplaced.1
    rcases hsteps.frontier with hsame | ⟨hnext, hturn⟩ <;> omega
  | observation plan settled token =>
    refine ⟨?_, hplaced.2.1, hplaced.2.2.trans_le htoken⟩
    have hlt := hplaced.1
    rcases hsteps.frontier with hsame | ⟨hnext, hturn⟩ <;> omega
  | finished plan outcome =>
    refine ⟨?_, hplaced.2⟩
    have hlt := hplaced.1
    rcases hsteps.frontier with hsame | ⟨hnext, hturn⟩ <;> omega

theorem ordinals_of_steps (h : Tidy ledger disposition released (before ++ execution :: after) c)
    (hplan : next.plan = execution.plan) :
    ((before ++ next :: after).map Execution.plan).Pairwise fun a b => a.ordinal < b.ordinal := by
  have hordinals := h.ordinals
  rw [List.map_append, List.map_cons] at hordinals ⊢
  rwa [hplan]

theorem bounded_of_steps (h : Tidy ledger disposition released (before ++ execution :: after) c)
    (hsteps : Steps execution next c d) :
    ∀ e ∈ before ++ next :: after, e.plan.ordinal < d.prepared.nextOrdinal := by
  intro e he
  rw [hsteps.prepared]
  rcases mem_replace.mp he with rfl | he
  · rw [hsteps.plan]
    exact h.bounded _ (mem_replace.mpr (.inl rfl))
  · exact h.bounded e (mem_replace.mpr (.inr he))

theorem frontier_of_steps (h : Tidy ledger disposition released (before ++ execution :: after) c)
    (hsteps : Steps execution next c d) : d.frontier ≤ d.prepared.nextOrdinal := by
  have hfrontier := h.frontier
  have hself := h.bounded execution (mem_replace.mpr (.inl rfl))
  rw [hsteps.prepared]
  rcases hsteps.frontier with hsame | ⟨hnext, hturn⟩ <;> omega

theorem placed_all (h : Tidy ledger disposition released (before ++ execution :: after) c)
    (hsteps : Steps execution next c d) (hnext : Placed ledger disposition d next) :
    ∀ e ∈ before ++ next :: after, Placed ledger disposition d e := by
  intro e he
  rcases mem_replace.mp he with rfl | he
  · exact hnext
  · exact h.placed_of_steps hsteps he

/-- A future that has no result yet goes on without one. -/
theorem advance (h : Tidy ledger disposition released (before ++ execution :: after) c)
    (hsteps : Steps execution next c d) (hplaced : Placed ledger disposition d next)
    (hexecution : execution.isRegistered = false) (hnext : next.isRegistered = false)
    (hready : d.ready = c.ready) (hgranted : d.granted = c.granted) :
    Tidy ledger disposition released (before ++ next :: after) d := by
  have hmem : ∀ x, x.isRegistered = true →
      (x ∈ before ++ next :: after ↔ x ∈ before ++ execution :: after) := by
    intro x hx
    rw [mem_replace, mem_replace]
    refine or_congr_left ⟨?_, ?_⟩
    · rintro rfl
      rw [hnext] at hx
      cases hx
    · rintro rfl
      rw [hexecution] at hx
      cases hx
  refine ⟨hsteps.fatal.trans h.fatal, h.ordinals_of_steps hsteps.plan, h.bounded_of_steps hsteps,
    h.frontier_of_steps hsteps, ?_, h.placed_all hsteps hplaced, ?_, ?_, ?_, ?_, ?_⟩
  · intro a ha b hb token htokenA htokenB
    exact h.tokens a ((hmem a (isRegistered_of_token htokenA)).mp ha) b
      ((hmem b (isRegistered_of_token htokenB)).mp hb) token htokenA htokenB
  · intro key token hkey
    rw [hready] at hkey
    obtain ⟨plan, settled, hplan, hkey⟩ := h.ready key token hkey
    exact ⟨plan, settled, (hmem _ rfl).mpr hplan, hkey⟩
  · intro plan settled token hplan
    rw [hready, hgranted]
    exact h.waiting plan settled token ((hmem _ rfl).mp hplan)
  · intro token htoken
    rw [hgranted] at htoken
    obtain ⟨plan, settled, hplan⟩ := h.granted token htoken
    exact ⟨plan, settled, (hmem _ rfl).mpr hplan⟩
  · intro plan outcome hplan
    rw [hgranted]
    exact h.finished plan outcome ((hmem _ rfl).mp hplan)
  · intro plan hplan
    rw [hgranted]
    rcases h.released plan hplan with ⟨outcome, hfinished⟩ | ⟨settled, token, hobserving, htoken⟩
    · exact .inl ⟨outcome, (hmem _ rfl).mpr hfinished⟩
    · exact .inr ⟨settled, token, (hmem _ rfl).mpr hobserving, htoken⟩

/-- The result of a node arrives. -/
theorem arrive {plan : SubmissionPlan}
    (h : Tidy ledger disposition released (before ++ execution :: after) c)
    (hplan : execution.plan = plan) (hexecution : execution.isRegistered = false)
    (hsteps : Steps execution (.observation plan (settledOf ledger disposition plan) c.nextToken) c d)
    (hpassed : plan.ordinal < d.frontier) (hnext : d.nextToken = c.nextToken + 1)
    (hready : d.ready = c.ready.insert (ledger.key plan) c.nextToken) (hgranted : d.granted = c.granted) :
    Tidy ledger disposition released
      (before ++ .observation plan (settledOf ledger disposition plan) c.nextToken :: after) d := by
  have hold : ∀ x, x.isRegistered = true → x ∈ before ++ execution :: after → x ∈ before ++ after := by
    intro x hx hmem
    rcases mem_replace.mp hmem with rfl | hmem
    · rw [hexecution] at hx
      cases hx
    · exact hmem
  have hother : ∀ x, x.isRegistered = true → x ∈ before ++ execution :: after →
      x ∈ before ++ .observation plan (settledOf ledger disposition plan) c.nextToken :: after :=
    fun x hx hmem => mem_replace.mpr (.inr (hold x hx hmem))
  have hfresh : c.nextToken ∉ c.granted := fun hmem => lt_irrefl _ (h.granted_lt _ hmem)
  have hsmall : ∀ x ∈ before ++ after, token? x ≠ some c.nextToken := fun x hx htoken =>
    lt_irrefl _ (h.token_lt (mem_replace.mpr (.inr hx)) htoken)
  refine ⟨hsteps.fatal.trans h.fatal, h.ordinals_of_steps hsteps.plan, h.bounded_of_steps hsteps,
    h.frontier_of_steps hsteps, ?_, h.placed_all hsteps ⟨hpassed, rfl, by omega⟩, ?_, ?_, ?_, ?_, ?_⟩
  · intro a ha b hb token htokenA htokenB
    rcases mem_replace.mp ha with rfl | ha
    · cases htokenA
      rcases mem_replace.mp hb with rfl | hb
      · rfl
      · exact absurd htokenB (hsmall b hb)
    · rcases mem_replace.mp hb with rfl | hb
      · cases htokenB
        exact absurd htokenA (hsmall a ha)
      · exact h.tokens a (mem_replace.mpr (.inr ha)) b (mem_replace.mpr (.inr hb)) token htokenA htokenB
  · intro key token hkey
    rw [hready, Table.get?_insert] at hkey
    split at hkey
    · next heq =>
      cases hkey
      exact ⟨plan, _, mem_replace.mpr (.inl rfl), heq⟩
    · obtain ⟨other, settled, hmem, hkey⟩ := h.ready key token hkey
      exact ⟨other, settled, hother _ rfl hmem, hkey⟩
  · intro other settled token hmem
    rw [hready, hgranted]
    rcases mem_replace.mp hmem with heq | hmem
    · cases heq
      exact .inl ⟨Table.get?_insert_self .., hfresh, hplan ▸ h.released_ne hexecution⟩
    · have hne : ledger.key other ≠ ledger.key plan := by
        intro heq
        have hordinal : other.ordinal = plan.ordinal := congrArg (fun key => (ofLex key).2) heq
        exact h.ordinal_ne hmem (hplan ▸ hordinal)
      rw [Table.get?_insert_ne _ _ hne]
      exact h.waiting other settled token (mem_replace.mpr (.inr hmem))
  · intro token htoken
    rw [hgranted] at htoken
    obtain ⟨other, settled, hmem⟩ := h.granted token htoken
    exact ⟨other, settled, hother _ rfl hmem⟩
  · intro other outcome hmem
    rw [hgranted]
    rcases mem_replace.mp hmem with heq | hmem
    · cases heq
    · exact h.finished other outcome (mem_replace.mpr (.inr hmem))
  · intro other hreleased
    rw [hgranted]
    rcases h.released other hreleased with ⟨outcome, hfinished⟩ | ⟨settled, token, hobserving, htoken⟩
    · exact .inl ⟨outcome, hother _ rfl hfinished⟩
    · exact .inr ⟨settled, token, hother _ rfl hobserving, htoken⟩

/-- The node that was released completes. -/
theorem observe {plan : SubmissionPlan} {settled : Settled} {token : Nat}
    (h : Tidy ledger disposition released (before ++ .observation plan settled token :: after) c)
    (hgranted : token ∈ c.granted) :
    Tidy ledger disposition released (before ++ .finished plan settled.outcome :: after) (c.take token) := by
  have hsteps : Steps (.observation plan settled token) (.finished plan settled.outcome) c (c.take token) :=
    ⟨rfl, rfl, rfl, .inl rfl, le_rfl⟩
  have hself : .observation plan settled token ∈ before ++ .observation plan settled token :: after :=
    mem_replace.mpr (.inl rfl)
  obtain ⟨hone, hreleased, hready⟩ := (h.waiting _ _ _ hself).resolve_left fun h => h.2.1 hgranted
  have hnone : (c.take token).granted = [] := by
    rw [Core.take, hone]
    exact List.erase_cons_head ..
  obtain ⟨hpassed, hsettled, -⟩ := h.placed _ hself
  refine ⟨h.fatal, h.ordinals_of_steps rfl, h.bounded_of_steps hsteps, h.frontier_of_steps hsteps, ?_,
    h.placed_all hsteps ⟨hpassed, congrArg Settled.outcome hsettled⟩, ?_, ?_, ?_, ?_, ?_⟩
  · intro a ha b hb other htokenA htokenB
    rcases mem_replace.mp ha with rfl | ha
    · cases htokenA
    · rcases mem_replace.mp hb with rfl | hb
      · cases htokenB
      · exact h.tokens a (mem_replace.mpr (.inr ha)) b (mem_replace.mpr (.inr hb)) other htokenA htokenB
  · intro key other hkey
    obtain ⟨waiting, settled', hmem, rfl⟩ := h.ready key other hkey
    rcases mem_replace.mp hmem with heq | hmem
    · cases heq
      rw [Core.take, hready] at hkey
      cases hkey
    · exact ⟨waiting, settled', mem_replace.mpr (.inr hmem), rfl⟩
  · intro other settled' token' hmem
    rcases mem_replace.mp hmem with heq | hmem
    · cases heq
    · rw [hnone]
      rcases h.waiting other settled' token' (mem_replace.mpr (.inr hmem)) with ⟨hkey, -, hne⟩ | ⟨-, hsome, -⟩
      · exact .inl ⟨hkey, List.not_mem_nil, hne⟩
      · rw [hreleased, Option.some.injEq] at hsome
        exact absurd (congrArg SubmissionPlan.ordinal hsome).symm (h.ordinal_ne hmem)
  · intro other hmem
    rw [hnone] at hmem
    cases hmem
  · intro other outcome hmem
    refine ⟨?_, hnone⟩
    rcases mem_replace.mp hmem with heq | hmem
    · cases heq
      exact hreleased
    · exact (h.finished other outcome (mem_replace.mpr (.inr hmem))).1
  · intro other hsome
    rw [hreleased, Option.some.injEq] at hsome
    subst hsome
    exact .inl ⟨settled.outcome, mem_replace.mpr (.inl rfl)⟩

/-- One poll of one of the futures. -/
theorem progress (h : Tidy ledger disposition released (before ++ execution :: after) c)
    (hprogress : Progress ledger disposition answers execution c next d) :
    Tidy ledger disposition released (before ++ next :: after) d := by
  have hplaced := h.placed execution (mem_replace.mpr (.inl rfl))
  cases hprogress with
  | still => exact h
  | asked hturn => exact h.advance ⟨rfl, rfl, rfl, .inl rfl, le_rfl⟩ hturn rfl rfl rfl rfl
  | @admitted _ plan _ admission hexecution hturn hfits hanswer hnone =>
    have hplan : execution.plan = plan := by rcases hexecution with rfl | rfl <;> rfl
    have hregistered : execution.isRegistered = false := by rcases hexecution with rfl | rfl <;> rfl
    refine h.advance ⟨hplan.symm, rfl, rfl, .inr ⟨rfl, hplan ▸ hturn⟩, le_rfl⟩ ⟨?_, hfits⟩ hregistered rfl
      rfl rfl
    show plan.ordinal < c.frontier + 1
    omega
  | @arrived _ plan _ hexecution hturn =>
    have hplan : execution.plan = plan := by rcases hexecution with rfl | rfl <;> rfl
    have hregistered : execution.isRegistered = false := by rcases hexecution with rfl | rfl <;> rfl
    refine h.arrive hplan hregistered
      ⟨hplan.symm, rfl, rfl, .inr ⟨rfl, hplan ▸ hturn⟩, Nat.le_succ _⟩ ?_ rfl rfl rfl
    show plan.ordinal < c.frontier + 1
    omega
  | @registered plan admission _ =>
    exact h.arrive rfl rfl ⟨rfl, rfl, rfl, .inl rfl, Nat.le_succ _⟩ hplaced.1 rfl rfl rfl
  | observed hgranted => exact h.observe hgranted

end Tidy

/-- What a poll never changes. -/
theorem Progress.keeps (h : Progress ledger disposition answers execution c next d) :
    next.plan = execution.plan ∧ d.order = c.order ∧ d.prepared = c.prepared := by
  cases h with
  | still | registered | asked | observed => exact ⟨rfl, rfl, rfl⟩
  | admitted hexecution => rcases hexecution with rfl | rfl <;> exact ⟨rfl, rfl, rfl⟩
  | arrived hexecution => rcases hexecution with rfl | rfl <;> exact ⟨rfl, rfl, rfl⟩

/-- The token that was granted is taken by its own future. -/
theorem Progress.granted (h : Progress ledger disposition answers execution c next d)
    (hone : c.granted = [] ∨ ∃ token, c.granted = [token]) :
    d.granted = c.granted ∧ (∀ token, token? execution = some token → token ∉ c.granted) ∨
      d.granted = [] := by
  cases h with
  | still hgranted => exact .inl ⟨rfl, hgranted⟩
  | asked => exact .inl ⟨rfl, fun _ h => (by cases h)⟩
  | registered => exact .inl ⟨rfl, fun _ h => (by cases h)⟩
  | admitted hexecution => rcases hexecution with rfl | rfl <;> exact .inl ⟨rfl, fun _ h => (by cases h)⟩
  | arrived hexecution => rcases hexecution with rfl | rfl <;> exact .inl ⟨rfl, fun _ h => (by cases h)⟩
  | @observed _ _ token _ hgranted =>
    right
    rcases hone with hnil | ⟨other, hone⟩
    · rw [hnil] at hgranted
      cases hgranted
    · rw [hone, List.mem_singleton] at hgranted
      rw [Core.take, hone, hgranted]
      exact List.erase_cons_head ..

/-- Nobody waits for a result that the admissions carry. -/
theorem Progress.carries (h : Progress ledger disposition answers execution c next d)
    (hcarries : answers.Carries) (hexecution : ∀ plan admission, execution ≠ .terminal plan admission) :
    ∀ plan admission, next ≠ .terminal plan admission := by
  intro plan admission heq
  cases h with
  | still => exact hexecution _ _ heq
  | asked => cases heq
  | admitted _ _ _ hanswer hnone => exact hcarries _ _ hanswer hnone
  | arrived => cases heq
  | registered => cases heq
  | observed => cases heq

section Pass

variable {host : HostShared}

/-- A poll of every future. -/
theorem Tidy.pollAll (hanswers : answers.From ledger disposition) {active : List Execution} :
    ∀ {before : List Execution} {s : HostState},
      Tidy ledger disposition released (before ++ active) (core s) →
      (s.grantedObservations = [] ∨ ∃ plan settled token, .observation plan settled token ∈ active ∧
        s.grantedObservations = [token]) →
      ∃ polled after, pollAll host answers active s = (polled, after) ∧
        Tidy ledger disposition released (before ++ polled) (core after) ∧
        after.grantedObservations = [] ∧ polled.map Execution.plan = active.map Execution.plan ∧
        after.observationOrder = s.observationOrder ∧ after.toPrepared = s.toPrepared ∧
        (answers.Carries → (∀ e ∈ active, ∀ plan admission, e ≠ .terminal plan admission) →
          ∀ e ∈ polled, ∀ plan admission, e ≠ .terminal plan admission) := by
  induction active with
  | nil =>
    intro before s h hgranted
    refine ⟨[], s, rfl, h, ?_, rfl, rfl, rfl, fun _ hnone => hnone⟩
    rcases hgranted with hnil | ⟨_, _, _, hmem, -⟩
    · exact hnil
    · cases hmem
  | cons execution rest ih =>
    intro before s h hgranted
    have hplaced := h.placed execution (Tidy.mem_replace.mpr (.inl rfl))
    obtain ⟨next, mid, hpoll, hprogress⟩ :=
      Tally.Flow.progress host hanswers hplaced h.fatal h.granted_lt
    obtain ⟨hplan, horder, hprepared⟩ := hprogress.keeps
    have hstep := h.progress hprogress
    rw [List.append_cons] at hstep
    have hrest : mid.grantedObservations = [] ∨ ∃ plan settled token,
        .observation plan settled token ∈ rest ∧ mid.grantedObservations = [token] := by
      have hone : s.grantedObservations = [] ∨ ∃ token, s.grantedObservations = [token] :=
        hgranted.imp_right fun ⟨_, _, token, _, h⟩ => ⟨token, h⟩
      rcases hprogress.granted hone with ⟨hsame, hother⟩ | hnil
      · have hsame : mid.grantedObservations = s.grantedObservations := hsame
        rcases hgranted with hnil | ⟨plan, settled, token, hmem, hgranted⟩
        · exact .inl (hsame.trans hnil)
        · rcases List.mem_cons.mp hmem with rfl | hmem
          · refine absurd ?_ (hother token rfl)
            show token ∈ s.grantedObservations
            rw [hgranted]
            exact List.mem_singleton_self _
          · exact .inr ⟨plan, settled, token, hmem, hsame.trans hgranted⟩
      · exact .inl hnil
    obtain ⟨polled, after, hall, htidy, hnil, hplans, horders, hprepareds, hcarries⟩ := ih hstep hrest
    refine ⟨next :: polled, after, ?_, ?_, hnil, ?_, horders.trans horder, hprepareds.trans hprepared, ?_⟩
    · rw [Tally.Flow.pollAll, hpoll]
      dsimp only
      rw [hall]
    · rw [List.append_cons]
      exact htidy
    · rw [List.map_cons, List.map_cons, hplans, hplan]
    · intro hanswers hnone e he
      rcases List.mem_cons.mp he with rfl | he
      · exact hprogress.carries hanswers (hnone _ List.mem_cons_self)
      · exact hcarries hanswers (fun e he => hnone e (List.mem_cons_of_mem _ he)) e he

end Pass

end Tidy


/-! ## The abstract run -/

/-- A run that is about to observe: what is prepared, who waits, what the script has in mind and what has
been observed. -/
structure Stage (S : Type) where
  prepared : Prepared
  waiting : List SubmissionPlan
  script : S
  order : List Nat

section Stage

variable [Schemas] [Witness.Libraries] {S V : Type} (host : HostShared) (script : Script S V)
  (ledger : Ledger) (view : SubmissionPlan → V)

/-- The promise jobs, as far as nodes are concerned. -/
def react : Reaction S → Prepared → List SubmissionPlan → Prepared × List SubmissionPlan × S
  | .idle next, prepared, jobs => (prepared, jobs, next)
  | .job spec revisions settle location next, prepared, jobs =>
    match (prepareSubmission host location spec revisions settle).exec prepared with
    | (.ok plan, prepared) => react (next (.ok plan.ordinal)) prepared (jobs ++ [plan])
    | (.error error, prepared) => react (next (.error error)) prepared jobs
  | .log _ _ next, prepared, jobs => react next prepared jobs

namespace Stage

def start : Stage S :=
  let (prepared, jobs, next) := react host script.start {} []
  ⟨prepared, jobs, next, []⟩

/-- The least result is observed. -/
def next (stage : Stage S) : Stage S :=
  match stage.waiting.argmin ledger.key with
  | none => stage
  | some plan =>
    let (prepared, jobs, next) :=
      react host (script.resume stage.script [(plan.ordinal, view plan)]) stage.prepared []
    { prepared := prepared
      waiting := stage.waiting.filter (fun other => other.ordinal ≠ plan.ordinal) ++ jobs
      script := next
      order := stage.order ++ [(ledger.resultOf plan).witnessSeq] }

/-- The stages of a run. -/
def nth (n : Nat) : Stage S := (next host script ledger view)^[n] (start host script)

theorem nth_succ (n : Nat) :
    nth host script ledger view (n + 1) = next host script ledger view (nth host script ledger view n) :=
  Function.iterate_succ_apply' ..

variable {host script ledger view}

theorem order_next (stage : Stage S) : stage.order <+: (next host script ledger view stage).order := by
  rw [next]
  split
  · exact List.prefix_rfl
  · exact List.prefix_append ..

theorem order_mono {m n : Nat} (h : m ≤ n) :
    (nth host script ledger view m).order <+: (nth host script ledger view n).order := by
  induction h with
  | refl => exact List.prefix_rfl
  | step _ ih =>
    rw [nth_succ]
    exact ih.trans (order_next _)

/-- Where nobody waits the run has ended. -/
theorem nth_of_none {m n : Nat} (h : m ≤ n) (hnone : (nth host script ledger view m).waiting = []) :
    nth host script ledger view n = nth host script ledger view m := by
  induction h with
  | refl => rfl
  | step _ ih =>
    rw [nth_succ, ih, next, hnone]
    rfl

end Stage

end Stage

section Reactions

variable [Validators] [Witness.Libraries] {S V : Type} (host : HostShared)

/-- The engine does with the host what the abstract run does with what is prepared. -/
theorem drainSynchronous_react (reaction : Reaction S) (state : HostState) (jobs : List SubmissionPlan) :
    ∃ after plans next, drainSynchronous host reaction state jobs = (after, plans, next) ∧
      react host reaction state.toPrepared jobs = (after.toPrepared, plans, next) ∧
      core after = { core state with prepared := after.toPrepared } := by
  induction reaction generalizing state jobs with
  | idle next => exact ⟨_, _, _, rfl, rfl, rfl⟩
  | log message location next ih => exact ih (queueLog host message location state) jobs
  | job spec revisions settle location next ih =>
    rw [drainSynchronous, react]
    rcases Eff.exec (prepareSubmission host location spec revisions settle) state.toPrepared with
      ⟨error | plan, prepared⟩
    · exact ih (.error error) { state with toPrepared := prepared } jobs
    · exact ih (.ok plan.ordinal) { state with toPrepared := prepared } (jobs ++ [plan])

/-- New nodes get the next ordinals. -/
theorem react_ordinals (reaction : Reaction S) (prepared : Prepared) (jobs : List SubmissionPlan) :
    ∃ after new next, react host reaction prepared jobs = (after, jobs ++ new, next) ∧
      prepared.nextOrdinal ≤ after.nextOrdinal ∧
      (new.Pairwise fun a b => a.ordinal < b.ordinal) ∧
      ∀ plan ∈ new, prepared.nextOrdinal ≤ plan.ordinal ∧ plan.ordinal < after.nextOrdinal := by
  induction reaction generalizing prepared jobs with
  | idle next => exact ⟨prepared, [], next, by rw [List.append_nil]; rfl, le_rfl, .nil,
    fun _ h => absurd h List.not_mem_nil⟩
  | log message location next ih => exact ih prepared jobs
  | job spec revisions settle location next ih =>
    rw [react]
    rcases hexec : Eff.exec (prepareSubmission host location spec revisions settle) prepared with
      ⟨error | plan, mid⟩
    · obtain ⟨hnext, -⟩ := prepareSubmission_error hexec
      obtain ⟨after, new, next, hreact, hle, hpairwise, hnew⟩ := ih (.error error) mid jobs
      rw [hnext] at hle hnew
      exact ⟨after, new, next, hreact, hle, hpairwise, hnew⟩
    · have haccepts := prepareSubmission_ok hexec
      obtain ⟨after, new, next, hreact, hle, hpairwise, hnew⟩ :=
        ih (.ok plan.ordinal) mid (jobs ++ [plan])
      rw [haccepts.next] at hle hnew
      refine ⟨after, plan :: new, next, ?_, by omega, ?_, ?_⟩
      · rw [List.append_cons]
        exact hreact
      · refine List.pairwise_cons.mpr ⟨fun other hother => ?_, hpairwise⟩
        rw [haccepts.ordinal]
        exact (hnew other hother).1
      · intro other hother
        rcases List.mem_cons.mp hother with rfl | hother
        · rw [haccepts.ordinal]
          exact ⟨le_rfl, hle⟩
        · have := hnew other hother
          omega

end Reactions


/-! ## What has completed -/

section Completions

variable [Validators] {S V : Type} (script : Script S V) {ledger : Ledger}
  {disposition : FlowSubmission → Disposition} {active : List Execution} {c : Core}

omit [Validators] in
theorem completions_of_unfinished (h : ∀ e ∈ active, e.isFinished = false) :
    completions script active = [] := by
  rw [completions, List.filterMap_eq_nil_iff]
  intro e he
  have hfinished := h e he
  cases e with
  | finished => cases hfinished
  | admission | submit | terminal | observation => rfl

theorem Tidy.unfinished (h : Tidy ledger disposition none active c) : ∀ e ∈ active, e.isFinished = false := by
  intro e he
  cases e with
  | finished plan outcome => exact (nomatch (h.finished plan outcome he).1)
  | admission | submit | terminal | observation => rfl

/-- Only the node that was released has completed. -/
theorem Tidy.completed {plan : SubmissionPlan} (h : Tidy ledger disposition (some plan) active c)
    (hgranted : c.granted = []) :
    completions script active = [(plan.ordinal, script.read (settledOf ledger disposition plan).outcome)] ∧
      (active.filter fun e => !e.isFinished).map Execution.plan =
        (active.map Execution.plan).filter fun other => other.ordinal ≠ plan.ordinal := by
  obtain ⟨outcome, hmem⟩ := (h.released plan rfl).resolve_right fun ⟨_, token, _, htoken⟩ => by
    rw [hgranted] at htoken
    cases htoken
  obtain ⟨before, after, rfl⟩ := List.append_of_mem hmem
  obtain ⟨-, houtcome⟩ := h.placed _ hmem
  have hothers : ∀ e ∈ before ++ after, e.isFinished = false := by
    intro e he
    cases e with
    | finished other outcome' =>
      have hsome := (h.finished other outcome' (Tidy.mem_replace.mpr (.inr he))).1
      rw [Option.some.injEq] at hsome
      exact absurd (congrArg SubmissionPlan.ordinal hsome).symm (h.ordinal_ne he)
    | admission | submit | terminal | observation => rfl
  have hbefore : ∀ e ∈ before, e.isFinished = false := fun e he => hothers e (List.mem_append_left _ he)
  have hafter : ∀ e ∈ after, e.isFinished = false := fun e he => hothers e (List.mem_append_right _ he)
  constructor
  · have hleft := completions_of_unfinished script hbefore
    have hright := completions_of_unfinished script hafter
    rw [completions] at hleft hright ⊢
    rw [List.filterMap_append, List.filterMap_cons, hleft, hright, houtcome]
    rfl
  · rw [List.filter_append, List.filter_cons_of_neg (by simp [Execution.isFinished]), List.map_append,
      List.map_append, List.map_cons, List.filter_append,
      List.filter_cons_of_neg (by simp [Execution.plan])]
    have hkeep : ∀ part : List Execution, (∀ e ∈ part, e ∈ before ++ after) →
        (part.filter fun e => !e.isFinished).map Execution.plan =
          (part.map Execution.plan).filter fun other => other.ordinal ≠ plan.ordinal := by
      intro part hpart
      rw [List.filter_eq_self.mpr fun e he => by rw [hothers e (hpart e he)]; rfl,
        List.filter_eq_self.mpr]
      intro other hother
      obtain ⟨e, he, rfl⟩ := List.mem_map.mp hother
      exact decide_eq_true (h.ordinal_ne (hpart e he))
    rw [hkeep before fun e he => List.mem_append_left _ he, hkeep after fun e he => List.mem_append_right _ he]

omit [Validators] in
theorem mem_left {e : Execution} {jobs : List SubmissionPlan}
    (h : e ∈ (active.filter fun e => !e.isFinished) ++ jobs.map .admission) :
    e ∈ active ∧ e.isFinished = false ∨ ∃ job ∈ jobs, e = .admission job := by
  rcases List.mem_append.mp h with h | h
  · obtain ⟨hmem, hfinished⟩ := List.mem_filter.mp h
    exact .inl ⟨hmem, by rwa [Bool.not_eq_true'] at hfinished⟩
  · obtain ⟨job, hjob, rfl⟩ := List.mem_map.mp h
    exact .inr ⟨job, hjob, rfl⟩

/-- The nodes that are left, and new ones, after what was released has completed. -/
theorem Tidy.settle {plan : SubmissionPlan} {d : Core} {jobs : List SubmissionPlan}
    (h : Tidy ledger disposition (some plan) active c) (hgranted : c.granted = [])
    (hcore : d = { c with prepared := d.prepared }) (hnext : c.prepared.nextOrdinal ≤ d.prepared.nextOrdinal)
    (hjobs : jobs.Pairwise fun a b => a.ordinal < b.ordinal)
    (hnew : ∀ job ∈ jobs, c.prepared.nextOrdinal ≤ job.ordinal ∧ job.ordinal < d.prepared.nextOrdinal) :
    Tidy ledger disposition none
      ((active.filter fun e => !e.isFinished) ++ jobs.map .admission) d := by
  have hfrontier := h.frontier
  have hsameFrontier : d.frontier = c.frontier := by rw [hcore]
  have hsameReady : d.ready = c.ready := by rw [hcore]
  have hnone : d.granted = [] := by rw [hcore, ← hgranted]
  have hsameToken : d.nextToken = c.nextToken := by rw [hcore]
  have hobserving : ∀ other settled token,
      (.observation other settled token ∈ (active.filter fun e => !e.isFinished) ++ jobs.map .admission ↔
        .observation other settled token ∈ active) := by
    intro other settled token
    constructor
    · intro hmem
      rcases mem_left hmem with ⟨hmem, -⟩ | ⟨_, _, heq⟩
      · exact hmem
      · cases heq
    · intro hmem
      exact List.mem_append_left _ (List.mem_filter.mpr ⟨hmem, rfl⟩)
  refine ⟨by rw [hcore]; exact h.fatal, ?_, ?_, by omega, ?_, ?_, ?_, ?_, ?_, ?_, fun _ h => (by cases h)⟩
  · rw [List.map_append, List.map_map, List.pairwise_append]
    refine ⟨h.ordinals.sublist (List.filter_sublist.map _), List.pairwise_map.mpr hjobs, ?_⟩
    intro a ha b hb
    obtain ⟨e, he, rfl⟩ := List.mem_map.mp ha
    obtain ⟨job, hjob, rfl⟩ := List.mem_map.mp hb
    have hlt := h.bounded e (List.mem_filter.mp he).1
    exact hlt.trans_le (hnew job hjob).1
  · intro e he
    rcases mem_left he with ⟨he, -⟩ | ⟨job, hjob, rfl⟩
    · exact (h.bounded e he).trans_le hnext
    · exact (hnew job hjob).2
  · intro a ha b hb token htokenA htokenB
    rcases mem_left ha with ⟨ha, -⟩ | ⟨_, _, rfl⟩
    · rcases mem_left hb with ⟨hb, -⟩ | ⟨_, _, rfl⟩
      · exact h.tokens a ha b hb token htokenA htokenB
      · cases htokenB
    · cases htokenA
  · intro e he
    rcases mem_left he with ⟨he, -⟩ | ⟨job, hjob, rfl⟩
    · have hplaced := h.placed e he
      cases e with
      | admission | submit | terminal | observation | finished =>
        simpa only [Placed, hsameFrontier, hsameToken] using hplaced
    · have := (hnew job hjob).1
      show d.frontier ≤ job.ordinal
      omega
  · intro key token hkey
    rw [hsameReady] at hkey
    obtain ⟨other, settled, hmem, hkey⟩ := h.ready key token hkey
    exact ⟨other, settled, (hobserving _ _ _).mpr hmem, hkey⟩
  · intro other settled token hmem
    rw [hsameReady, hnone]
    rcases h.waiting other settled token ((hobserving _ _ _).mp hmem) with ⟨hkey, -, -⟩ | ⟨hone, -, -⟩
    · exact .inl ⟨hkey, List.not_mem_nil, fun h => (by cases h)⟩
    · rw [hgranted] at hone
      cases hone
  · intro token htoken
    rw [hnone] at htoken
    cases htoken
  · intro other outcome hmem
    rcases mem_left hmem with ⟨-, hunfinished⟩ | ⟨_, _, heq⟩
    · cases hunfinished
    · cases heq

omit [Validators] in
theorem mem_admissions {e : Execution} {jobs : List SubmissionPlan} (h : e ∈ jobs.map .admission) :
    ∃ job ∈ jobs, e = .admission job := by
  obtain ⟨job, hjob, rfl⟩ := List.mem_map.mp h
  exact ⟨job, hjob, rfl⟩

/-- The first nodes of a run. -/
theorem Tidy.first {jobs : List SubmissionPlan} (hcore : c = { core {} with prepared := c.prepared })
    (hjobs : jobs.Pairwise fun a b => a.ordinal < b.ordinal)
    (hnew : ∀ job ∈ jobs, job.ordinal < c.prepared.nextOrdinal) :
    Tidy ledger disposition none (jobs.map .admission) c := by
  have hready : c.ready = ∅ := by rw [hcore]; rfl
  have hgranted : c.granted = [] := by rw [hcore]; rfl
  have hfrontier : c.frontier = 0 := by rw [hcore]; rfl
  refine ⟨by rw [hcore]; rfl, ?_, ?_, by omega, ?_, ?_, ?_, ?_, ?_, ?_, fun _ h => (by cases h)⟩
  · rw [List.map_map]
    exact List.pairwise_map.mpr hjobs
  · intro e he
    obtain ⟨job, hjob, rfl⟩ := mem_admissions he
    exact hnew job hjob
  · intro a ha b hb token htoken
    obtain ⟨job, -, rfl⟩ := mem_admissions ha
    cases htoken
  · intro e he
    obtain ⟨job, -, rfl⟩ := mem_admissions he
    show c.frontier ≤ job.ordinal
    omega
  · intro key token hkey
    rw [hready, Table.get?_empty] at hkey
    cases hkey
  · intro plan settled token hmem
    obtain ⟨job, -, heq⟩ := mem_admissions hmem
    cases heq
  · intro token htoken
    rw [hgranted] at htoken
    cases htoken
  · intro plan outcome hmem
    obtain ⟨job, -, heq⟩ := mem_admissions hmem
    cases heq

/-- The first of the results that are there is released. -/
theorem Tidy.release {plan : SubmissionPlan} {settled : Settled} {token : Nat} {d : Core}
    (h : Tidy ledger disposition none active c) (hmem : .observation plan settled token ∈ active)
    (hcore : d = { c with
      ready := c.ready.erase (ledger.key plan), granted := token :: c.granted, order := d.order }) :
    Tidy ledger disposition (some plan) active d := by
  have hnone : c.granted = [] := h.granted_nil
  have hgranted : d.granted = [token] := by rw [hcore, hnone]
  have hready : d.ready = c.ready.erase (ledger.key plan) := by rw [hcore]
  have hsame : d.prepared = c.prepared ∧ d.frontier = c.frontier ∧ d.nextToken = c.nextToken := by
    rw [hcore]
    exact ⟨rfl, rfl, rfl⟩
  obtain ⟨hprepared, hfrontier, htoken⟩ := hsame
  refine ⟨by rw [hcore]; exact h.fatal, h.ordinals, by rw [hprepared]; exact h.bounded,
    by rw [hprepared, hfrontier]; exact h.frontier, h.tokens, ?_, ?_, ?_, ?_, ?_, ?_⟩
  · intro e he
    have hplaced := h.placed e he
    cases e with
    | admission | submit | terminal | observation | finished =>
      simpa only [Placed, hfrontier, htoken] using hplaced
  · intro key other hkey
    rw [hready, Table.get?_erase] at hkey
    split at hkey
    · cases hkey
    · exact h.ready key other hkey
  · intro other settled' token' hother
    rw [hready, hgranted, Table.get?_erase]
    by_cases heq : ledger.key other = ledger.key plan
    · have hordinal : other.ordinal = plan.ordinal := congrArg (fun key => (ofLex key).2) heq
      have hsame := h.eq_of_ordinal hother hmem hordinal
      cases hsame
      exact .inr ⟨rfl, rfl, if_pos rfl⟩
    · rw [if_neg heq, List.mem_singleton]
      obtain ⟨hkey, -, -⟩ := (h.waiting other settled' token' hother).resolve_right
        fun ⟨_, hsome, _⟩ => (by cases hsome)
      refine .inl ⟨hkey, ?_, ?_⟩
      · rintro rfl
        have hsame := h.tokens _ hother _ hmem token' rfl rfl
        cases hsame
        exact heq rfl
      · rintro heq'
        cases heq'
        exact heq rfl
  · intro other hother
    rw [hgranted, List.mem_singleton] at hother
    subst hother
    exact ⟨plan, settled, hmem⟩
  · intro other outcome hother
    exact (nomatch (h.finished other outcome hother).1)
  · intro other hother
    cases hother
    exact .inr ⟨settled, token, hmem, hgranted⟩

end Completions

/-! ## Runs follow the abstract run -/

/-- The futures of the nodes that have not been observed. -/
def Drive.futures {S : Type} (drive : Drive S) : List Execution := drive.active ++ drive.jobs.map .admission

/-- The run is at the stage, and has released what the stage observes next or nothing. -/
structure Follows [Validators] {S : Type} (ledger : Ledger) (disposition : FlowSubmission → Disposition)
    (stage : Stage S) (released : Option SubmissionPlan) (drive : Drive S) : Prop where
  tidy : Tidy ledger disposition released drive.futures (core drive.host)
  prepared : drive.host.toPrepared = stage.prepared
  script : drive.script = stage.script
  waiting : drive.futures.map Execution.plan = stage.waiting
  order : drive.host.observationOrder =
    stage.order ++ (released.map fun plan => (ledger.resultOf plan).witnessSeq).toList
  least : ∀ plan, released = some plan → stage.waiting.argmin ledger.key = some plan

section Follows

variable [Validators] [Witness.Libraries] {S V : Type} {host : HostShared} {script : Script S V}
  {ledger : Ledger} {disposition : FlowSubmission → Disposition} {view : SubmissionPlan → V}
  {answers : Answers} {released : Option SubmissionPlan} {drive : Drive S} {stage : Stage S}

/-- No future waits for a result. -/
def Drive.Carried (drive : Drive S) : Prop :=
  ∀ e ∈ drive.futures, ∀ plan admission, e ≠ .terminal plan admission

namespace Follows

omit [Witness.Libraries] in
theorem polled (h : Follows ledger disposition stage released drive)
    (hanswers : answers.From ledger disposition) :
    ∃ polled after, drive.polled host answers = (polled, after) ∧
      Tidy ledger disposition released polled (core after) ∧ after.grantedObservations = [] ∧
      polled.map Execution.plan = stage.waiting ∧
      after.observationOrder = drive.host.observationOrder ∧ after.toPrepared = stage.prepared ∧
      (answers.Carries → drive.Carried → ∀ e ∈ polled, ∀ plan admission, e ≠ .terminal plan admission) := by
  have hgranted : drive.host.grantedObservations = [] ∨ ∃ plan settled token,
      .observation plan settled token ∈ drive.futures ∧ drive.host.grantedObservations = [token] := by
    cases hreleased : released with
    | none => exact .inl (hreleased ▸ h.tidy).granted_nil
    | some plan =>
      rcases h.tidy.released plan hreleased with ⟨outcome, hmem⟩ | ⟨settled, token, hmem, hone⟩
      · exact .inl (h.tidy.finished plan outcome hmem).2
      · exact .inr ⟨plan, settled, token, hmem, hone⟩
  obtain ⟨polled, after, hpoll, htidy, hnil, hplans, horder, hprepared, hcarries⟩ :=
    @Tidy.pollAll _ ledger disposition released answers host hanswers drive.futures [] drive.host h.tidy
      hgranted
  exact ⟨polled, after, hpoll, htidy, hnil, hplans.trans h.waiting, horder, hprepared.trans h.prepared,
    hcarries⟩

/-- A round in which nothing completes. -/
theorem beforeRelease_none (h : Follows ledger disposition stage none drive)
    (hanswers : answers.From ledger disposition) :
    Follows ledger disposition stage none (drive.beforeRelease host script answers) ∧
      (answers.Carries → drive.Carried → (drive.beforeRelease host script answers).Carried) := by
  obtain ⟨polled, after, hpoll, htidy, -, hplans, horder, hprepared, hcarries⟩ := h.polled hanswers
  have hround : drive.beforeRelease host script answers =
      { drive with host := after, jobs := [], active := polled } := by
    rw [Drive.beforeRelease, hpoll]
    dsimp only
    rw [completions_of_unfinished script htidy.unfinished]
  have hfutures : (drive.beforeRelease host script answers).futures = polled := by
    rw [hround, Drive.futures, List.map_nil, List.append_nil]
  refine ⟨⟨?_, ?_, ?_, ?_, ?_, fun _ h => (by cases h)⟩, fun hall hcarried => ?_⟩
  · rw [hfutures, hround]
    exact htidy
  · rw [hround]
    exact hprepared
  · rw [hround]
    exact h.script
  · rw [hfutures]
    exact hplans
  · rw [hround]
    exact horder.trans h.order
  · rw [Drive.Carried, hfutures]
    exact hcarries hall hcarried

/-- A round in which the node that was released completes. -/
theorem beforeRelease_some {plan : SubmissionPlan} (h : Follows ledger disposition stage (some plan) drive)
    (hanswers : answers.From ledger disposition)
    (hview : ∀ plan, view plan = script.read (settledOf ledger disposition plan).outcome) :
    Follows ledger disposition (stage.next host script ledger view) none
        (drive.beforeRelease host script answers) ∧
      (answers.Carries → drive.Carried → (drive.beforeRelease host script answers).Carried) := by
  obtain ⟨polled, after, hpoll, htidy, hnil, hplans, horder, hprepared, hcarries⟩ := h.polled hanswers
  obtain ⟨hcompleted, hleft⟩ := Tidy.completed script htidy hnil
  obtain ⟨drained, jobs, next, hdrain, hreact, hcore⟩ := drainSynchronous_react host
    (script.resume drive.script [(plan.ordinal, view plan)]) after []
  obtain ⟨prepared, new, next', hreact', hle, hpairwise, hnew⟩ := react_ordinals host
    (script.resume drive.script [(plan.ordinal, view plan)]) after.toPrepared []
  rw [hreact, List.nil_append, Prod.mk.injEq, Prod.mk.injEq] at hreact'
  obtain ⟨rfl, rfl, rfl⟩ := hreact'
  have hround : drive.beforeRelease host script answers =
      { host := drained, jobs := jobs, active := polled.filter fun e => !e.isFinished, script := next } := by
    rw [Drive.beforeRelease, hpoll]
    dsimp only
    rw [hcompleted, ← hview]
    dsimp only
    rw [hdrain]
  have hfutures : (drive.beforeRelease host script answers).futures =
      (polled.filter fun e => !e.isFinished) ++ jobs.map .admission := by
    rw [hround, Drive.futures]
  have hstage : stage.next host script ledger view =
      { prepared := drained.toPrepared
        waiting := stage.waiting.filter (fun other => other.ordinal ≠ plan.ordinal) ++ jobs
        script := next
        order := stage.order ++ [(ledger.resultOf plan).witnessSeq] } := by
    rw [Stage.next, h.least plan rfl]
    dsimp only
    rw [← h.script, ← hprepared, hreact]
  refine ⟨⟨?_, ?_, ?_, ?_, ?_, fun _ h => (by cases h)⟩, fun hall hcarried => ?_⟩
  · rw [hfutures, hround]
    exact htidy.settle hnil hcore hle hpairwise hnew
  · rw [hround, hstage]
  · rw [hround, hstage]
  · rw [hfutures, hstage, List.map_append, hleft, hplans, List.map_map]
    exact congrArg _ (List.map_id jobs)
  · rw [hround, hstage]
    have hsame : drained.observationOrder = after.observationOrder := congrArg Core.order hcore
    show drained.observationOrder = _
    rw [hsame, horder, h.order, Option.map_none, Option.toList_none, List.append_nil]
    rfl
  · rw [Drive.Carried, hfutures]
    intro e he
    rcases mem_left he with ⟨hmem, -⟩ | ⟨job, -, rfl⟩
    · exact hcarries hall hcarried e hmem
    · exact fun _ _ heq => (by cases heq)

omit [Witness.Libraries] in
/-- The result that an orderly run releases is the least of all that the stage waits for. -/
theorem least_of_orderly (h : Follows ledger disposition stage none drive) (hjobs : drive.jobs = [])
    (horderly : Orderly ledger drive) (hcaught : drive.host.admissionFrontier = drive.host.nextOrdinal)
    {key : Nat ×ₗ Nat} {token : Nat} {rest : List ((Nat ×ₗ Nat) × Nat)}
    (hready : drive.host.readyObservations.entries = (key, token) :: rest) :
    ∃ plan settled, .observation plan settled token ∈ drive.futures ∧ key = ledger.key plan ∧
      stage.waiting.argmin ledger.key = some plan := by
  have hget : drive.host.readyObservations.get? key = some token := by
    rw [← Table.mem_entries_iff, hready]
    exact List.mem_cons_self
  obtain ⟨plan, settled, hmem, rfl⟩ := h.tidy.ready key token hget
  refine ⟨plan, settled, hmem, rfl, ?_⟩
  have hleast : ∀ e ∈ drive.futures, ledger.key plan ≤ ledger.key e.plan := by
    intro e he
    cases hregistered : e.isRegistered with
    | false =>
      rw [Drive.futures, hjobs, List.map_nil, List.append_nil] at he
      have hfirst := horderly hcaught (ledger.key plan, token)
        (by rw [hready]; exact Option.mem_some_self _) e he hregistered
      exact hfirst.le
    | true =>
      cases e with
      | admission | submit | terminal => cases hregistered
      | finished other outcome => exact (nomatch (h.tidy.finished other outcome he).1)
      | observation other settled' token' =>
        obtain ⟨hother, -, -⟩ := (h.tidy.waiting other settled' token' he).resolve_right
          fun ⟨_, hsome, _⟩ => (by cases hsome)
        have hentry : (ledger.key other, token') ∈ drive.host.readyObservations.entries :=
          (Table.mem_entries_iff _).mpr hother
        have hsorted := drive.host.readyObservations.sorted
        rw [hready, List.pairwise_cons] at hsorted
        rw [hready] at hentry
        rcases List.mem_cons.mp hentry with heq | hentry
        · exact (congrArg Prod.fst heq).ge
        · exact (hsorted.1 _ hentry).le
  have hplan : plan ∈ stage.waiting := by
    rw [← h.waiting]
    exact List.mem_map_of_mem hmem
  cases hargmin : stage.waiting.argmin ledger.key with
  | none =>
    rw [List.argmin_eq_none] at hargmin
    rw [hargmin] at hplan
    exact absurd hplan List.not_mem_nil
  | some other =>
    have hother := List.argmin_mem hargmin
    have hle : ledger.key other ≤ ledger.key plan := List.le_of_mem_argmin hplan hargmin
    rw [← h.waiting] at hother
    obtain ⟨e, he, rfl⟩ := List.mem_map.mp hother
    have hkey : ledger.key e.plan = ledger.key plan := le_antisymm hle (hleast e he)
    have hordinal : e.plan.ordinal = plan.ordinal := congrArg (fun key => (ofLex key).2) hkey
    rw [h.tidy.eq_of_ordinal he hmem hordinal]
    rfl

omit [Witness.Libraries] in
/-- The end of a round. -/
theorem release (h : Follows ledger disposition stage none drive) (hjobs : drive.jobs = [])
    (horderly : Orderly ledger drive) :
    ∃ released, Follows ledger disposition stage released
      { drive with host := releaseReadyObservation drive.host } := by
  by_cases hcaught : drive.host.admissionFrontier = drive.host.nextOrdinal
  case neg =>
    rw [releaseReadyObservation, if_pos hcaught]
    exact ⟨none, h⟩
  rcases hready : drive.host.readyObservations.entries with _ | ⟨⟨key, token⟩, rest⟩
  · rw [releaseReadyObservation, if_neg (not_not.mpr hcaught), hready]
    exact ⟨none, h⟩
  obtain ⟨plan, settled, hmem, rfl, hleast⟩ := h.least_of_orderly hjobs horderly hcaught hready
  have hhost : releaseReadyObservation drive.host =
      { drive.host with
        readyObservations := drive.host.readyObservations.erase (ledger.key plan)
        grantedObservations := token :: drive.host.grantedObservations
        observationOrder := drive.host.observationOrder ++ [(ledger.resultOf plan).witnessSeq] } := by
    rw [releaseReadyObservation, if_neg (not_not.mpr hcaught), hready]
    rfl
  refine ⟨some plan, ?_⟩
  rw [hhost]
  refine ⟨?_, h.prepared, h.script, h.waiting, ?_, ?_⟩
  · exact h.tidy.release hmem rfl
  · show drive.host.observationOrder ++ _ = _
    rw [h.order, Option.map_none, Option.toList_none, List.append_nil]
    rfl
  · intro other hother
    cases hother
    exact hleast

/-- A round of the loop that releases in order. -/
theorem turn (h : Follows ledger disposition stage released drive)
    (hanswers : answers.From ledger disposition)
    (hview : ∀ plan, view plan = script.read (settledOf ledger disposition plan).outcome)
    (horderly : drive.mayRelease host script answers = true →
      Orderly ledger (drive.beforeRelease host script answers)) :
    ∃ released' stage', Follows ledger disposition stage' released' (drive.turn host script answers) ∧
      (stage' = stage ∨ stage' = stage.next host script ledger view) := by
  rw [Drive.turn]
  split
  · exact ⟨released, stage, h, .inl rfl⟩
  have hbefore : ∃ stage', Follows ledger disposition stage' none (drive.beforeRelease host script answers) ∧
      (stage' = stage ∨ stage' = stage.next host script ledger view) := by
    cases released with
    | none => exact ⟨stage, (h.beforeRelease_none hanswers).1, .inl rfl⟩
    | some plan => exact ⟨_, (h.beforeRelease_some hanswers hview).1, .inr rfl⟩
  obtain ⟨stage', hfollows, hstage⟩ := hbefore
  dsimp only
  split
  · next hmay =>
    have hjobs : (drive.beforeRelease host script answers).jobs = [] := by
      rw [Drive.mayRelease, Bool.and_eq_true, List.isEmpty_iff] at hmay
      exact hmay.2
    obtain ⟨released', hrelease⟩ := hfollows.release hjobs (horderly hmay)
    exact ⟨released', stage', hrelease, hstage⟩
  · exact ⟨none, stage', hfollows, hstage⟩

theorem start : Follows ledger disposition (Stage.start host script) none (Drive.start host script) := by
  obtain ⟨after, jobs, next, hdrain, hreact, hcore⟩ := drainSynchronous_react host script.start {} []
  obtain ⟨prepared, new, next', hreact', hle, hpairwise, hnew⟩ := react_ordinals host
    script.start {} []
  rw [hreact, List.nil_append, Prod.mk.injEq, Prod.mk.injEq] at hreact'
  obtain ⟨rfl, rfl, rfl⟩ := hreact'
  have hstart : Drive.start host script = { host := after, jobs := jobs, active := [], script := next } := by
    rw [Drive.start, hdrain]
  have hreact : react host script.start {} [] = (after.toPrepared, jobs, next) := hreact
  have hstage : Stage.start host script = ⟨after.toPrepared, jobs, next, []⟩ := by
    rw [Stage.start, hreact]
  rw [hstart, hstage]
  refine ⟨?_, rfl, rfl, ?_, congrArg Core.order hcore, fun _ h => (by cases h)⟩
  · exact .first hcore hpairwise fun job hjob => (hnew job hjob).2
  · rw [Drive.futures, List.nil_append, List.map_map]
    exact List.map_id jobs

/-- An orderly run is always at a stage of the abstract run. -/
theorem after {m : Nat} {turns : List Answers}
    (hview : ∀ plan, view plan = script.read (settledOf ledger disposition plan).outcome)
    (h : Follows ledger disposition (Stage.nth host script ledger view m) released drive)
    (hanswers : ∀ answers ∈ turns, answers.From ledger disposition)
    (horderly : OrderlyFrom host script ledger drive turns) :
    ∃ released' n, Follows ledger disposition (Stage.nth host script ledger view n) released'
      (turns.foldl (fun drive answers => drive.turn host script answers) drive) := by
  induction turns generalizing drive released m with
  | nil => exact ⟨released, m, h⟩
  | cons answers rest ih =>
    obtain ⟨released', stage', hturn, hstage⟩ :=
      h.turn (hanswers answers List.mem_cons_self) hview horderly.1
    have hnth : ∃ n, stage' = Stage.nth host script ledger view n := by
      rcases hstage with rfl | rfl
      · exact ⟨m, rfl⟩
      · exact ⟨m + 1, (Stage.nth_succ ..).symm⟩
    obtain ⟨n, rfl⟩ := hnth
    exact ih hturn (fun answers h => hanswers answers (List.mem_cons_of_mem _ h)) horderly.2

/-- What has been observed is what a stage has. -/
theorem order_eq {m : Nat} (h : Follows ledger disposition (Stage.nth host script ledger view m) released drive) :
    ∃ n, drive.host.observationOrder = (Stage.nth host script ledger view n).order := by
  rw [h.order]
  cases hreleased : released with
  | none => exact ⟨m, List.append_nil _⟩
  | some plan =>
    refine ⟨m + 1, ?_⟩
    rw [Stage.nth_succ, Stage.next, h.least plan hreleased]
    rfl

omit [Witness.Libraries] in
/-- A run that has ended waits for nobody. -/
theorem waiting_of_finished (h : Follows ledger disposition stage released drive)
    (hfinished : drive.finished = true) :
    stage.waiting = [] ∧ drive.host.observationOrder = stage.order := by
  rw [Drive.finished, Bool.and_eq_true, List.isEmpty_iff, List.isEmpty_iff] at hfinished
  have hfutures : drive.futures = [] := by
    rw [Drive.futures, hfinished.1, hfinished.2]
    rfl
  refine ⟨by rw [← h.waiting, hfutures]; rfl, ?_⟩
  rw [h.order]
  cases hreleased : released with
  | none => exact List.append_nil _
  | some plan =>
    have hnone := h.tidy.released plan hreleased
    rw [hfutures] at hnone
    rcases hnone with ⟨_, hmem⟩ | ⟨_, _, hmem, -⟩ <;> cases hmem

end Follows

/-! ## Replays are orderly -/

omit [Witness.Libraries] in
/-- Where no future waits for a result, none is without it once the frontier has caught up. -/
theorem Drive.Carried.orderly (h : drive.Carried) (hfollows : Follows ledger disposition stage none drive) :
    Orderly ledger drive := by
  intro hcaught first _ execution hmem hregistered
  have hmem : execution ∈ drive.futures := List.mem_append_left _ hmem
  have hbounded : execution.plan.ordinal < drive.host.nextOrdinal := hfollows.tidy.bounded execution hmem
  have hplaced := hfollows.tidy.placed execution hmem
  cases execution with
  | admission plan =>
    have hplaced : drive.host.admissionFrontier ≤ plan.ordinal := hplaced
    have hbounded : plan.ordinal < drive.host.nextOrdinal := hbounded
    omega
  | submit plan =>
    have hplaced : drive.host.admissionFrontier = plan.ordinal := hplaced
    have hbounded : plan.ordinal < drive.host.nextOrdinal := hbounded
    omega
  | terminal plan admission => exact absurd rfl (h _ hmem plan admission)
  | observation | finished => cases hregistered

/-- Every release of a replay is orderly. -/
theorem orderlyFrom_of_carries {turns : List Answers} {m : Nat}
    (hview : ∀ plan, view plan = script.read (settledOf ledger disposition plan).outcome)
    (h : Follows ledger disposition (Stage.nth host script ledger view m) released drive)
    (hcarried : drive.Carried)
    (hanswers : ∀ answers ∈ turns, answers.From ledger disposition ∧ answers.Carries) :
    OrderlyFrom host script ledger drive turns := by
  induction turns generalizing drive released m with
  | nil => trivial
  | cons answers rest ih =>
    obtain ⟨hfrom, hcarries⟩ := hanswers answers List.mem_cons_self
    have hbefore : ∃ n, Follows ledger disposition (Stage.nth host script ledger view n) none
        (drive.beforeRelease host script answers) ∧ (drive.beforeRelease host script answers).Carried := by
      cases released with
      | none =>
        obtain ⟨hround, hnext⟩ := h.beforeRelease_none hfrom
        exact ⟨m, hround, hnext hcarries hcarried⟩
      | some plan =>
        obtain ⟨hround, hnext⟩ := h.beforeRelease_some hfrom hview
        exact ⟨m + 1, by rw [Stage.nth_succ]; exact hround, hnext hcarries hcarried⟩
    obtain ⟨n, hround, hnext⟩ := hbefore
    have horderly := hnext.orderly hround
    refine ⟨fun _ => horderly, ?_⟩
    obtain ⟨released', stage', hturn, hstage⟩ := h.turn hfrom hview fun _ => horderly
    have hnth : ∃ n, stage' = Stage.nth host script ledger view n := by
      rcases hstage with rfl | rfl
      · exact ⟨m, rfl⟩
      · exact ⟨m + 1, (Stage.nth_succ ..).symm⟩
    obtain ⟨k, rfl⟩ := hnth
    refine ih hturn ?_ fun answers h => hanswers answers (List.mem_cons_of_mem _ h)
    rw [Drive.turn]
    split
    · exact hcarried
    · dsimp only
      split
      · exact hnext
      · exact hnext

theorem carried_start : (Drive.start host script).Carried := by
  intro e he plan admission
  have hactive : (Drive.start host script).active = [] := rfl
  rw [Drive.futures, hactive, List.nil_append] at he
  obtain ⟨job, -, rfl⟩ := mem_admissions he
  exact fun heq => (by cases heq)

end Follows

/-! ## A live run and its replay -/

section Replay

variable [Validators] [Witness.Libraries] {S V : Type}

/-- **A replay observes what an orderly live run observed, in the same order.** Both run the script over the
same ledger, and the script reads the same of every result. Whenever the results of the live run reach the
host, and whenever the answers of the replay do, one has observed a first part of what the other has; and
the same, if both have ended. -/
theorem replay_follows_live (host : HostShared) (script : Script S V) (ledger : Ledger)
    (live replay : FlowSubmission → Disposition)
    (hread : ∀ plan, script.read (settledOf ledger live plan).outcome =
      script.read (settledOf ledger replay plan).outcome)
    (liveTurns replayTurns : List Answers)
    (hlive : ∀ answers ∈ liveTurns, answers.From ledger live)
    (horderly : OrderlyFrom host script ledger (Drive.start host script) liveTurns)
    (hreplay : ∀ answers ∈ replayTurns, answers.From ledger replay ∧ answers.Carries) :
    let first := Drive.after host script liveTurns
    let second := Drive.after host script replayTurns
    (first.host.observationOrder <+: second.host.observationOrder ∨
        second.host.observationOrder <+: first.host.observationOrder) ∧
      (first.finished = true → second.finished = true →
        first.host.observationOrder = second.host.observationOrder) := by
  intro first second
  let view := fun plan => script.read (settledOf ledger live plan).outcome
  have hstart : ∀ disposition, Follows ledger disposition (Stage.nth host script ledger view 0) none
      (Drive.start host script) := fun _ => .start
  obtain ⟨released, m, hfirst⟩ := (hstart live).after (fun _ => rfl) hlive horderly
  obtain ⟨released', n, hsecond⟩ := (hstart replay).after hread (fun answers h => (hreplay answers h).1)
    (orderlyFrom_of_carries hread (hstart replay) carried_start hreplay)
  constructor
  · obtain ⟨k, hk⟩ := hfirst.order_eq
    obtain ⟨l, hl⟩ := hsecond.order_eq
    show first.host.observationOrder <+: _ ∨ second.host.observationOrder <+: _
    rw [show first.host.observationOrder = _ from hk, show second.host.observationOrder = _ from hl]
    rcases le_total k l with hle | hle
    · exact .inl (Stage.order_mono hle)
    · exact .inr (Stage.order_mono hle)
  · intro hended hended'
    obtain ⟨hnone, horder⟩ := hfirst.waiting_of_finished hended
    obtain ⟨hnone', horder'⟩ := hsecond.waiting_of_finished hended'
    rw [show first.host.observationOrder = _ from horder, show second.host.observationOrder = _ from horder']
    rcases le_total m n with hle | hle
    · rw [Stage.nth_of_none hle hnone]
    · rw [Stage.nth_of_none hle hnone']

end Replay

/-! ## A result that arrives early -/

namespace ReplaySample

local instance validators : Validators where
  validatorFor _ := .ok ()
  iterErrors _ _ := []

local instance libraries : Witness.Libraries where
  fromStr _ := .error "no text"
  decodeValue value := .ok value
  sha256 _ := "00"
  decodeContent _ := .error "not a record"
  f64ToValue _ := .null
  isFiniteLexeme _ := true
  legacyF64 n := .ok n
  rfc3339Millis _ := none
  isUuid _ := false

/-- Two nodes, and nothing more whatever comes of them. -/
def script : Script Unit Unit where
  read _ := ()
  start :=
    .job (AdmissionSample.node none) ⟨none, none⟩ true ⟨1, 1⟩ fun _ =>
      .job (AdmissionSample.node none) ⟨none, none⟩ true ⟨2, 1⟩ fun _ => .idle ()
  resume _ _ := .idle ()

/-- Two nodes, and one more when the first of them is observed. -/
def adding : Script Bool Unit where
  read _ := ()
  start :=
    .job (AdmissionSample.node none) ⟨none, none⟩ true ⟨1, 1⟩ fun _ =>
      .job (AdmissionSample.node none) ⟨none, none⟩ true ⟨2, 1⟩ fun _ => .idle false
  resume added _ :=
    if added then .idle true
    else .job (AdmissionSample.node none) ⟨none, none⟩ true ⟨3, 1⟩ fun _ => .idle true

/-- Every task has a result with the sequence number that it is given. -/
def ledgerOf (witnessSeq : String → Nat) (hpos : ∀ task, witnessSeq task ≠ 0) : Ledger where
  task submission := (submission.dedupKey, 1)
  result task _ := {
    taskUuid := task
    taskRef := none
    verdict := .pass
    exitCode := none
    stderrExcerpt := none
    stderrTruncated := none
    witnessSeq := witnessSeq task
    disposition := .terminal
    model := none
    result := none
    gates := none
    error := none }
  taskUuid _ _ := rfl
  witnessSeq task _ := hpos task

/-- The first node has the first result of the ledger. -/
def ledger : Ledger :=
  ledgerOf (fun task => if task = "flow:r:0" then 1 else 2) fun task => by split <;> decide

/-- The first node has the last result of the ledger, after that of the node that is added. -/
def late : Ledger :=
  ledgerOf (fun task => if task = "flow:r:0" then 3 else if task = "flow:r:1" then 1 else 2)
    fun task => by
      split
      · decide
      · split <;> decide

def admission (disposition : Disposition) (terminal : Option NodeResult) (submission : FlowSubmission) : Admission where
  schemaVersion := 1
  disposition := disposition
  taskUuid := submission.dedupKey
  taskRef := none
  payloadHash := submission.payloadHash
  attempt := 1
  terminal := terminal
  recordedLabel := none
  reusedRejected := none

section

variable (seq : String → Nat) (hpos : ∀ task, seq task ≠ 0)

/-- A live run in which the results of some tasks have arrived. -/
def live (ledger : Ledger) (arrived : String → Bool) : Answers where
  submit submission := some (.ok (admission .created none submission))
  awaitTerminal task attempt := if arrived task then some (.ok (ledger.result task attempt)) else none
  sink _ _ := .ok ()

def replay (ledger : Ledger) : Answers where
  submit submission := some (.ok (admission .reused (some (ledger.result submission.dedupKey 1)) submission))
  awaitTerminal _ _ := none
  sink _ _ := .ok ()

theorem live_from (arrived : String → Bool) :
    (live (ledgerOf seq hpos) arrived).From (ledgerOf seq hpos) fun _ => .created where
  submit submission answer h := by
    cases h
    exact ⟨_, rfl, rfl, rfl, rfl, rfl, fun _ h => (by cases h), fun _ => .inl rfl⟩
  awaitTerminal task attempt answer h := by
    simp only [live] at h
    split at h <;> cases h
    rfl
  sink _ _ := rfl

theorem replay_from : (replay (ledgerOf seq hpos)).From (ledgerOf seq hpos) fun _ => .reused where
  submit submission answer h := by
    cases h
    refine ⟨_, rfl, rfl, rfl, rfl, rfl, fun _ h => ?_, fun h => (by cases h)⟩
    cases h
    rfl
  awaitTerminal _ _ _ h := (by cases h)
  sink _ _ := rfl

end

theorem replay_carries (ledger : Ledger) : (replay ledger).Carries := by
  intro submission admission h
  cases h
  exact fun h => (by cases h)

/-- The results arrive in the order of the ledger, that of the first node last. -/
def inOrder : List Answers :=
  [live late (· = "flow:r:1"), live late (· = "flow:r:1"), live late (· = "flow:r:2"),
    live late fun _ => true, live late fun _ => true]

/-- The second result of the ledger arrives before the first. -/
def early : List Answers :=
  [live ledger (· = "flow:r:1"), live ledger fun _ => true, live ledger fun _ => true]

def replayed (ledger : Ledger) (turns : Nat) : List Answers := List.replicate turns (replay ledger)

theorem replay_follows_in_order :
    (Drive.after AdmissionSample.host adding inOrder).host.observationOrder = [1, 2, 3] ∧
    (Drive.after AdmissionSample.host adding inOrder).host.observationOrder =
      (Drive.after AdmissionSample.host adding (replayed late 5)).host.observationOrder := by
  refine ⟨by decide +kernel, (replay_follows_live AdmissionSample.host adding late (fun _ => .created)
    (fun _ => .reused) (fun _ => rfl) inOrder (replayed late 5) ?_ (by decide +kernel) ?_).2
    (by decide +kernel) (by decide +kernel)⟩
  · intro answers h
    simp only [inOrder, List.mem_cons, List.not_mem_nil, or_false] at h
    rcases h with rfl | rfl | rfl | rfl | rfl <;> exact live_from _ _ _
  · intro answers h
    rw [List.eq_of_mem_replicate h]
    exact ⟨replay_from _ _, replay_carries _⟩

/-- The two runs have the same nodes with the same results, and observe them in different orders. -/
theorem early_result_observed_first :
    ¬ ∀ liveTurns replayTurns : List Answers,
      (∀ answers ∈ liveTurns, answers.From ledger fun _ => .created) →
      (∀ answers ∈ replayTurns, answers.From ledger (fun _ => .reused) ∧ answers.Carries) →
      (Drive.after AdmissionSample.host script liveTurns).finished = true →
      (Drive.after AdmissionSample.host script replayTurns).finished = true →
      (Drive.after AdmissionSample.host script liveTurns).host.observationOrder =
        (Drive.after AdmissionSample.host script replayTurns).host.observationOrder := by
  intro h
  have hlive : ∀ answers ∈ early, answers.From ledger fun _ => .created := by
    intro answers h
    simp only [early, List.mem_cons, List.not_mem_nil, or_false] at h
    rcases h with rfl | rfl | rfl <;> exact live_from _ _ _
  have hreplay : ∀ answers ∈ replayed ledger 3,
      answers.From ledger (fun _ => .reused) ∧ answers.Carries := by
    intro answers h
    rw [List.eq_of_mem_replicate h]
    exact ⟨replay_from _ _, replay_carries _⟩
  have hfirst : (Drive.after AdmissionSample.host script early).host.observationOrder = [2, 1] := by
    decide +kernel
  have hsecond : (Drive.after AdmissionSample.host script (replayed ledger 3)).host.observationOrder =
      [1, 2] := by
    decide +kernel
  have hsame := h early (replayed ledger 3) hlive hreplay (by decide +kernel) (by decide +kernel)
  rw [hfirst, hsecond] at hsame
  cases hsame

end ReplaySample

end Tally.Flow
