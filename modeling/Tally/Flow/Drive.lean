import Mathlib.Data.List.MinMax
import Tally.Flow.Admission

/-!
# The turns of a flow run

`FlowJobExecutor::drive`: the script runs until it is idle, the futures of its jobs are polled, what has
completed goes back to the script, and when that asks for no new job one observation is released. A script
is what it does next (`Reaction`) and reads of a settled promise what it likes (`Script.read`). Budgets and
timer jobs end a run early and are left out.
-/

namespace Tally.Flow

open Tally.Lib
open Tally (Eff)

/-! ## Scripts -/

/-- What a script does until it is idle. -/
inductive Reaction (S : Type)
  | idle (state : S)
  | job (spec : NodeSpec) (revisions : NodeRevisions) (settle : Bool) (location : SourceLocation)
      (next : Except FlowError Nat → Reaction S)
  | log (message : Value) (location : SourceLocation) (next : Reaction S)

/-- A script with states `S` that sees results as `V`. -/
structure Script (S V : Type) where
  read : Except FlowError NodeResult → V
  start : Reaction S
  resume : S → List (Nat × V) → Reaction S

structure Drive (S : Type) where
  host : HostState
  /-- `async_jobs`: accepted nodes whose futures have not been polled. -/
  jobs : List SubmissionPlan
  active : List Execution
  script : S

section Drive

variable [Validators] [Witness.Libraries] {S V : Type} (host : HostShared) (script : Script S V)

/-- The promise jobs of the engine, until there are none. -/
def drainSynchronous : Reaction S → HostState → List SubmissionPlan → HostState × List SubmissionPlan × S
  | .idle next, state, jobs => (state, jobs, next)
  | .job spec revisions settle location next, state, jobs =>
    match (prepareSubmission host location spec revisions settle).exec state.toPrepared with
    | (.ok plan, prepared) =>
      drainSynchronous (next (.ok plan.ordinal)) { state with toPrepared := prepared } (jobs ++ [plan])
    | (.error error, prepared) =>
      drainSynchronous (next (.error error)) { state with toPrepared := prepared } jobs
  | .log message location next, state, jobs => drainSynchronous next (queueLog host message location state) jobs

/-- One poll of every future, in their order. -/
def pollAll (answers : Answers) : List Execution → HostState → List Execution × HostState
  | [], state => ([], state)
  | execution :: rest, state =>
    let (next, state) := poll host answers execution state
    let (rest, state) := pollAll answers rest state
    (next :: rest, state)

/-- The futures that have completed, with what the script reads of them. -/
def completions (active : List Execution) : List (Nat × V) :=
  active.filterMap fun
    | .finished plan outcome => some (plan.ordinal, script.read outcome)
    | _ => none

def Execution.isFinished : Execution → Bool
  | .finished _ _ => true
  | _ => false

namespace Drive

/-- Before the first turn. -/
def start : Drive S :=
  let (state, jobs, next) := drainSynchronous host script.start {} []
  { host := state, jobs := jobs, active := [], script := next }

/-- The futures after one poll of each, and what they have left. -/
def polled (answers : Answers) (drive : Drive S) : List Execution × HostState :=
  pollAll host answers (drive.active ++ drive.jobs.map .admission) drive.host

/-- The turn up to where it may release an observation. -/
def beforeRelease (answers : Answers) (drive : Drive S) : Drive S :=
  let (active, state) := drive.polled host answers
  match completions script active with
  | [] => { drive with host := state, jobs := [], active := active }
  | first :: more =>
    let (state, jobs, next) := drainSynchronous host (script.resume drive.script (first :: more)) state []
    { host := state, jobs := jobs, active := active.filter fun execution => !execution.isFinished, script := next }

/-- The turn ends: a future has completed or an observation is ready, and no job is new. -/
def mayRelease (answers : Answers) (drive : Drive S) : Bool :=
  let (active, state) := drive.polled host answers
  (!(completions script active).isEmpty || hasReadyObservation state) &&
    (drive.beforeRelease host script answers).jobs.isEmpty

/-- The loop ends. -/
def finished (drive : Drive S) : Bool := drive.active.isEmpty && drive.jobs.isEmpty

/-- One round of the loop of `drive`, or a poll that leaves it waiting. -/
def turn (answers : Answers) (drive : Drive S) : Drive S :=
  if drive.host.fatal.isSome || drive.finished then
    drive
  else
    let next := drive.beforeRelease host script answers
    if drive.mayRelease host script answers then { next with host := releaseReadyObservation next.host }
    else next

def after (turns : List Answers) : Drive S :=
  turns.foldl (fun drive answers => drive.turn host script answers) (start host script)

end Drive

end Drive

end Tally.Flow
