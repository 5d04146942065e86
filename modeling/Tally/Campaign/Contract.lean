import Tally.Lib.Canonical
import Tally.Lib.Schedule
import Tally.Lib.Table
import Tally.Lease.Basic
import Tally.Witness.Record

/-!
# Campaign manifests

The manifest of a campaign, its admission check and the identities of its tasks
(`campaign_contract.rs`). What a manifest that is accepted promises is `Executable`: an order of the
tasks in which every one can be started. The identities are hashes of canonical JSON.
-/

namespace Tally.Campaign

open Tally.Lib
open Tally.Witness (isAsciiAlphanumeric present strings)

/-! ## Data -/

structure CampaignRepository where
  checkout : PathBuf
  baseBranch : String
  remote : String
  forge : String

structure CampaignAgent where
  adapter : String
  argv : List String
  priority : String
  runtimeMaxSec : Option UInt64
  approvalPolicy : Option String
  sandboxPolicy : Option String
  diagnosisSandboxPolicy : Option String
  model : Option String

inductive CampaignGate
  | command (id : String) (preflightArgv argv : List String) (runtimeMaxSec : UInt64)
  | forbidPaths (id : String) (forbidPaths : List String) (runtimeMaxSec : UInt64)
  deriving DecidableEq

def CampaignGate.id : CampaignGate → String
  | command id _ _ _ => id
  | forbidPaths id _ _ => id

structure CampaignTaskReference where
  id : String
  kind : String
  issue : UInt64
  dependencies : List String
  conflictDomains : Option (List String)
  argv : Option (List String)
  runtimeMaxSec : Option UInt64
  deriving DecidableEq

structure CampaignSteward where
  adapter : String
  argv : List String
  env : Table String String
  finalMessagePattern : String
  runtimeMaxSec : Option UInt64

structure CampaignManifest where
  schemaVersion : UInt32
  name : String
  repository : CampaignRepository
  maxTasks : Nat
  maxParallel : Nat
  driverRuntimeMaxSec : UInt64
  runtimeMaxSec : Option UInt64
  pool : String
  mergeMethod : String
  agent : CampaignAgent
  steward : Option CampaignSteward
  gates : List CampaignGate
  tasks : List CampaignTaskReference

/-- The content of the issue of a task. -/
structure CanonicalCampaignTask where
  number : UInt64
  title : String
  body : String
  deriving DecidableEq

/-- What the admission takes from the library for regular expressions. -/
class Regexes where
  /-- `Regex::new(pattern)`, and the capture groups of the result other than the whole match. -/
  captures : String → Except String Nat

/-! ## Shapes of text -/

def isLowerOrDigit (c : Char) : Bool := c.isDigit || ('a' ≤ c && c ≤ 'z')

def safeComponent (value : String) : Bool :=
  value != "" && decide (value.utf8ByteSize ≤ 80) && value != "." && value != ".." &&
    (value.toList.head?.any fun c => isAsciiAlphanumeric c || c == '_') &&
    value.toList.all fun c => isAsciiAlphanumeric c || c == '_' || c == '.' || c == '-'

def nonEmptyWithoutControls (value : String) : Bool := value != "" && !value.toList.any isControl

def nonEmptyBoundedWithoutControls (value : String) (maximum : Nat) : Bool :=
  nonEmptyWithoutControls value && decide (value.length ≤ maximum)

def safeTaskId (value : String) : Bool :=
  value != "" && decide (value.utf8ByteSize ≤ 80) && value.toList.head?.any isLowerOrDigit &&
    value.toList.getLast?.any isLowerOrDigit && value.toList.all fun c => isLowerOrDigit c || c == '-'

/-! ## Checks of the parts -/

def validateArgv (argv : List String) (context : String) : Except String Unit :=
  ensure (argv ≠ [] ∧ argv.all nonEmptyWithoutControls)
    (context ++ " must be a non-empty direct argv of non-empty strings without control characters")

def validateAgent (agent : CampaignAgent) : Except String Unit := do
  ensure (nonEmptyWithoutControls agent.adapter) "campaign agent.adapter must be non-empty"
  validateArgv agent.argv "campaign agent.argv"
  ensure (agent.priority ∈ ["interrupt", "high", "medium", "low"]) "campaign agent.priority is invalid"
  ensure (agent.runtimeMaxSec ≠ some 0 ∧ agent.approvalPolicy.all nonEmptyWithoutControls ∧
      agent.sandboxPolicy.all nonEmptyWithoutControls ∧
      agent.diagnosisSandboxPolicy.all nonEmptyWithoutControls ∧
      agent.model.all fun model => nonEmptyBoundedWithoutControls model 128)
    "campaign agent limits, policy names, and model must be non-empty and bounded"

def containsPair (a b : Char) : List Char → Bool
  | x :: y :: rest => (x == a && y == b) || containsPair a b (y :: rest)
  | _ => false

def forbidPatternShape (pattern : String) : Bool :=
  let components := pattern.toList.splitOn '/'
  pattern != "" && decide (pattern.length ≤ 1024) && pattern.toList.head? != some '/' &&
    pattern.toList.getLast? != some '/' && !pattern.toList.contains '\x00' &&
    !components.contains ['.', '.'] &&
    components.all fun component => !containsPair '*' '*' component || component == ['*', '*']

def validateGate (gate : CampaignGate) : Except String Unit :=
  match gate with
  | .command _ preflightArgv argv runtimeMaxSec => do
    validateArgv preflightArgv "campaign gate preflightArgv"
    validateArgv argv "campaign gate argv"
    ensure (runtimeMaxSec ≠ 0) "campaign gate runtimeMaxSec must be positive"
  | .forbidPaths _ patterns runtimeMaxSec => do
    ensure (patterns ≠ [] ∧ patterns.length ≤ 128 ∧ runtimeMaxSec ≠ 0)
      "forbidPaths gates require 1..=128 patterns and a positive runtimeMaxSec"
    ensure (patterns.all forbidPatternShape ∧ patterns.Nodup)
      "campaign forbidPaths patterns are invalid"

/-- The loop over the gates; `identifiers` are those before it. -/
def validateGatesFrom (identifiers : List String) : List CampaignGate → Except String Unit
  | [] => return ()
  | gate :: rest => do
    ensure (safeComponent gate.id ∧ gate.id ∉ identifiers) "campaign gate ids must be safe and unique"
    validateGate gate
    validateGatesFrom (gate.id :: identifiers) rest

def validateGates (gates : List CampaignGate) : Except String Unit := do
  ensure (gates ≠ [] ∧ gates.length ≤ 16) "campaign gates must contain 1..=16 entries"
  validateGatesFrom [] gates

def stewardPatternError (reason : String) : String := "campaign steward finalMessagePattern " ++ reason

def portableEscapes : List Char :=
  ['\x5c', '.', '^', '$', '|', '?', '*', '+', '(', ')', '[', ']', '\x7b', '\x7d', '-', '/', 'd', 'D',
    's', 'S', 'w', 'W', 'n', 'r', 't', 'f']

def isHexDigit (c : Char) : Bool := c.isDigit || ('a' ≤ c && c ≤ 'f') || ('A' ≤ c && c ≤ 'F')

/-- The scan of the pattern; `inClass` says whether it is inside a character class. -/
def scanPattern (inClass : Bool) : List Char → Except String Unit
  | [] => return ()
  | '\x5c' :: rest =>
    match rest with
    | [] => throw (stewardPatternError "ends with an incomplete escape")
    | escaped :: rest =>
      if escaped.isDigit || escaped == 'k' || escaped == 'g' then
        throw (stewardPatternError "must not contain backreferences")
      else if escaped = 'x' then
        match rest with
        | a :: b :: rest =>
          if isHexDigit a && isHexDigit b then scanPattern inClass rest
          else throw (stewardPatternError "contains an invalid hexadecimal escape")
        | _ => throw (stewardPatternError "contains an invalid hexadecimal escape")
      else if escaped ∈ portableEscapes then scanPattern inClass rest
      else throw (stewardPatternError ("contains non-portable escape \\" ++ escaped.toString))
  | '[' :: rest =>
    if inClass then throw (stewardPatternError "contains a non-portable nested character class")
    else scanPattern true rest
  | ']' :: rest => scanPattern false rest
  | c :: rest =>
    if inClass && (c ∈ ['&', '-', '~', '|'] && rest.head? == some c) then
      throw (stewardPatternError "contains a non-portable character-class operation")
    else if !inClass && c == '(' && rest.head? == some '?' && rest.tail.head? != some ':' then
      throw (stewardPatternError
        "must not contain look-around, named or conditional groups, or inline flags")
    else scanPattern inClass rest

def validateStewardPattern [Regexes] (pattern : String) : Except String Unit := do
  ensure (nonEmptyBoundedWithoutControls pattern 1024) (stewardPatternError
    "must be non-empty, contain no control characters, and contain at most 1024 characters")
  scanPattern false pattern.toList
  let captures ← (Regexes.captures pattern).mapError fun error =>
    stewardPatternError ("is not valid in the portable regex subset: " ++ error)
  ensure (captures = 1) (stewardPatternError
    ("must contain exactly one capture group, found " ++ toString captures))

def assignableName (name : String) : Bool :=
  name != "" && name != "TALLY_BRIEF" &&
    name.toList.zipIdx.all fun (c, index) =>
      c == '_' || (isAsciiAlphanumeric c && !c.isDigit) || (decide (0 < index) && c.isDigit)

def validateSteward [Regexes] (steward : CampaignSteward) : Except String Unit := do
  ensure (safeComponent steward.adapter) "campaign steward adapter is not a safe component"
  validateArgv steward.argv "campaign steward argv"
  ensure (steward.runtimeMaxSec ≠ some 0) "campaign steward runtimeMaxSec must be positive"
  ensure (steward.env.entries.length ≤ 64) "campaign steward env must contain at most 64 entries"
  steward.env.entries.forM fun (name, value) => do
    ensure (assignableName name) ("campaign steward env name " ++ debugText name ++
      " is not an assignable environment identifier")
    ensure (nonEmptyBoundedWithoutControls value 4096) ("campaign steward env value for " ++
      debugText name ++ " must be non-empty, contain no control characters, and contain at most 4096 " ++
      "characters")
  validateStewardPattern steward.finalMessagePattern

/-- A relative path without `..`, and without `.` in front; the library drops other `.`. -/
def normalizedDomain (domain : String) : Bool :=
  let components := domain.toList.splitOn '/'
  domain != "" && domain.toList.getLast? != some '/' && domain.toList.head? != some '/' &&
    components.head? != some ['.'] && !components.contains ['.', '.']

def validateConflictDomains (domains : Option (List String)) (required : Bool) : Except String Unit :=
  match domains with
  | none => ensure (required = false) "must be non-empty when campaign maxParallel is greater than one"
  | some domains => do
    ensure (required → domains ≠ []) "must be non-empty when campaign maxParallel is greater than one"
    ensure (domains.all normalizedDomain ∧ domains.Nodup)
      "must contain unique normalized relative paths"

/-! ## The check of the tasks -/

/-- The loop over the dependencies of a task; `prior` are the ids of the tasks up to this one. -/
def checkDependencies (task : CampaignTaskReference) (prior : List String) (seen : List String) :
    List String → Except String Unit
  | [] => return ()
  | dependency :: rest => do
    ensure (dependency ∉ seen)
      ("campaign task " ++ task.id ++ " repeats dependency " ++ dependency)
    ensure (dependency ∈ prior)
      ("campaign task " ++ task.id ++ " dependency " ++ dependency ++ " must name an earlier task")
    checkDependencies task prior (dependency :: seen) rest

def checkKind (maxParallel : Nat) (task : CampaignTaskReference) : Except String Unit :=
  if task.kind = "implementation" then do
    ensure (task.argv = none ∧ task.runtimeMaxSec = none)
      ("implementation task " ++ task.id ++ " must not carry argv or runtimeMaxSec")
    (validateConflictDomains task.conflictDomains (decide (1 < maxParallel))).mapError fun error =>
      "campaign task " ++ task.id ++ " conflictDomains: " ++ error
  else do
    ensure (task.conflictDomains = none)
      ("checkpoint task " ++ task.id ++ " must not carry conflictDomains")
    let argv ← orError task.argv ("checkpoint task " ++ task.id ++ " requires argv")
    validateArgv argv ("checkpoint task " ++ task.id ++ " argv")
    ensure (task.runtimeMaxSec.any (0 < ·))
      ("checkpoint task " ++ task.id ++ " requires a positive runtimeMaxSec")

/-- The loop over the tasks; `prior` and `issues` are the ids and issues of the tasks before it. The id
of a task is among the prior ones when its own dependencies are looked at. -/
def checkTasks (maxParallel : Nat) (prior : List String) (issues : List UInt64) :
    List CampaignTaskReference → Except String Unit
  | [] => return ()
  | task :: rest => do
    ensure (task.kind = "implementation" ∨ task.kind = "checkpoint")
      ("campaign task " ++ task.id ++ " kind must be implementation or checkpoint")
    ensure (safeTaskId task.id) ("campaign task id " ++ debugText task.id ++ " is invalid")
    ensure (task.id ∉ prior) ("campaign repeats task id " ++ debugText task.id)
    ensure (task.issue ≠ 0 ∧ task.issue ∉ issues)
      "campaign task issue numbers must be positive and unique"
    checkDependencies task (task.id :: prior) [] task.dependencies
    checkKind maxParallel task
    checkTasks maxParallel (task.id :: prior) (task.issue :: issues) rest

def maxCampaignTasks : Nat := 128

def validateManifest [Regexes] (manifest : CampaignManifest) : Except String Unit := do
  ensure (manifest.schemaVersion = 1) "campaign manifest schemaVersion must equal 1"
  ensure (safeComponent manifest.name) "campaign name is not a safe component"
  ensure manifest.repository.checkout.isAbsolute "campaign repository.checkout must be absolute"
  ensure (nonEmptyWithoutControls manifest.repository.baseBranch)
    "campaign repository.baseBranch must be non-empty"
  ensure (safeComponent manifest.repository.remote)
    "campaign repository.remote is not a safe Git remote name"
  ensure (manifest.repository.forge = "github" ∨ manifest.repository.forge = "local")
    "campaign repository.forge must be github or local"
  ensure (1 ≤ manifest.maxTasks ∧ manifest.maxTasks ≤ maxCampaignTasks)
    "campaign maxTasks must be in 1..=128"
  ensure (1 ≤ manifest.maxParallel ∧ manifest.maxParallel ≤ manifest.maxTasks)
    "campaign maxParallel must be positive and not exceed maxTasks"
  ensure (manifest.driverRuntimeMaxSec ≠ 0 ∧ manifest.runtimeMaxSec ≠ some 0)
    "campaign runtime limits must be positive when present"
  ensure (safeComponent manifest.pool ∨ Lease.isCampaignPoolName manifest.pool)
    "campaign pool must be a safe component or use campaign/OWNER/REPO form"
  ensure (manifest.mergeMethod = "merge" ∨ manifest.mergeMethod = "squash")
    "campaign mergeMethod must be merge or squash"
  validateAgent manifest.agent
  match manifest.steward with
  | none => pure ()
  | some steward => validateSteward steward
  validateGates manifest.gates
  ensure (manifest.tasks ≠ [] ∧ manifest.tasks.length ≤ manifest.maxTasks)
    ("campaign contains " ++ toString manifest.tasks.length ++ " tasks but manifest maxTasks is " ++
      toString manifest.maxTasks ++ " — " ++
      (if manifest.tasks.isEmpty then "add at least one task to the campaign manifest"
        else "raise \"maxTasks\" in the campaign manifest"))
  checkTasks manifest.maxParallel [] [] manifest.tasks

/-! ## Executable graphs -/

/-- What an accepted manifest promises a scheduler. -/
structure Executable (tasks : List CampaignTaskReference) : Prop where
  /-- No two tasks have one id. -/
  unique : (tasks.map (·.id)).Nodup
  /-- A dependency names a task strictly earlier in the list. -/
  earlier : WaitsForEarlier (·.id) (·.dependencies) tasks
  /-- Every schedule ends. -/
  ends : ∀ n s, Schedule.Run (·.id) (·.dependencies) tasks n s → n ≤ 2 * tasks.length
  /-- A schedule that cannot go on has started every task. -/
  starts : ∀ n s, Schedule.Run (·.id) (·.dependencies) tasks n s →
    Schedule.Stuck (·.id) (·.dependencies) tasks s → ∀ task ∈ tasks, task.id ∈ s.started

/-- No task waits for itself. -/
def NoSelfDependency (tasks : List CampaignTaskReference) : Prop :=
  ∀ task ∈ tasks, task.id ∉ task.dependencies

theorem checkDependencies_ok {task : CampaignTaskReference} {prior seen deps : List String}
    (h : checkDependencies task prior seen deps = .ok ()) : ∀ dep ∈ deps, dep ∈ prior := by
  induction deps generalizing seen with
  | nil => exact fun _ h => nomatch h
  | cons first rest ih =>
    rw [checkDependencies, ensure_bind_ok_iff, ensure_bind_ok_iff] at h
    intro dep hdep
    rcases List.mem_cons.mp hdep with rfl | hdep
    · exact h.2.1
    · exact ih h.2.2 dep hdep

/-- What the loop over the tasks has seen to when it ends: the ids are new and different, and a
dependency of a task is a prior id, the id of an earlier task or its own. -/
theorem checkTasks_ok {maxParallel : Nat} {prior : List String} {issues : List UInt64}
    {tasks : List CampaignTaskReference} (h : checkTasks maxParallel prior issues tasks = .ok ()) :
    (tasks.map (·.id)).Nodup ∧ (∀ task ∈ tasks, task.id ∉ prior) ∧
      ∀ before task after, tasks = before ++ task :: after → ∀ dep ∈ task.dependencies,
        dep = task.id ∨ dep ∈ before.map (·.id) ∨ dep ∈ prior := by
  induction tasks generalizing prior issues with
  | nil => exact ⟨List.nodup_nil, fun _ h => (nomatch h), fun before _ _ h => by simp at h⟩
  | cons first rest ih =>
    rw [checkTasks] at h
    simp only [bind_ok_iff, ensure_eq_ok] at h
    obtain ⟨_, -, _, -, _, hfresh, _, -, _, hdeps, _, -, hrest⟩ := h
    obtain ⟨hnodup, hnew, horder⟩ := ih hrest
    refine ⟨?_, ?_, ?_⟩
    · rw [List.map_cons, List.nodup_cons]
      refine ⟨?_, hnodup⟩
      intro hmem
      obtain ⟨task, htask, hid⟩ := List.mem_map.mp hmem
      exact hnew task htask (hid.symm ▸ List.mem_cons_self)
    · intro task htask
      rcases List.mem_cons.mp htask with rfl | htask
      · exact hfresh
      · exact fun hprior => hnew task htask (List.mem_cons_of_mem _ hprior)
    · intro before task after hsplit dep hdep
      cases before with
      | nil =>
        rw [List.nil_append, List.cons.injEq] at hsplit
        obtain ⟨rfl, rfl⟩ := hsplit
        rcases List.mem_cons.mp (checkDependencies_ok hdeps dep hdep) with hself | hprior
        · exact .inl hself
        · exact .inr (.inr hprior)
      | cons other before =>
        rw [List.cons_append, List.cons.injEq] at hsplit
        obtain ⟨rfl, hsplit⟩ := hsplit
        rcases horder before task after hsplit dep hdep with hself | hbefore | hprior
        · exact .inl hself
        · exact .inr (.inl (List.mem_cons_of_mem _ hbefore))
        rcases List.mem_cons.mp hprior with rfl | hprior
        · exact .inr (.inl (List.mem_cons_self ..))
        · exact .inr (.inr hprior)

theorem validateManifest_tasks [Regexes] {manifest : CampaignManifest}
    (h : validateManifest manifest = .ok ()) :
    checkTasks manifest.maxParallel [] [] manifest.tasks = .ok () := by
  rw [validateManifest] at h
  simp only [bind_ok_iff, ensure_eq_ok] at h
  obtain ⟨_, -, _, -, _, -, _, -, _, -, _, -, _, -, _, -, _, -, _, -, _, -, _, -, h⟩ := h
  split at h
  · simp only [bind_ok_iff] at h
    obtain ⟨_, -, _, -, h⟩ := h
    exact h
  · simp only [bind_ok_iff] at h
    obtain ⟨_, -, _, -, _, -, h⟩ := h
    exact h

theorem WaitsForEarlier.executable {tasks : List CampaignTaskReference}
    (hunique : (tasks.map (·.id)).Nodup) (horder : WaitsForEarlier (·.id) (·.dependencies) tasks) :
    Executable tasks where
  unique := hunique
  earlier := horder
  ends _ _ hrun := Schedule.length_le hrun
  starts _ _ _ hstuck := Schedule.started_of_stuck horder hstuck

/-- An accepted manifest is an executable graph exactly when no task waits for itself. -/
theorem executable_iff_noSelfDependency [Regexes] {manifest : CampaignManifest}
    (haccepted : validateManifest manifest = .ok ()) :
    Executable manifest.tasks ↔ NoSelfDependency manifest.tasks := by
  obtain ⟨hunique, -, horder⟩ := checkTasks_ok (validateManifest_tasks haccepted)
  constructor
  · intro h task htask hself
    obtain ⟨before, after, hsplit⟩ := List.append_of_mem htask
    have hbefore := h.earlier before task after hsplit task.id hself
    rw [hsplit, List.map_append, List.map_cons, List.nodup_append] at hunique
    exact hunique.2.2 _ hbefore _ (List.mem_cons_self ..) rfl
  · intro h
    refine WaitsForEarlier.executable hunique ?_
    intro before task after hsplit dep hdep
    rcases horder before task after hsplit dep hdep with rfl | hbefore | hnone
    · have htask : task ∈ manifest.tasks := hsplit ▸ List.mem_append_right _ (List.mem_cons_self ..)
      exact absurd hdep (h task htask)
    · exact hbefore
    · exact nomatch hnone

/-! ## Two manifests -/

namespace Sample

/-- There is no steward here, so no pattern is compiled. -/
local instance regexes : Regexes where
  captures _ := .ok 1

def task (id : String) (issue : UInt64) (dependencies : List String) : CampaignTaskReference where
  id := id
  kind := "implementation"
  issue := issue
  dependencies := dependencies
  conflictDomains := none
  argv := none
  runtimeMaxSec := none

def manifest (tasks : List CampaignTaskReference) : CampaignManifest where
  schemaVersion := 1
  name := "demo"
  repository := { checkout := .ofString "/srv/demo", baseBranch := "main", remote := "origin",
                  forge := "local" }
  maxTasks := 4
  maxParallel := 1
  driverRuntimeMaxSec := 3600
  runtimeMaxSec := none
  pool := "campaign"
  mergeMethod := "merge"
  agent := { adapter := "codex", argv := ["codex"], priority := "medium", runtimeMaxSec := none,
             approvalPolicy := none, sandboxPolicy := none, diagnosisSandboxPolicy := none,
             model := none }
  steward := none
  gates := [.command "test" ["true"] ["cargo", "test"] 60]
  tasks := tasks

/-- The second task waits for the first one. -/
theorem executable_iff_noSelfDependency_two :
    Executable (manifest [task "a" 1 [], task "b" 2 ["a"]]).tasks ↔
      NoSelfDependency (manifest [task "a" 1 [], task "b" 2 ["a"]]).tasks :=
  executable_iff_noSelfDependency (by decide +kernel)

/-- The only task waits for itself, and the manifest is accepted. -/
theorem accepted_self_dependency :
    validateManifest (manifest [task "a" 1 ["a"]]) = .ok () ∧
      ¬ Executable (manifest [task "a" 1 ["a"]]).tasks := by
  refine ⟨by decide +kernel, fun h => ?_⟩
  have hearlier := h.earlier [] (task "a" 1 ["a"]) [] rfl "a" (List.mem_singleton.mpr rfl)
  exact nomatch hearlier

end Sample

end Tally.Campaign
