import Tally.Adapter.Config

/-!
# The argv of a launch and of a resume

What `AdapterEngine` makes of a template, the options of a job and the captures of an earlier attempt
(`adapters.rs`). The options go before a final `--` of the template or at its end, or on a resume before
the argument with a capture that the adapter names; a resume puts the captures in the places that the
template has for them.
-/

namespace Tally.Adapter

open Tally.Lib

structure AdapterJobOptions where
  prePromptArgv : List String
  environment : Table String String
  approvalPolicy : Option String
  sandboxPolicy : Option String
  model : Option String
  effort : Option String

structure UsagePredecessor where
  taskUuid : String
  attempt : Nat
  leaseEpoch : Nat
  deriving DecidableEq

inductive UsageAccountingMode
  | fresh
  | resume (predecessor : Option UsagePredecessor)
  deriving DecidableEq

structure AdapterInvocation where
  argv : List String
  env : Table String String
  hardening : AdapterHardening
  extraWritablePaths : List PathBuf
  yieldHook : Option (List String)
  usageAccounting : UsageAccountingMode

/-! ## Fragments -/

section

variable (adapter : String)

def renderPolicy (field : String) (requested : Option String) (policies : Table String (List String)) :
    Except AdapterError (List String) :=
  match requested with
  | none => .ok []
  | some requested => orError (policies.get? requested) (invalidConfig adapter
      (field ++ " value " ++ debugText requested ++ " is not authorized by this adapter"))

def validateRequestedValue (field : String) (requested : Option String)
    (config : Option AdapterValueOverride) : Except AdapterError Unit :=
  match requested with
  | none => .ok ()
  | some requested => do
    let config ← orError config
      (invalidConfig adapter (field ++ " override is not authorized by this adapter"))
    ensure (requested ∈ config.allowedValues) (invalidConfig adapter
      (field ++ " value " ++ debugText requested ++ " is not authorized by this adapter"))

/-- An argument of a template with a value in the places of a token. -/
def renderNamed (name value argument : String) : String :=
  String.ofList (replaceAll (marker name).toList value.toList argument.toList)

def renderNamedTemplate (template : List String) (name value : String) :
    Except AdapterError (List String) :=
  template.mapM fun argument => do
    ensure (hasNul (renderNamed name value argument) = false)
      (invalidConfig adapter ("rendered " ++ name ++ " argv contains a NUL byte"))
    .ok (renderNamed name value argument)

def renderValueOverride (field : String) (requested : Option String)
    (config : Option AdapterValueOverride) : Except AdapterError (List String) := do
  validateRequestedValue adapter field requested config
  match requested, config with
  | some value, some config => renderNamedTemplate adapter config.argv "value" value
  | _, _ => .ok []

def cwdText (cwd : PathBuf) : Except AdapterError String :=
  orError cwd.toStr (invalidConfig adapter "cwd must be valid UTF-8 for adapter argv rendering")

def renderCwd (cwdArgv : Option (List String)) (cwd : Option PathBuf) :
    Except AdapterError (List String) :=
  match cwdArgv, cwd with
  | some template, some cwd => do
    let cwd ← cwdText adapter cwd
    renderNamedTemplate adapter template "cwd" cwd
  | _, _ => .ok []

/-! ## The prefix -/

/-- The end of `render_launch_prefix`. -/
def placeOptions (base inserted : List String) (insertBefore : Option Nat) :
    Except AdapterError (List String) :=
  if inserted = [] then .ok base
  else match insertBefore with
    | some index => .ok (base.take index ++ inserted ++ base.drop index)
    | none =>
      match base.getLast? with
      | none =>
        .error (invalidConfig adapter "pre-prompt options require an adapter argv to place them in")
      | some last =>
        if last = "--" then .ok (base.dropLast ++ inserted ++ [last]) else .ok (base ++ inserted)

def renderLaunchPrefix (config : AdapterConfig) (base : List String) (options : AdapterJobOptions)
    (cwd : Option PathBuf) (insertBefore : Option Nat) : Except AdapterError (List String) := do
  ensure (options.prePromptArgv = [] ∨ config.launch.allowPrePromptArgv = true)
    (invalidConfig adapter "job prePromptArgv is not authorized by this adapter")
  ensure (options.prePromptArgv.any hasNul = false)
    (invalidConfig adapter "job prePromptArgv must contain no NUL bytes")
  let approval ← renderPolicy adapter "approvalPolicy" options.approvalPolicy
    config.launch.approvalPolicies
  let sandbox ← renderPolicy adapter "sandboxPolicy" options.sandboxPolicy config.launch.sandboxPolicies
  let directory ← renderCwd adapter config.launch.cwdArgv cwd
  let model ← renderValueOverride adapter "model" options.model config.launch.model
  let effort ← renderValueOverride adapter "effort" options.effort config.launch.effort
  placeOptions adapter base
    (options.prePromptArgv ++ approval ++ sandbox ++ directory ++ model ++ effort) insertBefore

def composeArgv (config : AdapterConfig) (front workload : List String) :
    Except AdapterError (List String) :=
  match workload.head? with
  | none => .ok (front ++ workload)
  | some argument =>
    if config.launch.rejectOptionLikeWorkloadHead = true ∧ argument.toList.head? = some '-' then
      .error (.unsafeWorkloadHead adapter 0 argument)
    else .ok (front ++ workload)

def validateJobEnvironment (name value : String) : Except AdapterError Unit := do
  ensure (reservedEnvironmentName name = false)
    (invalidConfig adapter ("job environment name " ++ debugText name ++ " is invalid or reserved"))
  ensure (hasNul value = false)
    (invalidConfig adapter ("job environment " ++ debugText name ++ " contains a NUL byte"))

def invocation (config : AdapterConfig) (options : AdapterJobOptions) (argv : List String)
    (usageAccounting : UsageAccountingMode) : Except AdapterError AdapterInvocation := do
  ensure (argv ≠ [] ∧ argv.head? ≠ some "")
    (invalidConfig adapter "rendered argv must contain a non-empty executable")
  ensure (argv.any hasNul = false) (invalidConfig adapter "rendered argv must not contain NUL bytes")
  options.environment.entries.forM fun entry => validateJobEnvironment adapter entry.1 entry.2
  .ok {
    argv
    env := config.env.extend options.environment.entries
    hardening := config.hardening
    extraWritablePaths := config.extraWritablePaths
    yieldHook := config.yieldHook
    usageAccounting }

/-! ## Captures -/

/-- A capture in an argument: a string as it is, another value as its JSON. -/
def valueText : Value → String
  | .string text => text
  | value => String.ofList (render value)

/-- The loop of `render_argument`. -/
def renderArgumentFuel (captures : Table String Value) : Nat → List Char → Except AdapterError (List Char)
  | 0, text => .ok text
  | fuel + 1, text =>
    match breakAt ['%', '<'] text with
    | none => .ok text
    | some (before, rest) =>
      match breakAt ['>', '%'] rest with
      | none => .error (invalidConfig adapter "unclosed '%<captureName>%' placeholder")
      | some (capture, rest) =>
        if allowedName capture then do
          let value ← orError (captures.get? (String.ofList capture))
            (.missingCapture adapter (String.ofList capture))
          let tail ← renderArgumentFuel captures fuel rest
          .ok (before ++ ((valueText value).toList ++ tail))
        else
          .error (invalidConfig adapter
            ("invalid capture placeholder " ++ debugText (String.ofList capture)))

def renderArgument (captures : Table String Value) (argument : String) : Except AdapterError String :=
  (renderArgumentFuel adapter captures argument.toList.length argument.toList).map String.ofList

/-! ## Launch and resume -/

/-- The captures with the model that is asked for. -/
def modelCaptures (captures : Table String Value) (options : AdapterJobOptions) : Table String Value :=
  match options.model with
  | none => captures
  | some model => captures.insert "model" (.string model)

def mentions (name : String) (template : List String) : Bool := template.any (contains · (marker name))

def cwdCaptures (captures : Table String Value) (template : List String) (cwd : Option PathBuf) :
    Except AdapterError (Table String Value) :=
  match cwd with
  | none => .ok captures
  | some cwd =>
    if mentions "cwd" template then do
      let cwd ← cwdText adapter cwd
      .ok (captures.insert "cwd" (.string cwd))
    else .ok captures

/-- The options that have no place in the template. -/
def insertedOptions (options : AdapterJobOptions) (template : List String) : AdapterJobOptions :=
  { options with
    model := if mentions "model" template then none else options.model
    effort := if mentions "effort" template then none else options.effort }

variable (adapters : Table String AdapterConfig) (workloadArgv : List String)

def launchWithOptions (options : AdapterJobOptions) (cwd : Option PathBuf) :
    Except AdapterError AdapterInvocation := do
  let config ← orError (adapters.get? adapter) (.unknownAdapter adapter)
  let front ← renderLaunchPrefix adapter config config.argv options cwd none
  let argv ← composeArgv adapter config front workloadArgv
  invocation adapter config options argv .fresh

def resumeWithOptionsFrom (captures : Table String Value) (options : AdapterJobOptions)
    (cwd : Option PathBuf) (predecessor : Option UsagePredecessor) :
    Except AdapterError AdapterInvocation := do
  let config ← orError (adapters.get? adapter) (.unknownAdapter adapter)
  let template ← orError config.resume (.noResume adapter)
  validateRequestedValue adapter "model" options.model config.launch.model
  validateRequestedValue adapter "effort" options.effort config.launch.effort
  let captures ← cwdCaptures adapter (modelCaptures captures options) template cwd
  let rendered ← template.mapM (renderArgument adapter captures)
  let index ← resumeOptionsInsertionIndex adapter config
  let front ← renderLaunchPrefix adapter config rendered (insertedOptions options template)
    (if mentions "cwd" template then none else cwd) index
  let argv ← composeArgv adapter config front workloadArgv
  invocation adapter config options argv (.resume predecessor)

end

end Tally.Adapter
