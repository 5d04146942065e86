import Tally.Lib.Json
import Tally.Lib.Lossy
import Tally.Lib.Placeholders
import Tally.Lib.Result
import Tally.Lib.Table
import Tally.Poolset

/-!
# Adapters

The configuration of the adapters (`adapters.rs`) and its validation: the argv templates, what a job may
ask an adapter for, and the captures that a resume template may refer to. The engines of regular
expressions and of JSON paths are parameters.
-/

namespace Tally.Adapter

open Tally.Lib

/-- `regex` and `serde_json_path`: whether a pattern is one, or the text of the error. -/
class PatternHost where
  compileRegex : String → Except String Unit
  parseJsonPath : String → Except String Unit

inductive AdapterError
  | unknownAdapter (adapter : String)
  | invalidConfig (adapter detail : String)
  | noResume (adapter : String)
  | unsafeWorkloadHead (adapter : String) (index : Nat) (argument : String)
  | missingCapture (adapter capture : String)
  deriving DecidableEq

/-! ## Configuration -/

inductive ScrapeMode
  | regex
  | jsonPath
  | jsonPathLast
  deriving DecidableEq

inductive UsageCounterScope
  | attempt
  | sessionCumulative
  deriving DecidableEq

/-- `{scope:?}` -/
def UsageCounterScope.debug : UsageCounterScope → String
  | attempt => "Attempt"
  | sessionCumulative => "SessionCumulative"

structure ScrapeCapture where
  mode : ScrapeMode
  pattern : String
  counterScope : Option UsageCounterScope
  fields : Table String (List String)

structure AdapterValueOverride where
  argv : List String
  allowedValues : List String

structure AdapterLaunchConfig where
  allowPrePromptArgv : Bool
  rejectOptionLikeWorkloadHead : Bool
  resumeOptionsBeforeCapture : Option String
  cwdArgv : Option (List String)
  approvalPolicies : Table String (List String)
  sandboxPolicies : Table String (List String)
  commitCapableSandboxPolicies : List String
  model : Option AdapterValueOverride
  effort : Option AdapterValueOverride

inductive AdapterHardening
  | production
  | strict
  | workspace
  | none
  deriving DecidableEq

structure AdapterConfig where
  argv : List String
  resume : Option (List String)
  scrape : Table String ScrapeCapture
  usageCounterScope : UsageCounterScope
  yieldHook : Option (List String)
  env : Table String String
  launch : AdapterLaunchConfig
  hardening : AdapterHardening
  extraWritablePaths : List PathBuf
  skillBundle : Option String
  skillRevision : Option String
  extraConfig : Table String Value

/-! ## Names and texts -/

def hasNul (text : String) : Bool := text.toList.contains '\x00'

def hasControl (text : String) : Bool := text.toList.any isControl

/-- `text.contains(part)` -/
def contains (text part : String) : Bool := part.toList <:+: text.toList

def validEnvironmentName (name : String) : Bool :=
  match name.toList with
  | [] => false
  | first :: rest => (first.isAlpha || first == '_') && rest.all fun c => c.isAlphanum || c == '_'

/-- `valid_capture_name`, of the characters. -/
def allowedName (name : List Char) : Bool :=
  !name.isEmpty && name.all fun c => c.isAlphanum || c == '_' || c == '-' || c == '.'

def validCaptureName (name : String) : Bool := allowedName name.toList

def reservedEnvironmentName (name : String) : Bool :=
  !validEnvironmentName name || "TALLY_".toList.isPrefixOf name.toList || name == "CREDENTIALS_DIRECTORY"

/-! ## Validation -/

section

variable (adapter : String)

def invalidConfig (detail : String) : AdapterError := .invalidConfig adapter detail

def validateAdapterName : Except AdapterError Unit :=
  ensure (isBlank adapter = false ∧ hasControl adapter = false)
    (invalidConfig adapter "name must be non-empty and contain no control characters")

def validateArgv (field : String) (argv : List String) (allowEmpty : Bool) : Except AdapterError Unit := do
  ensure (allowEmpty = true ∨ argv ≠ [])
    (invalidConfig adapter (field ++ " must not be an empty argv"))
  ensure (argv.head? ≠ some "") (invalidConfig adapter (field ++ " executable must not be empty"))
  ensure (argv.any hasNul = false) (invalidConfig adapter (field ++ " arguments must contain no NUL bytes"))

def validateOptionalArgv (field : String) (argv : Option (List String)) : Except AdapterError Unit :=
  match argv with
  | none => .ok ()
  | some argv => validateArgv adapter field argv false

def validateWritablePath (path : PathBuf) : Except AdapterError Unit := do
  ensure (path.isAbsolute = true)
    (invalidConfig adapter ("extraWritablePaths entry " ++ path.toStringLossy ++ " must be absolute"))
  let path ← orError path.toStr (invalidConfig adapter "extraWritablePaths entries must be valid UTF-8")
  ensure (hasControl path = false ∧ path.toList.contains '%' = false)
    (invalidConfig adapter ("extraWritablePaths entry " ++ debugText path ++
      " must contain no control or systemd specifier characters"))

def validateEnvironment (name value : String) : Except AdapterError Unit := do
  ensure (reservedEnvironmentName name = false)
    (invalidConfig adapter ("environment name " ++ debugText name ++ " is invalid or reserved"))
  ensure (hasNul value = false)
    (invalidConfig adapter ("environment " ++ debugText name ++ " contains a NUL byte"))

def validatePolicy (field policy : String) (argv : List String) : Except AdapterError Unit := do
  ensure (isBlank policy = false ∧ hasNul policy = false ∧ hasControl policy = false)
    (invalidConfig adapter ("launch." ++ field ++ " has invalid policy name " ++ debugText policy))
  validateArgv adapter ("launch." ++ field ++ "." ++ policy) argv true

def validateCwdArgv (cwdArgv : Option (List String)) : Except AdapterError Unit :=
  match cwdArgv with
  | none => .ok ()
  | some cwdArgv => do
    validateArgv adapter "launch.cwdArgv" cwdArgv false
    ensure (cwdArgv.any (contains · "%<cwd>%") = true)
      (invalidConfig adapter "launch.cwdArgv must reference %<cwd>%")

/-- The values before one that is repeated or no name. -/
def validateAllowedValues (field : String) (values : List String) : Except AdapterError (List String) :=
  values.foldlM
    (fun seen value => do
      ensure (isBlank value = false ∧ hasNul value = false ∧ hasControl value = false ∧ value ∉ seen)
        (invalidConfig adapter ("launch." ++ field ++
          ".allowedValues must contain unique non-empty values without control characters"))
      .ok (value :: seen))
    []

def validateOverride (field : String) (option : Option AdapterValueOverride) : Except AdapterError Unit :=
  match option with
  | none => .ok ()
  | some option => do
    validateArgv adapter ("launch." ++ field ++ ".argv") option.argv false
    ensure (option.argv.any (contains · "%<value>%") = true)
      (invalidConfig adapter ("launch." ++ field ++ ".argv must reference %<value>%"))
    ensure (option.allowedValues ≠ [])
      (invalidConfig adapter ("launch." ++ field ++ ".allowedValues must not be empty"))
    let _ ← validateAllowedValues adapter field option.allowedValues
    .ok ()

def validateLaunchConfig (launch : AdapterLaunchConfig) : Except AdapterError Unit := do
  validateCwdArgv adapter launch.cwdArgv
  launch.approvalPolicies.entries.forM fun entry =>
    validatePolicy adapter "approvalPolicies" entry.1 entry.2
  launch.sandboxPolicies.entries.forM fun entry =>
    validatePolicy adapter "sandboxPolicies" entry.1 entry.2
  launch.commitCapableSandboxPolicies.forM fun policy =>
    ensure ((launch.sandboxPolicies.get? policy).isSome = true)
      (invalidConfig adapter ("launch.commitCapableSandboxPolicies names " ++ debugText policy ++
        ", which launch.sandboxPolicies does not declare"))
  validateOverride adapter "model" launch.model
  validateOverride adapter "effort" launch.effort

def validatePolicyDefault (config : AdapterConfig) (key field : String)
    (policies : Table String (List String)) : Except AdapterError Unit :=
  match config.extraConfig.get? key with
  | none => .ok ()
  | some (.string policy) =>
    ensure ((policies.get? policy).isSome = true)
      (invalidConfig adapter ("extraConfig." ++ key ++ " names " ++ debugText policy ++ ", which launch." ++
        field ++ " does not declare"))
  | some _ =>
    .error (invalidConfig adapter ("extraConfig." ++ key ++ " must name a policy as a string"))

def validatePolicyDefaults (config : AdapterConfig) : Except AdapterError Unit := do
  validatePolicyDefault adapter config "defaultApprovalPolicy" "approvalPolicies"
    config.launch.approvalPolicies
  validatePolicyDefault adapter config "defaultSandboxPolicy" "sandboxPolicies"
    config.launch.sandboxPolicies
  validatePolicyDefault adapter config "defaultDiagnosisSandboxPolicy" "sandboxPolicies"
    config.launch.sandboxPolicies

/-- `%<name>%` -/
def marker (name : String) : String := "%<" ++ name ++ ">%"

/-- The places of the arguments with a text in them. -/
def placesOf (part : String) (template : List String) : List Nat :=
  template.zipIdx.filterMap fun (argument, index) => if contains argument part then some index else none

def resumeOptionsInsertionIndex (config : AdapterConfig) : Except AdapterError (Option Nat) :=
  match config.launch.resumeOptionsBeforeCapture with
  | none => .ok none
  | some capture => do
    ensure (capture ≠ "" ∧ validCaptureName capture = true)
      (invalidConfig adapter "launch.resumeOptionsBeforeCapture must name a valid capture")
    let template ← orError config.resume
      (invalidConfig adapter "launch.resumeOptionsBeforeCapture requires a resume template")
    match placesOf (marker capture) template with
    | [] =>
      .error (invalidConfig adapter ("launch.resumeOptionsBeforeCapture names " ++ debugText capture ++
        ", but resume has no " ++ marker capture ++ " placeholder"))
    | [index] => .ok (some index)
    | _ :: _ :: _ =>
      .error (invalidConfig adapter ("launch.resumeOptionsBeforeCapture names " ++ debugText capture ++
        ", but resume contains " ++ marker capture ++ " more than once"))

def validateField (capture field : String) (paths : List String) : Except AdapterError Unit := do
  ensure (field ≠ "" ∧ hasControl field = false)
    (invalidConfig adapter ("capture " ++ debugText capture ++ " declares an invalid field name " ++
      debugText field))
  ensure (paths ≠ [])
    (invalidConfig adapter ("capture " ++ debugText capture ++ " field " ++ debugText field ++
      " declares no path"))
  ensure (paths.any hasControl = false)
    (invalidConfig adapter ("capture " ++ debugText capture ++ " field " ++ debugText field ++
      " declares a path containing a control character"))

def validateCounterScope (config : AdapterConfig) (name : String) (scope : Option UsageCounterScope) :
    Except AdapterError Unit :=
  match scope with
  | none => .ok ()
  | some scope => do
    ensure (name = "usage") (invalidConfig adapter ("capture " ++ debugText name ++
      " declares counterScope, which is only valid on the usage capture"))
    ensure (scope = config.usageCounterScope)
      (invalidConfig adapter ("usage capture counterScope " ++ scope.debug ++
        " disagrees with adapter usageCounterScope " ++ config.usageCounterScope.debug))

section

variable [PatternHost]

def validatePattern (name : String) (capture : ScrapeCapture) : Except AdapterError Unit :=
  match capture.mode with
  | .regex => (PatternHost.compileRegex capture.pattern).mapError fun error =>
    invalidConfig adapter ("capture " ++ debugText name ++ " has invalid regex: " ++ error)
  | .jsonPath | .jsonPathLast => (PatternHost.parseJsonPath capture.pattern).mapError fun detail =>
    invalidConfig adapter ("capture " ++ debugText name ++ " has invalid JSONPath: " ++ detail)

def validateCapture (config : AdapterConfig) (name : String) (capture : ScrapeCapture) :
    Except AdapterError Unit := do
  ensure (validCaptureName name = true) (invalidConfig adapter ("invalid capture name " ++ debugText name))
  ensure (capture.pattern ≠ "" ∧ hasNul capture.pattern = false)
    (invalidConfig adapter ("capture " ++ debugText name ++ " has an empty or NUL pattern"))
  validateCounterScope adapter config name capture.counterScope
  validatePattern adapter name capture
  capture.fields.entries.forM fun entry => validateField adapter name entry.1 entry.2

end

/-- `USAGE_FIELDS` -/
def usageFields : List String :=
  ["inputTokens", "inputTokensWithCacheRead", "cacheReadTokens", "cacheWriteTokens", "outputTokens",
    "reasoningTokens", "totalTokens", "costUsd"]

def declaredUsageFields (config : AdapterConfig) : List String :=
  config.scrape.entries.flatMap fun (name, capture) =>
    if capture.fields.entries = [] ∧ name = "usage" then ["inputTokens", "outputTokens", "totalTokens"]
    else capture.fields.keys.filter fun field => field ∈ usageFields

def validateUsageDeclaration (config : AdapterConfig) : Except String Unit :=
  ensure ("inputTokensWithCacheRead" ∈ declaredUsageFields config →
      "cacheReadTokens" ∈ declaredUsageFields config)
    ("usage field inputTokensWithCacheRead requires cacheReadTokens so exclusive input can be " ++
      "normalized")

/-- The loop of `placeholders`. -/
def placeholdersFuel : Nat → List Char → Except String (List String)
  | 0, _ => .ok []
  | fuel + 1, text =>
    match breakAt ['%', '<'] text with
    | none => .ok []
    | some (_, rest) =>
      match breakAt ['>', '%'] rest with
      | none => .error "unclosed '%<captureName>%' placeholder"
      | some (name, rest) =>
        if allowedName name then
          (placeholdersFuel fuel rest).map fun names => String.ofList name :: names
        else .error ("invalid capture placeholder " ++ debugText (String.ofList name))

def placeholders (argument : String) : Except String (List String) :=
  placeholdersFuel argument.toList.length argument.toList

def validateResumeArgument (config : AdapterConfig) (argument : String) : Except AdapterError Unit := do
  let captures ← (placeholders argument).mapError fun detail =>
    invalidConfig adapter ("invalid resume argument " ++ debugText argument ++ ": " ++ detail)
  captures.forM fun capture =>
    ensure (capture = "cwd" ∨ (config.scrape.get? capture).isSome = true)
      (invalidConfig adapter ("resume references unknown capture " ++ debugText capture))

def validateAdapter [PatternHost] (config : AdapterConfig) : Except AdapterError Unit := do
  ensure (config.skillBundle = none ∨ config.skillRevision = none)
    (invalidConfig adapter "skillBundle and skillRevision are mutually exclusive")
  validateArgv adapter "argv" config.argv true
  validateOptionalArgv adapter "resume" config.resume
  validateOptionalArgv adapter "yieldHook" config.yieldHook
  config.extraWritablePaths.forM (validateWritablePath adapter)
  config.env.entries.forM fun entry => validateEnvironment adapter entry.1 entry.2
  validateLaunchConfig adapter config.launch
  validatePolicyDefaults adapter config
  let _ ← resumeOptionsInsertionIndex adapter config
  config.scrape.entries.forM fun entry => validateCapture adapter config entry.1 entry.2
  (validateUsageDeclaration config).mapError (invalidConfig adapter)
  (config.resume.getD []).forM (validateResumeArgument adapter config)

end

/-- `AdapterEngine::validate_all`. -/
def validateAll [PatternHost] (adapters : Table String AdapterConfig) : Except AdapterError Unit :=
  adapters.entries.forM fun entry => do
    validateAdapterName entry.1
    validateAdapter entry.1 entry.2

end Tally.Adapter
