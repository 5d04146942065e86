import Tally.Flow.Error
import Tally.Lib.Table

/-!
# Node specifications

What a script says of a node (`NodeSpec`), the checks and normal forms of `engine/spec.rs`, and the
hash of the normal form. The runner and the kernel have word for word the same types and checks for
derivations; both are `Witness.Derivation` here.
-/

namespace Tally.Flow

open Tally.Lib
open Tally.Witness (Derivation isNixStorePath splitOnce isAsciiAlphanumeric asStr asObject present strings
  natValue)

/-! ## Libraries -/

/-- What the runner takes from the library for JSON schemas. -/
class Schemas where
  /-- `jsonschema::validator_for(..)`, up to the validator. -/
  validatorFor : Value → Except String Unit

export Schemas (validatorFor)

/-- `catalog::sha256`: the digest with its tag. -/
def sha256 [Witness.Libraries] (bytes : Bytes) : String := "sha256:" ++ Witness.sha256 bytes

/-! ## Data -/

structure SelectionProvenance where
  selector : String
  catalogHash : String
  memberId : String
  members : List String
  deriving DecidableEq, Repr

structure NodeSpec where
  argv : Option (List String)
  adapter : Option String
  prompt : Option String
  pools : List String
  executor : Option String
  priority : Option String
  runtimeMaxSec : Option UInt64
  evidence : List String
  drv : Option Derivation
  evidenceClass : Option Value
  manifestHash : Option String
  workspace : Option Value
  brief : Option Value
  key : Option String
  dedupKey : Option String
  label : Option String
  taskRef : Option String
  env : Table String String
  approvalPolicy : Option String
  sandboxPolicy : Option String
  model : Option String
  resultSchema : Option Value
  adapterOptions : Option Value
  selection : Option SelectionProvenance

structure Meta where
  name : String
  pools : List String
  iterationCap : Option UInt32

def defaultIterationCap : UInt32 := 64

/-- `Meta::iteration_cap`. -/
def Meta.cap (m : Meta) : UInt32 := m.iterationCap.getD defaultIterationCap

def briefSentinel : String :=
  "Read the file whose path is in the TALLY_BRIEF environment variable and execute the mission it " ++
    "contains. That brief is your complete instruction set."

/-! ## Values -/

/-- `Value::as_array`. -/
def asArray : Value → Option (List Value)
  | .array items => some items
  | _ => none

def isString (value : Value) : Bool := (asStr value).isSome

/-- `collect::<Map<_, _>>()`. -/
def collectFields (members : List (String × Value)) : Fields :=
  members.foldl (fun fields member => Fields.insert fields member.1 member.2) []

def hasNul (text : String) : Bool := text.toList.contains '\x00'

def hasControl (text : String) : Bool := text.toList.any isControl

/-- A text that is left out, or one with something to read in it. -/
def readable (value : Option String) : Bool := value.all fun text => text != "" && !hasControl text

/-- The first member that is not one of those, in the order of the object, is an error. -/
def rejectUnknown (allowed : List String) (fields : Fields) (error : String → FlowError) :
    Except FlowError Unit :=
  match fields.find? fun member => member.1 ∉ allowed with
  | some (field, _) => throw (error field)
  | none => return ()

/-! ## Checks -/

section Checks

variable (location : SourceLocation)

def specError (code message : String) : FlowError := (FlowError.new "FlowSpecError" code message).at location

def environmentError (code message : String) : FlowError :=
  (FlowError.new "FlowEnvironmentError" code message).at location

def isEnvironmentName (name : String) : Bool :=
  match name.toList with
  | [] => false
  | first :: rest =>
    ((isAsciiAlphanumeric first && !first.isDigit) || first == '_') &&
      rest.all fun c => isAsciiAlphanumeric c || c == '_'

def isReservedName (name : String) : Bool :=
  "TALLY_".toList.isPrefixOf name.toList || name == "CREDENTIALS_DIRECTORY"

def validateEnvironmentEntry (name value : String) : Except FlowError Unit := do
  ensure (isEnvironmentName name) (((environmentError location "reserved-env" ("environment name " ++
    debugText name ++ " is not a valid name: it must start with a letter or underscore and contain only " ++
    "letters, digits, and underscores")).detail "name" (.string name)).detail "reason" (.string "invalid"))
  ensure (isReservedName name = false) (((environmentError location "reserved-env" ("environment name " ++
    debugText name ++ " is reserved by the host: names beginning TALLY_ and CREDENTIALS_DIRECTORY are set " ++
    "for the job, not by it")).detail "name" (.string name)).detail "reason" (.string "reserved"))
  ensure (hasNul value = false) ((environmentError location "invalid-env-value" ("environment value for " ++
    debugText name ++ " contains a NUL byte")).detail "name" (.string name))

/-- `Derivation::output_paths`. -/
def outputPaths (drv : Derivation) : List String :=
  ((drv.outputs.map (·.path)).insertionSort (· ≤ ·)).dedup

def validateDerivation (spec : NodeSpec) (drv : Derivation) : Except FlowError Unit := do
  drv.validate.mapError (specError location "invalid-derivation")
  let expectedArgv := ["nix", "build", "--no-link", drv.drvPath ++ "^*"]
  let expectedEvidence := (outputPaths drv).map ("store:" ++ ·)
  let expectedKey := "drv:" ++ drv.drvPath
  ensure (spec.argv = some expectedArgv ∧ spec.adapter = some "shell" ∧ spec.pools = ["build"] ∧
      spec.evidence = expectedEvidence ∧ spec.dedupKey = some expectedKey)
    (specError location "invalid-derivation" ("drv nodes require the fixed nix build argv, shell " ++
      "adapter, build pool, drv key, and output store evidence"))

def validateReadable (members : List (String × Option String)) : Except FlowError Unit :=
  members.forM fun (name, value) => ensure (readable value)
    (specError location "invalid-spec" (name ++ " must be non-empty and contain no control characters"))

def validateNodeSpecShape (spec : NodeSpec) : Except FlowError Unit := do
  ensure (spec.argv.isSome ≠ spec.prompt.isSome)
    (specError location "invalid-spec" "job spec requires exactly one of argv or adapter+prompt")
  ensure (spec.prompt.isSome → spec.adapter.any (· ≠ ""))
    (specError location "invalid-spec" "job spec with prompt requires a non-empty adapter")
  ensure (spec.argv.all fun argv => (argv.head?.any (· ≠ "")) && !argv.any hasNul)
    (specError location "invalid-argv"
      "argv requires a non-empty executable and may not contain NUL bytes")
  validateReadable location [("adapter", spec.adapter), ("executor", spec.executor),
    ("approvalPolicy", spec.approvalPolicy), ("sandboxPolicy", spec.sandboxPolicy),
    ("model", spec.model)]
  ensure (spec.runtimeMaxSec ≠ some 0)
    (specError location "invalid-runtime" "runtimeMaxSec must be positive")
  ensure (spec.brief.all fun brief => (asObject brief).isSome)
    (specError location "invalid-brief" "brief must be a structured JSON object")
  ensure (spec.priority.all (· ∈ ["interrupt", "high", "medium", "low"]))
    (specError location "invalid-priority" ("priority " ++ debugText (spec.priority.getD "") ++
      " is not a tally priority"))
  validateReadable location [("key", spec.key), ("dedupKey", spec.dedupKey), ("label", spec.label)]
  spec.env.entries.forM fun (name, value) => validateEnvironmentEntry location name value
  match spec.drv with
  | none => return ()
  | some drv => validateDerivation location spec drv

/-! ## Normal forms -/

def workspaceFields : List String := ["repo", "baseRev", "branch", "worktreePath"]

def workspaceField (object : Fields) (field : String) : Except FlowError (String × Value) := do
  let value ← orError ((object.get? field).bind asStr)
    (specError location "invalid-workspace" ("workspace." ++ field ++ " must be a string"))
  ensure (isBlank value = false ∧ hasNul value = false ∧ hasControl value = false)
    (specError location "invalid-workspace"
      ("workspace." ++ field ++ " must be non-empty and contain no control characters"))
  ensure (field = "worktreePath" → value.toList.head? = some '/')
    (specError location "invalid-workspace" "workspace.worktreePath must be absolute")
  return (field, .string value)

def normalizeWorkspace (spec : NodeSpec) : Except FlowError NodeSpec :=
  match spec.workspace with
  | none => return spec
  | some workspace => do
    let object ← orError (asObject workspace)
      (specError location "invalid-workspace" "workspace must be an object")
    rejectUnknown workspaceFields object fun field =>
      (specError location "invalid-workspace" ("unknown workspace field " ++ debugText field)).detail
        "field" (.string field)
    let normalized ← workspaceFields.mapM (workspaceField location object)
    return { spec with workspace := some (.object normalized) }

def normalizePrompt (spec : NodeSpec) : Except FlowError NodeSpec :=
  match spec.prompt with
  | none => return spec
  | some prompt => do
    ensure (prompt ≠ "") (specError location "invalid-prompt" "prompt must not be empty")
    ensure (spec.brief = none)
      (specError location "brief-conflict" "adapter+prompt cannot also declare brief")
    return { spec with
      prompt := none
      argv := some [briefSentinel]
      brief := some (.object [("mission", .string prompt)]) }

/-! ### Evidence -/

def evidenceError (message : String) : FlowError :=
  (FlowError.new "FlowEvidenceError" "invalid-evidence" message).at location

def isHexDigit (c : Char) : Bool := c.isDigit || ('a' ≤ c && c ≤ 'f') || ('A' ≤ c && c ≤ 'F')

/-- `str::strip_prefix(..).unwrap_or(..)`. -/
def dropTag (tag text : List Char) : List Char :=
  if tag.isPrefixOf text then text.drop tag.length else text

/-- `str::parse::<i32>`. -/
def parseI32 (text : List Char) : Option Int :=
  let (sign, digits) : Int × List Char := match text with
    | '-' :: rest => (-1, rest)
    | '+' :: rest => (1, rest)
    | _ => (1, text)
  if digits ≠ [] ∧ digits.all Char.isDigit then
    let value := sign * (Nat.ofDigitChars 10 digits 0 : Int)
    if -2 ^ 31 ≤ value ∧ value < 2 ^ 31 then some value else none
  else none

/-- What the loop over the evidence has met. -/
structure EvidenceSeen where
  hash : Bool := false
  exit : Bool := false
  stores : List (List Char) := []

/-- One round of the loop: what is pushed, and what has been met then. -/
def canonicalCheck (seen : EvidenceSeen) (spec : String) : Except FlowError (String × EvidenceSeen) := do
  let (kind, value) ← orError (splitOnce ':' spec.toList)
    (evidenceError location ("evidence spec must use <kind>:<value>: " ++ debugText spec))
  match String.ofList kind with
  | "artifact" =>
    ensure (value ≠ []) (evidenceError location "artifact evidence requires a path")
    return (spec, seen)
  | "store" =>
    ensure (isNixStorePath (String.ofList value))
      (evidenceError location "store evidence requires an absolute canonical Nix store path")
    ensure (value ∉ seen.stores)
      (evidenceError location ("store evidence contains duplicate path " ++ String.ofList value))
    return (spec, { seen with stores := value :: seen.stores })
  | "hash" =>
    ensure (seen.hash = false) (evidenceError location "hash evidence appears more than once")
    let (algorithm, expected) := match splitOnce ':' value with
      | none => (value, none)
      | some (algorithm, expected) => (algorithm, some expected)
    ensure (algorithm = "sha256".toList)
      (evidenceError location ("unsupported evidence hash algorithm " ++ debugText (String.ofList algorithm)))
    match expected with
    | none => return ("hash:sha256", { seen with hash := true })
    | some expected =>
      let hex := dropTag "sha256:".toList expected
      ensure (hex.length = 64 ∧ hex.all isHexDigit)
        (evidenceError location "a fixed sha256 value must contain exactly 64 hexadecimal digits")
      return (String.ofList ("hash:sha256:".toList ++ hex.map Char.toLower), { seen with hash := true })
  | "exit" =>
    ensure (seen.exit = false) (evidenceError location "exit evidence appears more than once")
    let code ← orError (parseI32 value)
      (evidenceError location ("exit evidence requires an integer code: " ++ debugText spec))
    ensure (0 ≤ code ∧ code ≤ 255)
      (evidenceError location ("exit evidence code must be in 0..=255: " ++ toString code))
    return (String.ofList ("exit:".toList ++ Nat.toDigits 10 code.toNat), { seen with exit := true })
  | kind =>
    throw (evidenceError location
      ("unknown evidence kind " ++ debugText kind ++ "; expected artifact, store, hash, or exit"))

def canonicalizeFrom (seen : EvidenceSeen) : List String → Except FlowError (List String)
  | [] => return []
  | spec :: rest => do
    let (check, seen) ← canonicalCheck location seen spec
    return check :: (← canonicalizeFrom seen rest)

def canonicalizeEvidence (evidence : List String) : Except FlowError (List String) :=
  canonicalizeFrom location {} evidence

/-! ### Pools -/

def poolError (code message : String) : FlowError := (FlowError.new "FlowPoolError" code message).at location

/-- The loop over the pools; `seen` are the names before it. -/
def checkPools (declared : String → Bool) (seen : List String) : List String → Except FlowError Unit
  | [] => return ()
  | pool :: rest => do
    ensure (isBlank pool = false ∧ hasControl pool = false)
      (poolError location "invalid-pool" ("invalid pool name " ++ debugText pool))
    ensure (pool ∉ seen)
      (poolError location "duplicate-pool" ("pool " ++ debugText pool ++ " appears more than once"))
    ensure (declared pool)
      ((poolError location "undeclared-pool" ("pool " ++ debugText pool ++
        " is absent from meta.pools")).detail "pool" (.string pool))
    checkPools declared (pool :: seen) rest

def normalizePools (m : Meta) (spec : NodeSpec) : Except FlowError NodeSpec := do
  ensure (spec.pools ≠ [])
    (poolError location "empty-pools" "every flow node must request at least one pool")
  checkPools location (fun pool => spec.drv.isSome || m.pools.contains pool) [] spec.pools
  let evidence ← canonicalizeEvidence location spec.evidence
  return { spec with pools := spec.pools.insertionSort (· ≤ ·), evidence := evidence }

/-! ### Adapter options -/

def optionError (message : String) : FlowError := specError location "invalid-adapter-options" message

def adapterOptionFields : List String :=
  ["prePromptArgv", "environment", "approvalPolicy", "sandboxPolicy", "model", "effort"]

def textOptionFields : List String := ["approvalPolicy", "sandboxPolicy", "model", "effort"]

def setPolicy (options : Fields) (policy : String × Option String) : Except FlowError Fields :=
  match policy with
  | (_, none) => return options
  | (field, some text) => do
    ensure (options.get? field = none) ((specError location "duplicate-adapter-option"
      ("adapter option " ++ debugText field ++ " is set twice")).detail "field" (.string field))
    return options.insert field (.string text)

def setVariable (environment : Fields) (entry : String × String) : Except FlowError Fields := do
  ensure (environment.get? entry.1 = none) (specError location "duplicate-environment"
    ("environment variable " ++ debugText entry.1 ++ " is set twice"))
  return environment.insert entry.1 (.string entry.2)

def prePromptArgv (options : Fields) : Except FlowError Value := do
  let argv := (options.get? "prePromptArgv").getD (.array [])
  let items ← orError (asArray argv)
    (optionError location "adapterOptions.prePromptArgv must be an array of strings")
  ensure (items.all isString)
    (optionError location "adapterOptions.prePromptArgv must be an array of strings")
  return argv

def suppliedEnvironment (options : Fields) : Except FlowError Fields := do
  let environment ← orError (asObject ((options.get? "environment").getD (.object [])))
    (optionError location "adapterOptions.environment must be an object")
  ensure (environment.all fun member => isString member.2)
    (optionError location "adapterOptions.environment values must be strings")
  environment.forM fun (name, value) => validateEnvironmentEntry location name ((asStr value).getD "")
  return environment

/-- The environment in the order of its names. -/
def sortedEnvironment (environment : Fields) : Fields :=
  collectFields (environment.insertionSort fun a b => a.1 ≤ b.1)

def normalizeAdapterOptions (spec : NodeSpec) : Except FlowError NodeSpec := do
  let options ← orError (asObject (spec.adapterOptions.getD (.object [])))
    (optionError location "adapter options must be an object")
  rejectUnknown adapterOptionFields options fun field =>
    (optionError location ("unknown adapter option " ++ debugText field)).detail "field" (.string field)
  let options ← [("approvalPolicy", spec.approvalPolicy), ("sandboxPolicy", spec.sandboxPolicy),
    ("model", spec.model)].foldlM (setPolicy location) options
  let argv ← prePromptArgv location options
  let supplied ← suppliedEnvironment location options
  ensure (((asArray argv).getD []).all fun item => !hasNul ((asStr item).getD ""))
    (optionError location "adapterOptions.prePromptArgv may not contain NUL bytes")
  textOptionFields.forM fun field => ensure ((options.get? field).all isString)
    (optionError location ("adapterOptions." ++ field ++ " must be a string"))
  let environment ← spec.env.entries.foldlM (setVariable location) supplied
  let texts := textOptionFields.filterMap fun field => (options.get? field).map (field, ·)
  return { spec with
    approvalPolicy := none
    sandboxPolicy := none
    model := none
    env := ∅
    adapterOptions := some (.object (("prePromptArgv", argv) ::
      ("environment", .object (sortedEnvironment environment)) :: texts)) }

end Checks

/-! ## The hash -/

/-- The credentials of the pools, the first pool that has a name deciding. -/
def resolvePoolCredentials (pools : List String)
    (configured : Table String (Table String PathBuf)) : Table String PathBuf :=
  pools.foldl (fun credentials pool =>
    ((configured.get? pool).elim [] (·.entries)).foldl (fun credentials (name, path) =>
      if (credentials.get? name).isSome then credentials else credentials.insert name path)
      credentials) ∅

/-- `serde_json::to_value` of the credentials: a path has to be UTF-8. -/
def credentialsValue (credentials : Table String PathBuf) : Option Value :=
  (credentials.entries.mapM fun ((name, path) : String × PathBuf) =>
    path.toStr.map fun text => (name, Value.string text)).map Value.object

/-- The fields of `NODE_SPEC_FIELD_CONTRACT` that are hashed, with their places. -/
def hashedFields : List (Nat × String) :=
  [(10, "argv"), (40, "adapter"), (20, "pool"), (30, "executor"), (110, "runtimeMaxSec"),
    (70, "evidence"), (80, "drv"), (90, "evidenceClass"), (100, "manifestHash"), (50, "workspace"),
    (140, "briefHash"), (60, "adapterOptions")]

def flowCanonicalPayloadFields : List String :=
  ((hashedFields ++ [(120, "noEnqueue"), (130, "credentials")]).insertionSort
    fun a b : Nat × String => a.1 ≤ b.1).map Prod.snd

/-- A pool alone is a text, several are an array. -/
def poolValue : List String → Value
  | [pool] => .string pool
  | pools => strings pools

variable [Witness.Libraries]

/-- `PreparedBrief::from_value(..).hash`, and how the runner hashes a brief. -/
def briefHash (brief : Value) : String := sha256 (encode (render brief))

/-- The members that `canonical_payload_hash` puts into its map, in that order. -/
def payloadMembers (spec : NodeSpec) (credentials : Value) : Fields :=
  present [("argv", spec.argv.map strings),
    ("pool", some (poolValue spec.pools)),
    ("executor", spec.executor.map .string),
    ("adapter", spec.adapter.map .string),
    ("workspace", spec.workspace),
    ("adapterOptions", some (spec.adapterOptions.getD
      (.object [("prePromptArgv", .array []), ("environment", .object [])]))),
    ("evidence", some (strings spec.evidence)),
    ("drv", spec.drv.map Derivation.toValue),
    ("evidenceClass", spec.evidenceClass),
    ("manifestHash", spec.manifestHash.map .string),
    ("runtimeMaxSec", spec.runtimeMaxSec.map fun seconds => natValue seconds.toNat),
    ("noEnqueue", some (.bool true)),
    ("credentials", some credentials),
    ("briefHash", spec.brief.map fun brief => .string (briefHash brief))]

/-- The members in the order of the contract. -/
def orderedMembers (payload : Fields) : Fields :=
  flowCanonicalPayloadFields.filterMap fun field => (payload.get? field).map (field, ·)

def canonicalPayloadHash (spec : NodeSpec) (credentials : Table String PathBuf) :
    Except FlowError String := do
  let credentials ← orError (credentialsValue credentials)
    (FlowError.new "FlowSpecError" "payload-serialization"
      "cannot serialize resolved pool credentials: path contains invalid UTF-8 characters")
  let payload := payloadMembers spec credentials
  rejectUnknown flowCanonicalPayloadFields payload fun field =>
    FlowError.new "FlowSpecError" "canonical-field-unclassified"
      ("canonical payload field " ++ debugText field ++ " is absent from the NodeSpec contract")
  return sha256 (encode (render (.object (orderedMembers payload))))

/-- The bytes that pairs of hex digits stand for. -/
def hexBytes : List Char → List Nat
  | a :: b :: rest => ((hexDigit a).getD 0 * 16 + (hexDigit b).getD 0) :: hexBytes rest
  | _ => []

/-- A UUID of the digest of the node's place in the run. -/
def stableDrvTaskUuid (flowRunId : String) (ordinal : Nat) : String :=
  let digest := sha256 (encode ("flow:" ++ flowRunId ++ ":" ++ toString ordinal).toList)
  let bytes := (hexBytes (digest.toList.drop 7)).take 16
  let bytes := bytes.modify 6 fun byte => byte % 16 + 80
  let bytes := bytes.modify 8 fun byte => byte % 64 + 128
  String.ofList ((bytes.zipIdx.map fun (byte, index) =>
    let digits := [hexChar (byte / 16), hexChar (byte % 16)]
    if index ∈ [4, 6, 8, 10] then '-' :: digits else digits).flatten)

end Tally.Flow
