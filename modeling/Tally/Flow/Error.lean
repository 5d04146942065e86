import Tally.Poolset
import Tally.Witness.Record

/-!
# Errors of a flow run

What the checker and the runner report (`error.rs`): a name, a code, a message and details. The codes by
which a run is refused for what it was recorded with share fourteen members of the details
(`supersessionDetailFields`), which are there whoever raised the error: `completeSupersessionDetails` puts
them first and adds nothing when it is applied again.
-/

namespace Tally.Flow

open Tally.Lib
open Tally.Witness (asStr present)

/-! ## Data -/

structure SourceLocation where
  line : UInt32
  column : UInt32
  deriving DecidableEq, Repr

structure FlowError where
  name : String
  code : String
  message : String
  location : Option SourceLocation
  ordinal : Option Nat
  details : Fields

namespace FlowError

/-- `FlowError::new(..)`. -/
def new (name code message : String) : FlowError := ⟨name, code, message, none, none, []⟩

/-- `FlowError::at`. -/
def «at» (error : FlowError) (location : SourceLocation) : FlowError :=
  { error with location := some location }

def withOrdinal (error : FlowError) (ordinal : Nat) : FlowError :=
  { error with ordinal := some ordinal }

def detail (error : FlowError) (key : String) (value : Value) : FlowError :=
  { error with details := error.details.insert key value }

/-- `error.details.extend(details)`. -/
def extend (error : FlowError) (details : Fields) : FlowError :=
  details.foldl (fun error member => error.detail member.1 member.2) error

end FlowError

/-! ## What to do about a code -/

/-- `RECOVERY_FACTS`: whether the same command can have another answer, and what clears the error. -/
def recoveryFacts : List (String × Bool × String) :=
  [("script-changed-mid-run", false, "supersede"),
    ("args-changed-mid-run", false, "supersede"),
    ("catalog-changed-mid-run", false, "supersede"),
    ("flow-run-superseded", false, "run-successor"),
    ("replay-divergence", false, "investigate"),
    ("script-history-conflict", false, "investigate"),
    ("args-history-conflict", false, "investigate"),
    ("catalog-history-conflict", false, "investigate"),
    ("flow-lineage-unusable", false, "repair-lineage-ledger"),
    ("flow-lineage-conflict", false, "investigate"),
    ("daemon-unreachable", true, "retry"),
    ("daemon-timeout", true, "retry"),
    ("daemon-epoch-changed", true, "retry")]

def recoveryFact (code : String) : Option (Bool × String) :=
  (recoveryFacts.find? fun fact => fact.1 = code).map Prod.snd

def supersessionCodes : List String :=
  ["script-changed-mid-run", "args-changed-mid-run", "catalog-changed-mid-run", "flow-run-superseded",
    "replay-divergence"]

def isSupersessionCode (code : String) : Bool := supersessionCodes.contains code

def supersessionDetailFields : List String :=
  ["flowRunId", "divergentInput", "recordedHash", "currentHash", "recordedLabel", "currentLabel",
    "taskUuid", "successorFlowRunId", "reason", "recordedAt", "kernelError", "remedy", "transient",
    "resolution"]

/-- The input that diverged, for the codes that a rollover clears. -/
def divergentInput : String → Option String
  | "script-changed-mid-run" => some "script"
  | "args-changed-mid-run" => some "args"
  | "catalog-changed-mid-run" => some "catalog"
  | _ => none

def familyDivergentInput (code : String) : Option String :=
  if code = "replay-divergence" then some "payload" else divergentInput code

/-- Every code of the family has its facts. -/
theorem recoveryFact_isSome {code : String} (h : isSupersessionCode code = true) :
    (recoveryFact code).isSome = true := by
  rw [isSupersessionCode, List.contains_iff_mem] at h
  revert code
  decide

/-- A code is cleared by a rollover exactly when it says which input diverged. -/
theorem resolution_eq_supersede_iff {fact : String × Bool × String} (h : fact ∈ recoveryFacts) :
    fact.2.2 = "supersede" ↔ (divergentInput fact.1).isSome = true := by
  revert fact
  decide

def supersedeRemedy (code flowRunId : String) : String :=
  "tally flow supersede --flow-run-id " ++ flowRunId ++ " --new-flow-run-id <FRESH-UUID> --reason " ++
    (divergentInput code).elim "operator" (· ++ "-changed")

/-- `flow_run_id.trim().starts_with('-')`. -/
def isFlagShaped (flowRunId : String) : Bool :=
  (flowRunId.toList.dropWhile isWhitespace).head? = some '-'

/-! ## The details of the family -/

/-- The run that the details name by a text with something to read in it. -/
def namedRun (details : Fields) : Option String :=
  ((details.get? "flowRunId").bind asStr).filter fun flowRunId => !isBlank flowRunId

def nullOr (value : Option String) : Value := value.elim .null .string

/-- A member of the completed details. -/
def supersessionMember (code : String) (details : Fields) (field : String) : Value :=
  if field = "flowRunId" then
    match details.get? "flowRunId" with
    | none | some (.string _) => nullOr (namedRun details)
    | some named => named
  else if field = "divergentInput" then nullOr (familyDivergentInput code)
  else if field = "remedy" then
    match divergentInput code, namedRun details with
    | some _, some flowRunId =>
      if isFlagShaped flowRunId then .null else .string (supersedeRemedy code flowRunId)
    | _, _ => .null
  else if field = "transient" then (recoveryFact code).elim .null fun fact => .bool fact.1
  else if field = "resolution" then nullOr ((recoveryFact code).map Prod.snd)
  else (details.get? field).getD .null

/-- What else was there follows the fourteen members. -/
def completeSupersessionDetails (code : String) (details : Fields) : Fields :=
  supersessionDetailFields.map (fun field => (field, supersessionMember code details field)) ++
    details.filter fun member => member.1 ∉ supersessionDetailFields

structure SupersessionDetails where
  flowRunId : String
  recordedHash : Option String := none
  currentHash : Option String := none
  recordedLabel : Option String := none
  currentLabel : Option String := none
  taskUuid : Option String := none
  successorFlowRunId : Option String := none
  reason : Option String := none
  recordedAt : Option String := none
  kernelError : Option String := none

def supersessionDetails (code : String) (fields : SupersessionDetails) : Fields :=
  completeSupersessionDetails code (present [("flowRunId", some (.string fields.flowRunId)),
    ("recordedHash", fields.recordedHash.map .string), ("currentHash", fields.currentHash.map .string),
    ("recordedLabel", fields.recordedLabel.map .string),
    ("currentLabel", fields.currentLabel.map .string), ("taskUuid", fields.taskUuid.map .string),
    ("successorFlowRunId", fields.successorFlowRunId.map .string), ("reason", fields.reason.map .string),
    ("recordedAt", fields.recordedAt.map .string), ("kernelError", fields.kernelError.map .string)])

def supersessionError (code message : String) (fields : SupersessionDetails) : FlowError :=
  { FlowError.new "FlowReplayError" code message with details := supersessionDetails code fields }

def withRecoveryFacts (error : FlowError) : FlowError :=
  if isSupersessionCode error.code then
    { error with details := completeSupersessionDetails error.code error.details }
  else
    match recoveryFact error.code with
    | none => error
    | some (transient, resolution) =>
      (error.detail "transient" (.bool transient)).detail "resolution" (.string resolution)

/-! ## The members are there, once and for all -/

section Complete

variable {code field : String} {details : Fields}

/-- The fourteen members come first and in their order. -/
theorem fields_prefix_complete (code : String) (details : Fields) :
    supersessionDetailFields <+: (completeSupersessionDetails code details).map Prod.fst := by
  rw [completeSupersessionDetails, List.map_append, List.map_map]
  exact ⟨_, congrArg (· ++ _) (List.map_id _).symm⟩

theorem get?_map_append {names : List String} {value : String → Value} {rest : Fields}
    (h : field ∈ names) :
    Fields.get? (names.map (fun name => (name, value name)) ++ rest) field = some (value field) := by
  induction names with
  | nil => cases h
  | cons name names ih =>
    rw [List.map_cons, List.cons_append, Fields.get?]
    split
    · next heq => rw [heq]
    · next hne => exact ih ((List.mem_cons.mp h).resolve_left (Ne.symm hne))

theorem get?_complete (h : field ∈ supersessionDetailFields) :
    (completeSupersessionDetails code details).get? field = some (supersessionMember code details field) :=
  get?_map_append h

theorem supersessionMember_flowRunId :
    supersessionMember code details "flowRunId" =
      match details.get? "flowRunId" with
      | none | some (.string _) => nullOr (namedRun details)
      | some named => named := by
  rw [supersessionMember, if_pos rfl]

/-- The run has the same name in the completed details. -/
theorem namedRun_complete : namedRun (completeSupersessionDetails code details) = namedRun details := by
  rw [namedRun, get?_complete (by decide), supersessionMember_flowRunId]
  cases hnamed : details.get? "flowRunId" with
  | none =>
    rw [namedRun, hnamed]
    rfl
  | some named =>
    cases named with
    | string flowRunId =>
      rw [namedRun, hnamed]
      change Option.filter _ ((some (nullOr (Option.filter _ (some flowRunId)))).bind asStr) =
        Option.filter _ (some flowRunId)
      rw [Option.filter_some]
      split
      · next hblank => exact Option.filter_some_pos hblank
      · rfl
    | null | bool _ | number _ | array _ | object _ =>
      rw [namedRun, hnamed]

theorem supersessionMember_complete (h : field ∈ supersessionDetailFields) :
    supersessionMember code (completeSupersessionDetails code details) field =
      supersessionMember code details field := by
  by_cases hrun : field = "flowRunId"
  · subst hrun
    rw [supersessionMember_flowRunId, get?_complete h, namedRun_complete, supersessionMember_flowRunId]
    cases hnamed : details.get? "flowRunId" with
    | none =>
      rw [namedRun, hnamed]
      rfl
    | some named =>
      cases named with
      | string flowRunId =>
        dsimp only
        cases namedRun details <;> rfl
      | null =>
        rw [namedRun, hnamed]
      | bool _ | number _ | array _ | object _ => rfl
  · have hget : (completeSupersessionDetails code details).get? field =
        some (supersessionMember code details field) := get?_complete h
    rw [supersessionMember, if_neg hrun] at hget
    rw [supersessionMember, supersessionMember, if_neg hrun, if_neg hrun, namedRun_complete]
    split
    · rfl
    · next hinput =>
      split
      · rfl
      · next hremedy =>
        split
        · rfl
        · next htransient =>
          split
          · rfl
          · next hresolution =>
            rw [hget, if_neg hinput, if_neg hremedy, if_neg htransient, if_neg hresolution]
            rfl

theorem filter_complete :
    (completeSupersessionDetails code details).filter (fun member => member.1 ∉ supersessionDetailFields) =
      details.filter fun member => member.1 ∉ supersessionDetailFields := by
  have hnone : (supersessionDetailFields.map fun field => (field, supersessionMember code details field)).filter
      (fun member => member.1 ∉ supersessionDetailFields) = [] := by
    rw [List.filter_eq_nil_iff]
    intro member hmember
    obtain ⟨field, hfield, rfl⟩ := List.mem_map.mp hmember
    rw [decide_eq_true_eq, not_not]
    exact hfield
  rw [completeSupersessionDetails, List.filter_append, hnone, List.nil_append, List.filter_filter]
  simp only [Bool.and_self]

/-- Details that are complete stay as they are. -/
theorem complete_complete (code : String) (details : Fields) :
    completeSupersessionDetails code (completeSupersessionDetails code details) =
      completeSupersessionDetails code details := by
  rw [completeSupersessionDetails, filter_complete, completeSupersessionDetails]
  congr 1
  apply List.map_congr_left
  intro field hfield
  rw [← completeSupersessionDetails, supersessionMember_complete hfield]

end Complete

section Stamp

variable (error : FlowError)

@[simp] theorem withRecoveryFacts_code : (withRecoveryFacts error).code = error.code := by
  rw [withRecoveryFacts]
  split
  · rfl
  · split <;> rfl

@[simp] theorem withRecoveryFacts_name : (withRecoveryFacts error).name = error.name := by
  rw [withRecoveryFacts]
  split
  · rfl
  · split <;> rfl

variable {error}

/-- Every error of the family has the fourteen members. -/
theorem fields_prefix_of_code (h : isSupersessionCode error.code = true) :
    supersessionDetailFields <+: (withRecoveryFacts error).details.map Prod.fst := by
  rw [withRecoveryFacts, if_pos h]
  exact fields_prefix_complete error.code error.details

/-- An error that was built with the fourteen members stays as it is. -/
theorem withRecoveryFacts_of_details {fields : SupersessionDetails}
    (hcode : isSupersessionCode error.code = true)
    (h : error.details = supersessionDetails error.code fields) : withRecoveryFacts error = error := by
  have hcomplete : completeSupersessionDetails error.code error.details = error.details := by
    rw [h, supersessionDetails, complete_complete]
  rw [withRecoveryFacts, if_pos hcode, hcomplete]

end Stamp

end Tally.Flow
