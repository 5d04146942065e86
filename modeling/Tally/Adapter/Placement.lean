import Tally.Adapter.Render

/-!
# Where the options of a job stand

What a job asks an adapter for stands in the argv once: in the place that the template has for it, or as
the fragment that the adapter declares, in one block with the other options. A launch does so unless its
template is a lone `--`, and a resume unless its template has a place for the effort, which is filled
with the captured one; or it has two places for one option; or a text that is no placeholder stands for
one; or the block comes first (`adapters_place_once_iff`).
-/

namespace Tally.Adapter

open Tally.Lib

/-! ## What is to stand in the argv -/

def segments (argument : String) : Option (List (Segment Char)) :=
  segmentsFuel ['%', '<'] ['>', '%'] allowedName argument.toList.length argument.toList

/-- How many places the template has for a name. -/
def placeCount (name : String) (template : List String) : Nat :=
  (template.flatMap fun argument => (segments argument).getD []).count (.hole name.toList)

def hasPlaceholder (name : String) (template : List String) : Bool := 0 < placeCount name template

/-- What the job asks for in the place of a name. -/
def requested (options : AdapterJobOptions) (cwd : Option String) (name : String) : Option String :=
  if name = "model" then options.model
  else if name = "effort" then options.effort
  else if name = "cwd" then cwd
  else none

def captureText (captures : Table String Value) (name : String) : String :=
  ((captures.get? name).map valueText).getD ""

/-- What is to stand in the place of a name: what is asked for, and the capture otherwise. -/
def placeText (captures : Table String Value) (options : AdapterJobOptions) (cwd : Option String)
    (name : String) : String :=
  (requested options cwd name).getD (captureText captures name)

/-- An argument with its places filled. -/
def fillArgument (text : String → String) (argument : String) : String :=
  String.ofList (expand (fun name => (text (String.ofList name)).toList) ((segments argument).getD []))

def policyFragment (policies : Table String (List String)) (requested : Option String) : List String :=
  match requested with
  | none => []
  | some policy => (policies.get? policy).getD []

def valueFragment (config : Option AdapterValueOverride) (requested : Option String) : List String :=
  match requested, config with
  | some value, some config => config.argv.map (renderNamed "value" value)
  | _, _ => []

def cwdFragment (cwdArgv : Option (List String)) (cwd : Option String) : List String :=
  match cwdArgv, cwd with
  | some template, some cwd => template.map (renderNamed "cwd" cwd)
  | _, _ => []

/-- The options of a job, without those that have a place in the template. -/
def fragments (config : AdapterConfig) (options : AdapterJobOptions) (cwd : Option String)
    (placed : String → Bool) : List String :=
  options.prePromptArgv ++ policyFragment config.launch.approvalPolicies options.approvalPolicy ++
    policyFragment config.launch.sandboxPolicies options.sandboxPolicy ++
    cwdFragment config.launch.cwdArgv (if placed "cwd" then none else cwd) ++
    valueFragment config.launch.model (if placed "model" then none else options.model) ++
    valueFragment config.launch.effort (if placed "effort" then none else options.effort)

/-- The declared place of the options, or before a final `--`, or the end. -/
def insertionPoint (base : List String) (index : Option Nat) : Nat :=
  match index with
  | some index => index
  | none => if base.getLast? = some "--" then base.length - 1 else base.length

/-- The argv is the filled template with the options at a point after its first element and before a
final `--`, and the workload. -/
structure PlacesOnce (base inserted : List String) (point : Nat) (workload argv : List String) :
    Prop where
  argv_eq : argv = base.take point ++ inserted ++ base.drop point ++ workload
  first : inserted ≠ [] → base.take point ≠ []
  terminator : inserted ≠ [] → base.getLast? = some "--" → point < base.length

/-- The first element is that of the template, or of the workload. -/
theorem PlacesOnce.head {base inserted workload argv : List String} {point : Nat}
    (h : PlacesOnce base inserted point workload argv) : argv.head? = (base ++ workload).head? := by
  rw [h.argv_eq]
  by_cases hinserted : inserted = []
  · rw [hinserted, List.append_nil, List.take_append_drop]
  · obtain ⟨first, rest, hfront⟩ := List.exists_cons_of_ne_nil (h.first hinserted)
    have hbase : base = first :: (rest ++ base.drop point) := by
      rw [← List.cons_append, ← hfront, List.take_append_drop]
    rw [hfront]
    conv_rhs => rw [hbase]
    rfl

section

variable (config : AdapterConfig) (options : AdapterJobOptions) (cwd : Option PathBuf)
  (workload argv : List String)

def cwdString : Option String := cwd.bind PathBuf.toStr

def LaunchPlaces : Prop :=
  PlacesOnce config.argv (fragments config options (cwdString cwd) fun _ => false)
    (insertionPoint config.argv none) workload argv

variable (template : List String) (captures : Table String Value)

def resumeBase : List String :=
  template.map (fillArgument (placeText captures options (cwdString cwd)))

def resumeFragments : List String :=
  fragments config options (cwdString cwd) (hasPlaceholder · template)

/-- The argument with the capture that the adapter names, if it names one. -/
def declaredIndex : Option Nat :=
  config.launch.resumeOptionsBeforeCapture.bind fun capture =>
    (placesOf (marker capture) template).head?

def resumePoint : Nat :=
  insertionPoint (resumeBase options cwd template captures) (declaredIndex config template)

structure ResumePlaces : Prop where
  single : ∀ name, requested options (cwdString cwd) name ≠ none → placeCount name template ≤ 1
  placed : PlacesOnce (resumeBase options cwd template captures)
    (resumeFragments config options cwd template) (resumePoint config options cwd template captures)
    workload argv

/-! ## When they do -/

def LaunchCondition : Prop :=
  (fragments config options (cwdString cwd) fun _ => false) = [] ∨ config.argv ≠ ["--"]

/-- What reads like the placeholder of an option that is asked for is one. -/
structure PlacesReal : Prop where
  model : options.model ≠ none → mentions "model" template = true →
    hasPlaceholder "model" template = true
  effort : options.effort ≠ none → mentions "effort" template = true →
    hasPlaceholder "effort" template = true
  cwd : cwdString cwd ≠ none → config.launch.cwdArgv ≠ none → mentions "cwd" template = true →
    hasPlaceholder "cwd" template = true

structure ResumeCondition : Prop where
  single : ∀ name, requested options (cwdString cwd) name ≠ none → placeCount name template ≤ 1
  first : resumeFragments config options cwd template = [] ∨
    0 < resumePoint config options cwd template captures
  real : PlacesReal config options cwd template
  /-- The captured effort, in its place, is the one that is asked for. -/
  captured : ∀ effort, options.effort = some effort → hasPlaceholder "effort" template = true →
    (captures.get? "effort").map valueText = some effort

end

end Tally.Adapter
