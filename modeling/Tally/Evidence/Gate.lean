import Tally.Evidence.Spec

/-!
# The evidence gate and the reuse probes

What decides a run from its evidence (`run_evidence_gate_with_store`), and what decides whether an
earlier run stands for a new one (`probe_dedup_with_store`, `probe_full_pass_with_store`). Both read
the artifact files and the Nix store, here a fixed state of them. A probe that hits on a specification
that has something to probe finds what the gate would find.
-/

namespace Tally.Evidence

open Tally.Lib
open Tally (isBlank)
open Tally.Recovery (Verdict)
open Tally.Witness (F64 WitnessRecord)

/-! ## Files and store -/

/-- The identity, size and times of a file. -/
structure FileStamp where
  device : Nat
  inode : Nat
  size : Nat
  modifiedSeconds : Int
  modifiedNanoseconds : Int
  changedSeconds : Int
  changedNanoseconds : Int
  deriving DecidableEq

structure Metadata where
  isFile : Bool
  stamp : FileStamp

/-- An opened file. -/
structure File where
  metadata : Except String Metadata
  content : Except String Bytes

/-- The artifact files and the Nix store, while nothing changes them. -/
structure Surroundings where
  metadata : PathBuf → Except String Metadata
  openFile : PathBuf → Except String File
  checkValidity : PathBuf → Except String Unit

/-- What the program takes from libraries. -/
class EvidenceLibraries where
  /-- The digest of SHA-256 in lower-case hex. -/
  sha256 : Bytes → String
  /-- A double as `{}` writes it. -/
  display : F64 → String

section

variable [EvidenceLibraries] (surroundings : Surroundings)

/-- `hash_artifact_file`. What is looked at again after the file was read is as it was before. -/
def hashArtifactFile (path : PathBuf) : Except EvidenceError String := do
  let pathBefore ← (surroundings.metadata path).mapError (.artifactIo path)
  ensure (pathBefore.isFile = true) (.notRegularFile path)
  let file ← (surroundings.openFile path).mapError (.artifactIo path)
  let fileBefore ← file.metadata.mapError (.artifactIo path)
  ensure (fileBefore.isFile = true) (.notRegularFile path)
  ensure (pathBefore.stamp = fileBefore.stamp) (.artifactChanged path)
  let content ← file.content.mapError (.artifactIo path)
  return "sha256:" ++ EvidenceLibraries.sha256 content

def combineArtifactHashes : List String → Option String
  | [] => none
  | [hash] => some hash
  | hashes =>
    some ("sha256:" ++ EvidenceLibraries.sha256 (encode ("\n".intercalate hashes).toList))

/-- `sort` and `dedup`. -/
def canonicalPaths (paths : List PathBuf) : List String :=
  ((paths.map PathBuf.toStringLossy).insertionSort (· ≤ ·)).dedup

/-- `(!paths.is_empty()).then_some(paths)`. -/
def nonEmpty (paths : List String) : Option (List String) :=
  if paths = [] then none else some paths

/-! ## The gate -/

structure RunOutcome where
  exitCode : Int
  wallClockSeconds : F64
  evidence : EvidenceSpec

structure CheckOutcome where
  spec : String
  passed : Bool
  reason : String
  deriving DecidableEq

structure GateResult where
  verdict : Verdict
  passed : Bool
  artifactHash : Option String
  storePaths : Option (List String)
  checks : List CheckOutcome
  cleanExitNoArtifact : Bool
  deriving DecidableEq

def exitCheck (exitCode expectedExit : Int) : CheckOutcome where
  spec := "exit:" ++ toString expectedExit
  passed := exitCode == expectedExit
  reason :=
    if exitCode = expectedExit then
      "Matched exit code " ++ toString exitCode ++ " == " ++ toString expectedExit
    else "Mismatched exit code " ++ toString exitCode ++ ", expected " ++ toString expectedExit

/-- `is_finite() && >= 0.0`. -/
def spanOk (seconds : F64) : Bool := seconds.isFinite && !seconds.isNegative

def spanCheck (seconds : F64) : CheckOutcome where
  spec := "witness-span"
  passed := spanOk seconds
  reason :=
    if spanOk seconds = true then
      "Recorded a witness span of " ++ EvidenceLibraries.display seconds ++ "s"
    else "Rejected a witness span that is absent, negative, or non-finite"

def artifactCheck (path : PathBuf) : CheckOutcome :=
  match hashArtifactFile surroundings path with
  | .ok hash =>
    ⟨"artifact:" ++ path.toStringLossy, true, "Confirmed the artifact exists (" ++ hash ++ ")"⟩
  | .error error => ⟨"artifact:" ++ path.toStringLossy, false, error.message⟩

def storeCheck (path : PathBuf) : CheckOutcome :=
  match surroundings.checkValidity path with
  | .ok () => ⟨"store:" ++ path.toStringLossy, true, "Validated the store path"⟩
  | .error reason => ⟨"store:" ++ path.toStringLossy, false, reason⟩

/-- The declared hash is the produced one, or one was produced where none is declared. -/
def hashOk (expected artifactHash : Option String) : Bool :=
  match expected with
  | none => artifactHash.isSome
  | some value => artifactHash == some value

def hashReason (expected artifactHash : Option String) : String :=
  match expected, artifactHash with
  | some expected, actual =>
    if actual = some expected then "Matched the content hash " ++ expected
    else match actual with
      | some actual => "Mismatched the content hash " ++ actual ++ ", declared " ++ expected
      | none => "Hashed no content, declared " ++ expected
  | none, some actual => "Recorded the content hash " ++ actual
  | none, none => "Found no artifact to hash"

def hashCheckOutcome (artifactHash expected : Option String) : CheckOutcome where
  spec := (EvidenceCheck.hashSha256 expected).toString
  passed := hashOk expected artifactHash
  reason := hashReason expected artifactHash

def isValid (path : PathBuf) : Bool := (surroundings.checkValidity path).isOk

/-- `run_evidence_gate_with_store`. -/
def runEvidenceGateWithStore (outcome : RunOutcome) : GateResult :=
  let expectedExit := outcome.evidence.expectedExit
  let exitOk := outcome.exitCode == expectedExit
  let timely := spanOk outcome.wallClockSeconds
  let artifactPaths := outcome.evidence.artifactPaths
  let hashed := artifactPaths.map (hashArtifactFile surroundings)
  let allHashed := hashed.all (·.isOk)
  let artifactHash := if allHashed = true then combineArtifactHashes (hashed.filterMap (·.toOption))
    else none
  let storePaths := outcome.evidence.storePaths
  let storesOk := storePaths.all (isValid surroundings)
  let passingStorePaths := nonEmpty (canonicalPaths (storePaths.filter (isValid surroundings)))
  let hashCheck := outcome.evidence.hashCheck
  let artifactRequired := !artifactPaths.isEmpty || !storePaths.isEmpty || hashCheck.isSome
  let artifactsOk := allHashed && hashCheck.all (hashOk · artifactHash)
  let checks := [exitCheck outcome.exitCode expectedExit, spanCheck outcome.wallClockSeconds] ++
    artifactPaths.map (artifactCheck surroundings) ++ storePaths.map (storeCheck surroundings) ++
      (hashCheck.map (hashCheckOutcome artifactHash)).toList
  if (exitOk && timely && (!artifactRequired || (artifactsOk && storesOk))) = true then
    { verdict := .pass, passed := true, artifactHash, storePaths := passingStorePaths, checks
      cleanExitNoArtifact := false }
  else if (exitOk && timely && artifactRequired && (!artifactsOk || !storesOk)) = true then
    { verdict := .cleanExitNoArtifact, passed := false, artifactHash := none
      storePaths := passingStorePaths, checks, cleanExitNoArtifact := true }
  else
    { verdict := .failed, passed := false, artifactHash, storePaths := passingStorePaths, checks
      cleanExitNoArtifact := false }

/-! ## The probes -/

inductive DedupMissReason
  | noKey
  | noPriorPass
  | noArtifactEvidence
  | artifactUnavailable (path : PathBuf)
  | witnessHashMismatch
  | declaredHashMismatch
  | storePathInvalid (path : PathBuf)
  | witnessStorePathsMismatch
  deriving DecidableEq

structure DedupResult where
  hit : Bool
  dedupKey : Option String
  artifactHash : Option String
  storePaths : Option (List String)
  matchedWitnessSeq : Option Nat
  rehashed : Bool
  missReason : Option DedupMissReason
  deriving DecidableEq

def dedupMiss (dedupKey : Option String) (reason : DedupMissReason) (rehashed : Bool) :
    DedupResult where
  hit := false
  dedupKey := dedupKey
  artifactHash := none
  storePaths := none
  matchedWitnessSeq := none
  rehashed := rehashed
  missReason := some reason

/-- `max_by_key(|record| record.seq)`: of equal ones the last. -/
def newest (records : List WitnessRecord) : Option WitnessRecord :=
  records.foldl (fun best record =>
    if best.any (fun earlier => decide (record.seq < earlier.seq)) = true then best
    else some record) none

/-- `probe_matching_record`. -/
def probeMatchingRecord (dedupKey : Option String) (evidence : EvidenceSpec)
    (matched : WitnessRecord) (allowEmpty : Bool) : DedupResult :=
  let paths := evidence.artifactPaths
  let declared := evidence.storePaths
  if (paths.isEmpty && declared.isEmpty && allowEmpty) = true then
    { hit := true, dedupKey, artifactHash := matched.artifactContentHash
      storePaths := matched.storePaths, matchedWitnessSeq := some matched.seq, rehashed := false
      missReason := none }
  else match paths.find? fun path => !(hashArtifactFile surroundings path).isOk with
  | some path => dedupMiss dedupKey (.artifactUnavailable path) true
  | none =>
    let hashes := paths.filterMap fun path => (hashArtifactFile surroundings path).toOption
    let currentHash := combineArtifactHashes hashes
    if (evidence.hashCheck.join.any fun expected => some expected != currentHash) = true then
      dedupMiss dedupKey .declaredHashMismatch true
    else if (!paths.isEmpty && matched.artifactContentHash != currentHash) = true then
      dedupMiss dedupKey .witnessHashMismatch true
    else match declared.find? fun path => !isValid surroundings path with
    | some path => dedupMiss dedupKey (.storePathInvalid path) true
    | none =>
      let storePaths := nonEmpty (canonicalPaths declared)
      if (!declared.isEmpty && matched.storePaths != storePaths) = true then
        dedupMiss dedupKey .witnessStorePathsMismatch true
      else
        { hit := true, dedupKey, artifactHash := currentHash, storePaths
          matchedWitnessSeq := some matched.seq, rehashed := true, missReason := none }

/-- `probe_dedup_with_store`. -/
def probeDedupWithStore (dedupKey : Option String) (evidence : EvidenceSpec)
    (witness : List WitnessRecord) : DedupResult :=
  match dedupKey.filter fun key => !isBlank key with
  | none => dedupMiss dedupKey .noKey false
  | some key =>
    match newest (witness.filter fun record => record.dedupKey == some key &&
      record.verdict == .pass && (record.artifactContentHash.isSome || record.storePaths.isSome)) with
    | none => dedupMiss (some key) .noPriorPass false
    | some matched =>
      if (evidence.artifactPaths.isEmpty && evidence.storePaths.isEmpty) = true then
        dedupMiss (some key) .noArtifactEvidence false
      else probeMatchingRecord surroundings (some key) evidence matched false

/-- `probe_full_pass_with_store`. -/
def probeFullPassWithStore (evidence : EvidenceSpec) (matched : WitnessRecord) : DedupResult :=
  probeMatchingRecord surroundings matched.dedupKey evidence matched true

/-! ## Reuse and the gate -/

variable {surroundings}

/-- The hash that the declared artifacts have now. -/
def producedHash (surroundings : Surroundings) (spec : EvidenceSpec) : Option String :=
  combineArtifactHashes (spec.artifactPaths.filterMap fun path =>
    (hashArtifactFile surroundings path).toOption)

/-- The artifacts can be hashed and the store paths are valid. -/
structure Sound (surroundings : Surroundings) (spec : EvidenceSpec) : Prop where
  hashed : ∀ path ∈ spec.artifactPaths, (hashArtifactFile surroundings path).isOk = true
  valid : ∀ path ∈ spec.storePaths, isValid surroundings path = true

theorem combineArtifactHashes_isSome {hashes : List String} (h : hashes ≠ []) :
    (combineArtifactHashes hashes).isSome = true := by
  match hashes, h with
  | [_], _ => rfl
  | _ :: _ :: _, _ => rfl

theorem Sound.producedHash_isSome {spec : EvidenceSpec} (h : Sound surroundings spec)
    (hpaths : spec.artifactPaths ≠ []) : (producedHash surroundings spec).isSome = true := by
  apply combineArtifactHashes_isSome
  obtain ⟨path, hpath⟩ := List.exists_mem_of_ne_nil _ hpaths
  have hok := h.hashed path hpath
  cases hhash : hashArtifactFile surroundings path with
  | error error =>
    rw [hhash] at hok
    cases hok
  | ok hash =>
    exact List.ne_nil_of_mem (List.mem_filterMap.mpr ⟨path, hpath, by rw [hhash]; rfl⟩)

/-- The gate passes what is sound, exits as expected in a span of time and has the declared hash. -/
theorem Sound.gate_passes {spec : EvidenceSpec} (h : Sound surroundings spec) {seconds : F64}
    (hspan : spanOk seconds = true)
    (hhash : spec.hashCheck.all (hashOk · (producedHash surroundings spec)) = true) :
    let result := runEvidenceGateWithStore surroundings ⟨spec.expectedExit, seconds, spec⟩
    result.verdict = .pass ∧ result.artifactHash = producedHash surroundings spec ∧
      result.storePaths = nonEmpty (canonicalPaths spec.storePaths) := by
  have hhashed : (spec.artifactPaths.map (hashArtifactFile surroundings)).all (·.isOk) = true := by
    rw [List.all_map, List.all_eq_true]
    exact h.hashed
  have hvalid : spec.storePaths.all (isValid surroundings) = true := List.all_eq_true.mpr h.valid
  have hproduced : combineArtifactHashes
      ((spec.artifactPaths.map (hashArtifactFile surroundings)).filterMap (·.toOption)) =
        producedHash surroundings spec := by
    rw [List.filterMap_map]
    rfl
  have hfilter : spec.storePaths.filter (isValid surroundings) = spec.storePaths :=
    List.filter_eq_self.mpr h.valid
  simp only [runEvidenceGateWithStore, beq_self_eq_true, hspan, hhashed, if_true, hproduced, hhash,
    hvalid, Bool.and_self, Bool.or_true, hfilter, and_self]

/-- What a hit has found: nothing to probe, or what is there now. -/
theorem probeMatchingRecord_hit {key : Option String} {spec : EvidenceSpec}
    {matched : WitnessRecord} {allowEmpty : Bool}
    (h : (probeMatchingRecord surroundings key spec matched allowEmpty).hit = true) :
    let result := probeMatchingRecord surroundings key spec matched allowEmpty
    (spec.artifactPaths = [] ∧ spec.storePaths = [] ∧ allowEmpty = true ∧
      result.artifactHash = matched.artifactContentHash ∧ result.storePaths = matched.storePaths) ∨
    (Sound surroundings spec ∧
      (∀ expected, spec.hashCheck = some (some expected) →
        producedHash surroundings spec = some expected) ∧
      result.artifactHash = producedHash surroundings spec ∧
      result.storePaths = nonEmpty (canonicalPaths spec.storePaths)) := by
  intro result
  have hresult : result = probeMatchingRecord surroundings key spec matched allowEmpty := rfl
  have hhit : result.hit = true := h
  clear_value result
  unfold probeMatchingRecord at hresult
  dsimp only at hresult
  split at hresult
  next hempty =>
    rw [Bool.and_eq_true, Bool.and_eq_true, List.isEmpty_iff, List.isEmpty_iff] at hempty
    subst hresult
    exact .inl ⟨hempty.1.1, hempty.1.2, hempty.2, rfl, rfl⟩
  next hempty =>
    split at hresult
    · exact absurd hhit (by rw [hresult]; exact Bool.false_ne_true)
    next hhashed =>
      split at hresult
      · exact absurd hhit (by rw [hresult]; exact Bool.false_ne_true)
      next hdeclared =>
        split at hresult
        · exact absurd hhit (by rw [hresult]; exact Bool.false_ne_true)
        next hwitness =>
          split at hresult
          · exact absurd hhit (by rw [hresult]; exact Bool.false_ne_true)
          next hvalid =>
            split at hresult
            · exact absurd hhit (by rw [hresult]; exact Bool.false_ne_true)
            next hstores =>
              subst hresult
              refine .inr ⟨⟨?_, ?_⟩, ?_, rfl, rfl⟩
              · intro path hpath
                simpa using List.find?_eq_none.mp hhashed path hpath
              · intro path hpath
                simpa using List.find?_eq_none.mp hvalid path hpath
              · intro expected hexpected
                simp only [hexpected, Option.join_some, Option.any_some, bne_iff_ne, ne_eq,
                  Decidable.not_not] at hdeclared
                exact hdeclared.symm

/-- The probe of a history that hits is one of a record, with something to probe. -/
theorem probeDedupWithStore_hit {key : Option String} {spec : EvidenceSpec}
    {witness : List WitnessRecord} (h : (probeDedupWithStore surroundings key spec witness).hit = true) :
    ∃ key' matched, probeDedupWithStore surroundings key spec witness =
      probeMatchingRecord surroundings key' spec matched false := by
  unfold probeDedupWithStore at h ⊢
  split at h
  · cases h
  next key' hkey =>
    split at h
    · cases h
    next matched hmatched =>
      split at h
      · cases h
      next hempty => exact ⟨some key', matched, if_neg hempty⟩

/-- What a probe reports is what the gate reports of the same specification. -/
def Agrees (probe : DedupResult) (gate : GateResult) : Prop :=
  gate.verdict = .pass ∧ gate.artifactHash = probe.artifactHash ∧
    gate.storePaths = probe.storePaths

instance (probe : DedupResult) (gate : GateResult) : Decidable (Agrees probe gate) :=
  inferInstanceAs (Decidable (_ ∧ _ ∧ _))

/-- A hash is declared only along with an artifact that it can be the hash of. -/
def HashOfArtifact (spec : EvidenceSpec) : Prop :=
  spec.hashCheck.isSome = true → spec.artifactPaths ≠ []

theorem hashOk_of_probe {spec : EvidenceSpec} (hartifact : HashOfArtifact spec)
    (hsound : Sound surroundings spec)
    (hdeclared : ∀ expected, spec.hashCheck = some (some expected) →
      producedHash surroundings spec = some expected) :
    spec.hashCheck.all (hashOk · (producedHash surroundings spec)) = true := by
  cases hcheck : spec.hashCheck with
  | none => rfl
  | some expected =>
    rw [Option.all_some]
    cases expected with
    | none => exact hsound.producedHash_isSome (hartifact (by rw [hcheck]; rfl))
    | some value =>
      rw [hdeclared value hcheck]
      exact beq_self_eq_true (some value)

theorem probeMatchingRecord_agrees {key : Option String} {spec : EvidenceSpec}
    {matched : WitnessRecord} {allowEmpty : Bool} {seconds : F64} (hspan : spanOk seconds = true)
    (hartifact : HashOfArtifact spec)
    (h : (probeMatchingRecord surroundings key spec matched allowEmpty).hit = true) :
    let probe := probeMatchingRecord surroundings key spec matched allowEmpty
    let gate := runEvidenceGateWithStore surroundings ⟨spec.expectedExit, seconds, spec⟩
    Agrees probe gate ∨
      (spec.artifactPaths = [] ∧ spec.storePaths = [] ∧ allowEmpty = true ∧ gate.verdict = .pass ∧
        gate.artifactHash = none ∧ gate.storePaths = none ∧
        probe.artifactHash = matched.artifactContentHash ∧ probe.storePaths = matched.storePaths) := by
  rcases probeMatchingRecord_hit h with ⟨hpaths, hstores, hallow, hhash, hstore⟩ |
      ⟨hsound, hdeclared, hhash, hstore⟩
  · have hnone : spec.hashCheck = none := by
      cases hcheck : spec.hashCheck with
      | none => rfl
      | some expected => exact absurd hpaths (hartifact (by rw [hcheck]; rfl))
    have hsound : Sound surroundings spec := by
      constructor
      · rw [hpaths]
        exact fun path hpath => (nomatch hpath)
      · rw [hstores]
        exact fun path hpath => (nomatch hpath)
    obtain ⟨hpass, hproduced, hpassing⟩ := hsound.gate_passes hspan (by rw [hnone]; rfl)
    refine .inr ⟨hpaths, hstores, hallow, hpass, ?_, ?_, hhash, hstore⟩
    · rw [hproduced, producedHash, hpaths]
      rfl
    · rw [hpassing, hstores]
      rfl
  · obtain ⟨hpass, hproduced, hpassing⟩ :=
      hsound.gate_passes hspan (hashOk_of_probe hartifact hsound hdeclared)
    exact .inl ⟨hpass, hproduced.trans hhash.symm, hpassing.trans hstore.symm⟩

/-- Reuse admits what the gate would pass: whatever a probe hits on, where a hash is declared only
along with an artifact, the gate passes with the same hash and store paths. A full pass that has
nothing to probe stands for itself: the probe reports what its record has. -/
theorem reuse_passes_gate (spec : EvidenceSpec) (surroundings : Surroundings)
    (hartifact : HashOfArtifact spec) (seconds : F64) (hspan : spanOk seconds = true) :
    let gate := runEvidenceGateWithStore surroundings ⟨spec.expectedExit, seconds, spec⟩
    (∀ key witness, (probeDedupWithStore surroundings key spec witness).hit = true →
      Agrees (probeDedupWithStore surroundings key spec witness) gate) ∧
    ∀ matched, (probeFullPassWithStore surroundings spec matched).hit = true →
      Agrees (probeFullPassWithStore surroundings spec matched) gate ∨
        (spec.artifactPaths = [] ∧ spec.storePaths = [] ∧ gate.verdict = .pass ∧
          gate.artifactHash = none ∧ gate.storePaths = none ∧
          (probeFullPassWithStore surroundings spec matched).artifactHash =
            matched.artifactContentHash ∧
          (probeFullPassWithStore surroundings spec matched).storePaths = matched.storePaths) := by
  constructor
  · intro key witness h
    obtain ⟨key', matched, hprobe⟩ := probeDedupWithStore_hit h
    rw [hprobe] at h ⊢
    rcases probeMatchingRecord_agrees hspan hartifact h with hagrees | ⟨-, -, hallow, -⟩
    · exact hagrees
    · cases hallow
  · intro matched h
    rcases probeMatchingRecord_agrees hspan hartifact h with hagrees |
        ⟨hpaths, hstores, -, hpass, hhash, hstore, hprobeHash, hprobeStore⟩
    · exact .inl hagrees
    · exact .inr ⟨hpaths, hstores, hpass, hhash, hstore, hprobeHash, hprobeStore⟩

end

namespace Sample

local instance libraries : EvidenceLibraries where
  sha256 content := if content = [0x41] then "a1" else "00"
  display _ := "1.5"

def seconds : F64 := ⟨0x3ff8000000000000#64⟩

def artifact : PathBuf := .ofString "/a"

def storePath : PathBuf := .ofString "/nix/store/00000000000000000000000000000000-a"

def stamp : FileStamp := ⟨1, 2, 1, 0, 0, 0, 0⟩

/-- One artifact, whose content is a letter, and a store in which everything is valid. -/
def surroundings : Surroundings where
  metadata path := if path = artifact then .ok ⟨true, stamp⟩ else .error "not found"
  openFile path :=
    if path = artifact then .ok ⟨.ok ⟨true, stamp⟩, .ok [0x41]⟩ else .error "not found"
  checkValidity _ := .ok ()

def record (hash : Option String) (storePaths : Option (List String)) : WitnessRecord where
  taskUuid := none
  transitionTimestamp := "2026-01-01T00:00:00.000Z"
  verdict := .pass
  exitCode := 0
  artifactContentHash := hash
  storePaths := storePaths
  drv := none
  gpuSeconds := none
  wallClock := seconds
  attempt := 1
  leaseEpoch := 1
  dedupKey := some "key"
  payloadHash := none
  briefHash := none
  origin := ⟨1, .manual, none⟩
  orchestration := none
  laborClass := .fresh
  traceRef := none
  pools := ["pool"]
  executor := none
  hostId := none
  charge := none
  model := none
  evidenceClass := none
  manifestHash := none
  completion := none
  error := none
  resultRevision := none
  schemaVersion := 2
  authorship := none
  authorshipSessions := none
  extensions := []
  seq := 1
  prevHash := ""
  hash := ""

def spec : EvidenceSpec where
  checks := [.artifact artifact, .store storePath, .hashSha256 none]
  accepted := by decide +kernel

def matched : WitnessRecord :=
  record (some "sha256:a1") (some ["/nix/store/00000000000000000000000000000000-a"])

theorem reuse_passes_gate_spec :
    (probeDedupWithStore surroundings (some "key") spec [matched]).hit = true ∧
      (probeFullPassWithStore surroundings spec matched).hit = true ∧
      Agrees (probeDedupWithStore surroundings (some "key") spec [matched])
        (runEvidenceGateWithStore surroundings ⟨spec.expectedExit, seconds, spec⟩) := by
  have hhit : (probeDedupWithStore surroundings (some "key") spec [matched]).hit = true := by
    decide +kernel
  have hartifact : HashOfArtifact spec := fun _ => by decide +kernel
  have h := reuse_passes_gate spec surroundings hartifact seconds (by decide +kernel)
  exact ⟨hhit, by decide +kernel, h.1 (some "key") [matched] hhit⟩

/-- Nothing is declared. -/
def nothing : EvidenceSpec := ⟨[], rfl⟩

/-- A full pass with nothing to probe hits with the store paths of its record, of which the gate knows
nothing. -/
theorem empty_full_pass_reports_record :
    EvidenceSpec.new [] = .ok nothing ∧ spanOk seconds = true ∧
      (probeFullPassWithStore surroundings nothing matched).hit = true ∧
      ¬ Agrees (probeFullPassWithStore surroundings nothing matched)
        (runEvidenceGateWithStore surroundings ⟨nothing.expectedExit, seconds, nothing⟩) := by
  refine ⟨rfl, ?_, ?_, ?_⟩
  all_goals decide +kernel

end Sample

end Tally.Evidence
