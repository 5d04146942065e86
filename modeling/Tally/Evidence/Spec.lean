import Tally.Lib.Lossy
import Tally.Lib.Result
import Tally.Witness.Record

/-!
# Evidence specifications

The checks that a job declares about its own outcome (`evidence.rs`). A specification is what
`EvidenceSpec::new` lets through: it normalises a declared hash and refuses a second check of a kind
that can be declared once.
-/

namespace Tally.Evidence

open Tally.Lib
open Tally.Witness (isNixStorePath)

/-! ## Checks -/

inductive EvidenceCheck
  | artifact (path : PathBuf)
  | store (path : PathBuf)
  | hashSha256 (expected : Option String)
  | exit (code : Int)
  deriving DecidableEq

inductive EvidenceError
  | invalidSpec (reason : String)
  | duplicateCheck (kind : String)
  | duplicateStore (path : PathBuf)
  | artifactIo (path : PathBuf) (source : String)
  | notRegularFile (path : PathBuf)
  | artifactChanged (path : PathBuf)
  deriving DecidableEq

namespace EvidenceError

def message : EvidenceError → String
  | invalidSpec reason => "invalid evidence specification: " ++ reason
  | duplicateCheck kind => "evidence specification contains more than one " ++ kind ++ " check"
  | duplicateStore path =>
    "evidence specification contains duplicate store path " ++ path.toStringLossy
  | artifactIo path source => "cannot read artifact " ++ path.toStringLossy ++ ": " ++ source
  | notRegularFile path => "artifact " ++ path.toStringLossy ++ " is not a regular file"
  | artifactChanged path =>
    "artifact " ++ path.toStringLossy ++ " changed while it was being hashed"

end EvidenceError

/-- `value.strip_prefix("sha256:").unwrap_or(value)`. -/
def withoutAlgorithm (value : String) : List Char :=
  if "sha256:".toList.isPrefixOf value.toList then value.toList.drop 7 else value.toList

def isHexDigit (c : Char) : Bool :=
  c.isDigit || ('a' ≤ c && c ≤ 'f') || ('A' ≤ c && c ≤ 'F')

def toAsciiLowercase (c : Char) : Char :=
  if 'A' ≤ c ∧ c ≤ 'Z' then Char.ofNat (c.toNat + 32) else c

def normalizeSha256 (value : String) : Except EvidenceError String := do
  let hex := withoutAlgorithm value
  ensure ((encode hex).length = 64 ∧ hex.all isHexDigit = true)
    (.invalidSpec "a fixed sha256 value must contain exactly 64 hexadecimal digits")
  return "sha256:" ++ String.ofList (hex.map toAsciiLowercase)

namespace EvidenceCheck

/-- `EvidenceCheck::fmt`. -/
def toString : EvidenceCheck → String
  | artifact path => "artifact:" ++ path.toStringLossy
  | store path => "store:" ++ path.toStringLossy
  | hashSha256 none => "hash:sha256"
  | hashSha256 (some expected) => "hash:sha256:" ++ String.ofList (withoutAlgorithm expected)
  | exit code => "exit:" ++ ToString.toString code

end EvidenceCheck

/-! ## Specifications -/

/-- What the loop of `EvidenceSpec::new` has met so far. -/
structure Seen where
  hash : Bool := false
  exit : Bool := false
  storePaths : List PathBuf := []

/-- One round of the loop: the check as it is kept. -/
def Seen.check (seen : Seen) : EvidenceCheck → Except EvidenceError (EvidenceCheck × Seen)
  | .artifact path =>
    if path.bytes = [] then .error (.invalidSpec "artifact evidence requires a path")
    else if path.toStr = none then
      .error (.invalidSpec "artifact evidence paths must be valid UTF-8")
    else if path.isAbsolute = false then
      .error (.invalidSpec "artifact evidence requires an absolute path")
    else .ok (.artifact path, seen)
  | .store path =>
    -- `PathBuf` compares by components; a canonical store path is its components
    if path.toStr.any isNixStorePath = false then
      .error (.invalidSpec "store evidence requires an absolute canonical Nix store path")
    else if path ∈ seen.storePaths then .error (.duplicateStore path)
    else .ok (.store path, { seen with storePaths := path :: seen.storePaths })
  | .hashSha256 expected =>
    if seen.hash = true then .error (.duplicateCheck "hash")
    else match expected with
      | none => .ok (.hashSha256 none, { seen with hash := true })
      | some value => do
        let value ← normalizeSha256 value
        return (.hashSha256 (some value), { seen with hash := true })
  | .exit code =>
    if seen.exit = true then .error (.duplicateCheck "exit")
    else if ¬ (0 ≤ code ∧ code ≤ 255) then
      .error (.invalidSpec ("exit evidence code must be in 0..=255: " ++ toString code))
    else .ok (.exit code, { seen with exit := true })

/-- The loop of `EvidenceSpec::new`. -/
def Seen.checks (seen : Seen) : List EvidenceCheck → Except EvidenceError (List EvidenceCheck)
  | [] => .ok []
  | check :: rest => do
    let (kept, seen) ← seen.check check
    let others ← seen.checks rest
    return kept :: others

/-! ## What a specification keeps -/

theorem toNat_lt_of_hex {c : Char} (h : isHexDigit c = true) : c.toNat < 128 := by
  simp only [isHexDigit, Char.isDigit, Bool.or_eq_true, Bool.and_eq_true, decide_eq_true_eq,
    Char.le_def, UInt32.le_iff_toNat_le] at h
  rcases h with (h | h) | h
  · exact Nat.lt_of_le_of_lt h.2 (by decide)
  · exact Nat.lt_of_le_of_lt h.2 (by decide)
  · exact Nat.lt_of_le_of_lt h.2 (by decide)

theorem toAsciiLowercase_of_hex {c : Char} (h : isHexDigit c = true) :
    isHexDigit (toAsciiLowercase c) = true ∧
      toAsciiLowercase (toAsciiLowercase c) = toAsciiLowercase c := by
  have hsmall := toNat_lt_of_hex h
  have hall : ∀ n < 128, isHexDigit (Char.ofNat n) = true →
      isHexDigit (toAsciiLowercase (Char.ofNat n)) = true ∧
        toAsciiLowercase (toAsciiLowercase (Char.ofNat n)) = toAsciiLowercase (Char.ofNat n) := by
    decide +kernel
  have := hall c.toNat hsmall
  rw [Char.ofNat_toNat] at this
  exact this h

theorem withoutAlgorithm_append (hex : List Char) :
    withoutAlgorithm ("sha256:" ++ String.ofList hex) = hex := by
  have htext : ("sha256:" ++ String.ofList hex).toList = "sha256:".toList ++ hex := by
    rw [String.toList_append, @String.toList_ofList hex]
  have hpre : "sha256:".toList.isPrefixOf ("sha256:".toList ++ hex) = true :=
    List.isPrefixOf_iff_prefix.mpr ⟨hex, rfl⟩
  rw [withoutAlgorithm, htext, if_pos hpre]
  rfl

theorem encode_length_of_hex {hex : List Char} (h : hex.all isHexDigit = true) :
    (encode hex).length = hex.length := by
  induction hex with
  | nil => rfl
  | cons c rest ih =>
    rw [List.all_cons, Bool.and_eq_true] at h
    have hone : (String.utf8EncodeChar c).length = 1 := by
      rw [String.length_utf8EncodeChar, Char.utf8Size_eq_one_iff]
      have hsmall := toNat_lt_of_hex h.1
      exact UInt32.le_iff_toNat_le.mpr (Nat.le_of_lt_succ hsmall)
    rw [encode, List.flatMap_cons, List.length_append, hone, List.length_cons, Nat.add_comm]
    exact congrArg (· + 1) (ih h.2)

theorem normalizeSha256_idem {value kept : String} (h : normalizeSha256 value = .ok kept) :
    normalizeSha256 kept = .ok kept := by
  simp only [normalizeSha256, bind_ok_iff, ensure_eq_ok] at h
  obtain ⟨-, ⟨hlength, hhex⟩, hkept⟩ := h
  cases hkept
  have hlower : ((withoutAlgorithm value).map toAsciiLowercase).all isHexDigit = true := by
    rw [List.all_map, List.all_eq_true]
    exact fun c hc => (toAsciiLowercase_of_hex (List.all_eq_true.mp hhex c hc)).1
  have hfixed : ((withoutAlgorithm value).map toAsciiLowercase).map toAsciiLowercase =
      (withoutAlgorithm value).map toAsciiLowercase := by
    rw [List.map_map]
    exact List.map_congr_left fun c hc =>
      (toAsciiLowercase_of_hex (List.all_eq_true.mp hhex c hc)).2
  rw [encode_length_of_hex hhex] at hlength
  simp only [normalizeSha256, bind_ok_iff, ensure_eq_ok, withoutAlgorithm_append, hfixed]
  refine ⟨(), ⟨?_, hlower⟩, rfl⟩
  rw [encode_length_of_hex hlower, List.length_map, hlength]

theorem Seen.check_kept {seen next : Seen} {check kept : EvidenceCheck}
    (h : seen.check check = .ok (kept, next)) : seen.check kept = .ok (kept, next) := by
  cases check with
  | artifact path =>
    have hkept := h
    simp only [Seen.check] at h
    split at h <;> try cases h
    split at h <;> try cases h
    split at h <;> cases h
    exact hkept
  | store path =>
    have hkept := h
    simp only [Seen.check] at h
    split at h <;> try cases h
    split at h <;> cases h
    exact hkept
  | exit code =>
    have hkept := h
    simp only [Seen.check] at h
    split at h <;> try cases h
    split at h <;> cases h
    exact hkept
  | hashSha256 expected =>
    simp only [Seen.check] at h
    split at h <;> try cases h
    next hseen =>
      cases expected with
      | none =>
        cases h
        simp only [Seen.check, if_neg hseen]
      | some value =>
        simp only [bind_ok_iff] at h
        obtain ⟨normal, hnormal, hkept⟩ := h
        cases hkept
        simp only [Seen.check, if_neg hseen, normalizeSha256_idem hnormal]
        rfl

theorem Seen.checks_kept {seen : Seen} {given kept : List EvidenceCheck}
    (h : seen.checks given = .ok kept) : seen.checks kept = .ok kept := by
  induction given generalizing seen kept with
  | nil =>
    cases h
    rfl
  | cons check rest ih =>
    simp only [Seen.checks, bind_ok_iff] at h
    obtain ⟨⟨first, next⟩, hfirst, others, hothers, hkept⟩ := h
    cases hkept
    simp only [Seen.checks, bind_ok_iff]
    exact ⟨(first, next), Seen.check_kept hfirst, others, ih hothers, rfl⟩

/-- A specification: checks that `EvidenceSpec::new` lets through as they are. -/
structure EvidenceSpec where
  checks : List EvidenceCheck
  accepted : Seen.checks {} checks = .ok checks

namespace EvidenceSpec

def new (checks : List EvidenceCheck) : Except EvidenceError EvidenceSpec :=
  match h : Seen.checks {} checks with
  | .ok kept => .ok ⟨kept, Seen.checks_kept h⟩
  | .error error => .error error

def artifactPaths (spec : EvidenceSpec) : List PathBuf :=
  spec.checks.filterMap fun
    | .artifact path => some path
    | _ => none

def storePaths (spec : EvidenceSpec) : List PathBuf :=
  spec.checks.filterMap fun
    | .store path => some path
    | _ => none

def expectedExit (spec : EvidenceSpec) : Int :=
  (spec.checks.findSome? fun
    | .exit code => some code
    | _ => none).getD 0

/-- The declared hash of the first check of that kind, if there is one. -/
def hashCheck (spec : EvidenceSpec) : Option (Option String) :=
  spec.checks.findSome? fun
    | .hashSha256 expected => some expected
    | _ => none

end EvidenceSpec

end Tally.Evidence
