import Mathlib.Data.String.Basic
import Mathlib.Data.List.Sort
import Tally.Lib.Lines

/-!
# Pool sets

The canonical form of the pool list of a request (`poolset.rs`): not empty, every name readable, no
name twice, sorted. `Canonical` is what `canonicalize` establishes, and the lease engine only ever
sees canonical lists.
-/

namespace Tally

open Tally.Lib

/-- Unicode category `Cc`, as `char::is_control`. -/
def isControl (c : Char) : Bool :=
  let n := c.toNat
  n ≤ 0x1F || (0x7F ≤ n && n ≤ 0x9F)

/-- `value.trim().is_empty()`. -/
def isBlank (value : String) : Bool := value.toList.all isWhitespace

namespace Poolset

inductive PoolSetError
  | empty
  | duplicate (pool : String)
  | invalidName (pool : String)
  deriving DecidableEq, Repr

def PoolSetError.message : PoolSetError → String
  | .empty => "pool set must contain at least one pool"
  | .duplicate pool => "pool set contains duplicate pool " ++ debugText pool
  | .invalidName pool =>
    "pool name " ++ debugText pool ++ " must be non-empty and contain no control characters"

/-- The first problem of a list, in list order; `seen` are the names before it. -/
def findError (seen : List String) : List String → Option PoolSetError
  | [] => none
  | pool :: rest =>
    if isBlank pool || pool.toList.any isControl then some (.invalidName pool)
    else if pool ∈ seen then some (.duplicate pool)
    else findError (pool :: seen) rest

def canonicalize (pools : List String) : Except PoolSetError (List String) :=
  if pools.isEmpty then .error .empty
  else match findError [] pools with
    | some error => .error error
    | none => .ok (pools.insertionSort (· ≤ ·))

/-- The lists that `canonicalize` returns. -/
structure Canonical (pools : List String) : Prop where
  ne_nil : pools ≠ []
  nodup : pools.Nodup
  sorted : pools.Pairwise (· ≤ ·)
  named : ∀ pool ∈ pools, isBlank pool = false ∧ pool.toList.any isControl = false

theorem findError_none {seen pools : List String} (h : findError seen pools = none) :
    pools.Nodup ∧ (∀ pool ∈ pools, pool ∉ seen) ∧
      ∀ pool ∈ pools, isBlank pool = false ∧ pool.toList.any isControl = false := by
  induction pools generalizing seen with
  | nil => simp
  | cons pool rest ih =>
    rw [findError] at h
    split at h
    · cases h
    · next hname =>
      split at h
      · cases h
      · next hseen =>
        obtain ⟨hnodup, hfresh, hnames⟩ := ih h
        have hpool : pool ∉ rest := fun hmem => hfresh pool hmem List.mem_cons_self
        refine ⟨List.nodup_cons.mpr ⟨hpool, hnodup⟩, ?_, ?_⟩
        · rintro q (_ | ⟨_, hq⟩)
          · exact hseen
          · exact fun hqs => hfresh q hq (List.mem_cons_of_mem _ hqs)
        · rintro q (_ | ⟨_, hq⟩)
          · simpa [Bool.or_eq_true, not_or] using hname
          · exact hnames q hq

theorem findError_eq_none {seen pools : List String} (hnodup : pools.Nodup)
    (hfresh : ∀ pool ∈ pools, pool ∉ seen)
    (hnames : ∀ pool ∈ pools, isBlank pool = false ∧ pool.toList.any isControl = false) :
    findError seen pools = none := by
  induction pools generalizing seen with
  | nil => rfl
  | cons pool rest ih =>
    obtain ⟨hblank, hcontrol⟩ := hnames pool List.mem_cons_self
    obtain ⟨hpool, hrest⟩ := List.nodup_cons.mp hnodup
    rw [findError, if_neg (by simp [hblank, hcontrol]), if_neg (hfresh pool List.mem_cons_self)]
    refine ih hrest ?_ fun q hq => hnames q (List.mem_cons_of_mem _ hq)
    rintro q hq (_ | ⟨_, hqs⟩)
    · exact hpool hq
    · exact hfresh q (List.mem_cons_of_mem _ hq) hqs

theorem canonicalize_canonical {pools canonical : List String}
    (h : canonicalize pools = .ok canonical) : Canonical canonical ∧ canonical.Perm pools := by
  rw [canonicalize] at h
  split at h
  · cases h
  · next hne =>
    split at h
    · cases h
    · next hfind =>
      cases h
      obtain ⟨hnodup, _, hnames⟩ := findError_none hfind
      have hperm := List.perm_insertionSort (· ≤ ·) pools
      refine ⟨⟨fun hnil => hne ?_, hperm.nodup_iff.mpr hnodup, List.pairwise_insertionSort _ _,
        fun pool hpool => hnames pool (hperm.mem_iff.mp hpool)⟩, hperm⟩
      rw [hnil] at hperm
      simp [hperm.nil_eq]

/-- `canonicalize` finds the canonical list from any permutation of it. -/
theorem Canonical.canonicalize_perm {pools canonical : List String} (h : Canonical canonical)
    (hperm : pools.Perm canonical) : canonicalize pools = .ok canonical := by
  have hne : ¬ pools.isEmpty := by
    rw [List.isEmpty_iff]
    rintro rfl
    exact h.ne_nil hperm.nil_eq.symm
  have hsort : pools.insertionSort (· ≤ ·) = canonical :=
    ((List.perm_insertionSort _ pools).trans hperm).eq_of_pairwise'
      (List.pairwise_insertionSort _ pools) h.sorted
  rw [canonicalize, if_neg hne, findError_eq_none (hperm.nodup_iff.mpr h.nodup)
    (fun _ _ => List.not_mem_nil) (fun pool hpool => h.named pool (hperm.mem_iff.mp hpool)), hsort]

end Poolset

end Tally
