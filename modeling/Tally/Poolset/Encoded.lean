import Tally.Lib.JsonStrings
import Tally.Poolset

/-!
# The text of a pool set

A pool set in one string (`poolset.rs`): a single pool is its name, several pools are the text of a
JSON array, and the reader tells the two apart by the first character. A single name that begins
with a bracket is therefore read as an array.
-/

namespace Tally.Poolset

open Tally.Lib

def encoded : List String → String
  | [pool] => pool
  | pools => String.ofList (renderStrings pools)

def decoded [StringsText] (value : String) : Except String (List String) :=
  if value.toList.head? = some '[' then StringsText.read value.toList else .ok [value]

/-- A single pool whose name would be read as an array. -/
def isBracketed : List String → Bool
  | [pool] => pool.toList.head? == some '['
  | _ => false

theorem encoded_of_length_ne {pools : List String} (h : pools.length ≠ 1) :
    encoded pools = String.ofList (renderStrings pools) := by
  unfold encoded
  split
  · exact absurd rfl h
  · rfl

section Reader

variable [StringsText]

theorem decoded_renderStrings (pools : List String) :
    decoded (String.ofList (renderStrings pools)) = .ok pools := by
  rw [decoded, String.toList_ofList, if_pos (head_renderStrings pools), StringsText.read_renderStrings]

theorem decoded_encoded {pools : List String} (h : isBracketed pools = false) :
    decoded (encoded pools) = .ok pools := by
  by_cases hone : pools.length = 1
  · obtain ⟨pool, rfl⟩ := List.length_eq_one_iff.mp hone
    have hhead : ¬ pool.toList.head? = some '[' := by
      simpa [isBracketed] using h
    rw [encoded, decoded, if_neg hhead]
  · rw [encoded_of_length_ne hone, decoded_renderStrings]

/-- What is read from a bracketed name is another list: its strings are shorter than the name. -/
theorem decoded_encoded_ne {pools : List String} (h : isBracketed pools = true) :
    decoded (encoded pools) ≠ .ok pools := by
  unfold isBracketed at h
  split at h
  · next pool =>
    intro hread
    rw [encoded, decoded, if_pos (by simpa using h)] at hread
    have hlen := StringsText.length_lt hread pool (List.mem_singleton.mpr rfl)
    exact Nat.lt_irrefl _ hlen
  · cases h

theorem decoded_encoded_iff {pools : List String} :
    decoded (encoded pools) = .ok pools ↔ isBracketed pools = false := by
  refine ⟨fun hread => ?_, decoded_encoded⟩
  rw [← Bool.not_eq_true]
  exact fun h => decoded_encoded_ne h hread

/-- The encoding of pool sets is read back, and told apart from that of another set, for exactly the
sets that are not a single bracketed name. That the sets are canonical is not needed. -/
theorem encoded_faithful_iff (pools others : List String) :
    (decoded (encoded pools) = .ok pools ∧ decoded (encoded others) = .ok others ∧
        (encoded pools = encoded others → pools = others)) ↔
      isBracketed pools = false ∧ isBracketed others = false := by
  rw [decoded_encoded_iff, decoded_encoded_iff]
  refine ⟨fun h => ⟨h.1, h.2.1⟩, fun h => ⟨h.1, h.2, fun hsame => ?_⟩⟩
  have hread := decoded_encoded h.1
  rw [hsame, decoded_encoded h.2] at hread
  cases hread
  rfl

end Reader

/-! ## Two sets -/

local instance : StringsText := scanningReader

/-- The names of pools with a quotation mark, a line feed and a bracket that is not the first character. -/
theorem encoded_faithful_quoted :
    decoded (encoded ["g[pu"]) = .ok ["g[pu"] ∧
      decoded (encoded ["[a\x22", "z\n"]) = .ok ["[a\x22", "z\n"] ∧
      (encoded ["g[pu"] = encoded ["[a\x22", "z\n"] → ["g[pu"] = ["[a\x22", "z\n"]) :=
  (encoded_faithful_iff ["g[pu"] ["[a\x22", "z\n"]).mpr ⟨by decide, by decide⟩

/-- The name of one pool and the text of two. -/
theorem encoded_bracketed_shared :
    canonicalize ["[gpu"] = .ok ["[gpu"] ∧ decoded (encoded ["[gpu"]) ≠ .ok ["[gpu"] ∧
      canonicalize ["[\x22a\x22,\x22b\x22]"] = .ok ["[\x22a\x22,\x22b\x22]"] ∧
      canonicalize ["a", "b"] = .ok ["a", "b"] ∧
      encoded ["[\x22a\x22,\x22b\x22]"] = encoded ["a", "b"] := by
  refine ⟨by decide +kernel, ?_, by decide +kernel, by decide +kernel, by decide +kernel⟩
  exact decoded_encoded_ne (by decide)

end Tally.Poolset
