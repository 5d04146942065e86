import Mathlib.Data.List.Basic
import Tally.Lib.Dict

/-!
# An index over a growing list

The positions of the records with a key, kept in a table while records are appended. What the table
leads to is what a filter over the whole list finds (`Indexes.lookup`), and where the records have
increasing numbers the last match is the greatest one (`greatest_newest`).
-/

namespace Tally.Lib

variable {R K : Type} [DecidableEq K]

/-- Note the position of a record under its key. -/
def note (key : R → Option K) (table : Dict K (List Nat)) (record : R) (position : Nat) : Dict K (List Nat) :=
  match key record with
  | none => table
  | some k => table.insert k ((table.get? k).getD [] ++ [position])

/-- The records at the positions under a key. -/
def lookup (table : Dict K (List Nat)) (records : List R) (k : K) : List R :=
  ((table.get? k).getD []).filterMap (records[·]?)

/-- The positions in the table are in the list, and lead to the records with the key, in their order. -/
structure Indexes (key : R → Option K) (table : Dict K (List Nat)) (records : List R) : Prop where
  bounded : ∀ k, ∀ position ∈ (table.get? k).getD [], position < records.length
  lookup : ∀ k, lookup table records k = records.filter fun record => key record = some k

namespace Indexes

variable {key : R → Option K} {table : Dict K (List Nat)} {records : List R}

theorem empty : Indexes key ∅ [] where
  bounded _ _ h := (nomatch h)
  lookup _ := rfl

/-- Old positions lead to where they have led before. -/
theorem lookup_append (h : Indexes key table records) (more : List R) (k : K) :
    Lib.lookup table (records ++ more) k = records.filter fun record => key record = some k := by
  rw [← h.lookup k, Lib.lookup, Lib.lookup]
  refine List.filterMap_congr fun position hposition => ?_
  exact List.getElem?_append_left (h.bounded k position hposition)

theorem concat (h : Indexes key table records) (record : R) :
    Indexes key (note key table record records.length) (records ++ [record]) := by
  rw [note]
  cases hkey : key record with
  | none =>
    refine ⟨fun k position hposition => ?_, fun k => ?_⟩
    · rw [List.length_append]
      exact Nat.lt_add_right _ (h.bounded k position hposition)
    · rw [h.lookup_append, List.filter_append, List.filter_cons_of_neg (by simp [hkey]), List.filter_nil,
        List.append_nil]
  | some own =>
    have hget : ∀ k, ((table.insert own ((table.get? own).getD [] ++ [records.length])).get? k).getD [] =
        (table.get? k).getD [] ++ if k = own then [records.length] else [] := by
      intro k
      rw [Dict.get?_insert]
      split
      · next heq => rw [heq, Option.getD_some]
      · rw [List.append_nil]
    refine ⟨fun k position hposition => ?_, fun k => ?_⟩
    · rw [hget, List.mem_append] at hposition
      rw [List.length_append, List.length_singleton]
      rcases hposition with hposition | hposition
      · exact Nat.lt_succ_of_lt (h.bounded k position hposition)
      · split at hposition
        · rw [List.mem_singleton] at hposition
          omega
        · cases hposition
    · have hold := h.lookup_append [record] k
      rw [Lib.lookup] at hold ⊢
      rw [hget, List.filterMap_append, hold, List.filter_append]
      congr 1
      split
      · next heq =>
        rw [List.filter_cons_of_pos (by simp [hkey, heq])]
        simp
      · next hne =>
        rw [List.filter_cons_of_neg (by simpa [hkey] using Ne.symm hne)]
        rfl

end Indexes

/-! ## The greatest match -/

/-- What a scan for the match with the greatest number finds. -/
def Greatest (number : R → Nat) (p : R → Bool) (records : List R) : Option R → Prop
  | none => ∀ record ∈ records, p record = false
  | some found => found ∈ records ∧ p found = true ∧
    ∀ record ∈ records, p record = true → number record ≤ number found

omit [DecidableEq K] in
/-- The newest match is the greatest where numbers increase. -/
theorem greatest_newest {number : R → Nat} {records : List R}
    (h : (records.map number).Pairwise (· < ·)) (p q : R → Bool) :
    Greatest number (fun record => p record && q record) records ((records.filter p).reverse.find? q) := by
  cases hfind : (records.filter p).reverse.find? q with
  | none =>
    intro record hrecord
    rw [List.find?_eq_none] at hfind
    by_contra hboth
    rw [Bool.not_eq_false, Bool.and_eq_true] at hboth
    exact hfind record (List.mem_reverse.mpr (List.mem_filter.mpr ⟨hrecord, hboth.1⟩)) hboth.2
  | some found =>
    obtain ⟨hq, later, earlier, hsplit, hlater⟩ := List.find?_eq_some_iff_append.mp hfind
    have hmem : found ∈ records.filter p := by
      rw [← List.mem_reverse, hsplit]
      exact List.mem_append_right _ List.mem_cons_self
    obtain ⟨hfound, hp⟩ := List.mem_filter.mp hmem
    refine ⟨hfound, Bool.and_eq_true_iff.mpr ⟨hp, hq⟩, fun record hrecord hboth => ?_⟩
    rw [Bool.and_eq_true] at hboth
    have hmatch : record ∈ (records.filter p).reverse :=
      List.mem_reverse.mpr (List.mem_filter.mpr ⟨hrecord, hboth.1⟩)
    have hsorted : ((records.filter p).reverse).Pairwise fun a b => number b < number a := by
      rw [List.pairwise_reverse]
      exact (List.pairwise_map.mp h).sublist List.filter_sublist
    rw [hsplit] at hmatch hsorted
    rcases List.mem_append.mp hmatch with hmatch | hmatch
    · exact absurd hboth.2 (by simpa using hlater record hmatch)
    · rcases List.mem_cons.mp hmatch with rfl | hmatch
      · exact le_rfl
      · exact ((List.pairwise_cons.mp (List.pairwise_append.mp hsorted).2.1).1 record hmatch).le

end Tally.Lib
