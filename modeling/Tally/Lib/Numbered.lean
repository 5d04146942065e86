import Mathlib.Data.List.Basic
import Mathlib.Data.List.Infix

/-!
# Numbered records

Records that carry consecutive numbers. The records after a number are the ones behind a place
(`Numbered.filter_gt`), and what is kept of a list when it may hold only so many records are the newest
ones (`newest`).
-/

namespace Tally.Lib

variable {R : Type} {number : R → Nat} {first : Nat} {records : List R} {record : R}

/-- The numbers of the records are consecutive, from the first one on. -/
def Numbered (number : R → Nat) (first : Nat) (records : List R) : Prop :=
  ∀ (i : Nat) (record : R), records[i]? = some record → number record = first + i

namespace Numbered

theorem nil : Numbered number first [] := nofun

theorem concat (h : Numbered number first records) (hrecord : number record = first + records.length) :
    Numbered number first (records ++ [record]) := by
  intro i other hother
  rw [List.getElem?_append] at hother
  split at hother
  · exact h i other hother
  · next hlt =>
    obtain ⟨hi, rfl⟩ : i - records.length = 0 ∧ record = other := by
      simpa [List.getElem?_singleton] using hother
    rw [hrecord]
    omega

theorem drop (h : Numbered number first records) (k : Nat) :
    Numbered number (first + k) (records.drop k) := by
  intro i record hrecord
  rw [List.getElem?_drop] at hrecord
  rw [h _ record hrecord]
  omega

theorem take (h : Numbered number first records) (k : Nat) : Numbered number first (records.take k) := by
  intro i record hrecord
  rw [List.getElem?_take] at hrecord
  split at hrecord
  · exact h i record hrecord
  · cases hrecord

theorem of_cons (h : Numbered number first (record :: records)) :
    number record = first ∧ Numbered number (first + 1) records :=
  ⟨h 0 record rfl, h.drop 1⟩

theorem getLast (h : Numbered number first records) (hlast : records.getLast? = some record) :
    number record + 1 = first + records.length := by
  rw [List.getLast?_eq_getElem?] at hlast
  have hlt := (List.getElem?_eq_some_iff.mp hlast).1
  rw [h _ record hlast]
  omega

/-- The records after a number. -/
theorem filter_gt (h : Numbered number first records) (n : Nat) :
    records.filter (fun record => n < number record) = records.drop (n + 1 - first) := by
  induction records generalizing first with
  | nil => simp
  | cons record records ih =>
    obtain ⟨hrecord, hrest⟩ := h.of_cons
    rw [List.filter_cons, ih hrest]
    by_cases hlt : n < number record
    · have hzero : n + 1 - first = 0 := by omega
      have hzero' : n + 1 - (first + 1) = 0 := by omega
      simp [hlt, hzero, hzero']
    · have hsucc : n + 1 - first = n + 1 - (first + 1) + 1 := by omega
      simp [hlt, hsucc]

/-- The records up to a number. -/
theorem filter_le (h : Numbered number first records) (n : Nat) :
    records.filter (fun record => number record ≤ n) = records.take (n + 1 - first) := by
  induction records generalizing first with
  | nil => simp
  | cons record records ih =>
    obtain ⟨hrecord, hrest⟩ := h.of_cons
    rw [List.filter_cons, ih hrest]
    by_cases hle : number record ≤ n
    · have hsucc : n + 1 - first = n + 1 - (first + 1) + 1 := by omega
      simp [hle, hsucc]
    · have hzero : n + 1 - first = 0 := by omega
      have hzero' : n + 1 - (first + 1) = 0 := by omega
      simp [hle, hzero, hzero']

end Numbered

/-! ## The newest records -/

/-- The last `n` records. -/
def newest (n : Nat) (records : List R) : List R := records.drop (records.length - n)

theorem length_newest (n : Nat) (records : List R) :
    (newest n records).length = min n records.length := by
  rw [newest, List.length_drop]
  omega

theorem newest_of_length_le {n : Nat} (h : records.length ≤ n) : newest n records = records := by
  rw [newest, Nat.sub_eq_zero_of_le h, List.drop_zero]

/-- What is newest of a later part, as far as that has so many records or is all. -/
theorem newest_drop {n k : Nat} (h : k ≤ records.length - n) :
    newest n (records.drop k) = newest n records := by
  rw [newest, newest, List.drop_drop, List.length_drop]
  congr 1
  omega

/-- A record is added, and the oldest one goes if there are too many. -/
theorem newest_concat (n : Nat) (records : List R) (record : R) :
    newest n (records ++ [record]) =
      if (newest n records ++ [record]).length > n then (newest n records ++ [record]).drop 1
      else newest n records ++ [record] := by
  have hlength := length_newest n records
  rw [List.length_append, List.length_singleton, hlength]
  have hdrop : ∀ k ≤ records.length, (records ++ [record]).drop k = records.drop k ++ [record] :=
    fun k hk => List.drop_append_of_le_length hk
  split
  · next hfull =>
    have hfar : records.length + 1 - n = records.length - n + 1 := by omega
    rw [newest, List.length_append, List.length_singleton, hfar, newest, ← hdrop _ (Nat.sub_le ..),
      List.drop_drop]
  · next hroom =>
    have hall : records.length ≤ n := by omega
    rw [newest_of_length_le hall, newest_of_length_le]
    rw [List.length_append, List.length_singleton]
    omega

end Tally.Lib
