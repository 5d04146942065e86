import Tally.Lib.Json

/-!
# Numbers of a fixed width

Sixty-four bit numbers, their sums that stop at the largest one, and their decimal text of twenty
digits, which is read back (`parseU64_pad`).
-/

namespace Tally.Lib

/-- `usize::MAX`. -/
def usizeMax : Nat := u64Max

def saturatingAdd (a b : Nat) : Nat := min (a + b) usizeMax

/-- A number of twenty digits. -/
def pad (n : Nat) : List Char :=
  List.replicate (20 - (Nat.toDigits 10 n).length) '0' ++ Nat.toDigits 10 n

/-- `str::parse::<u64>`. -/
def parseU64 (text : List Char) : Option Nat :=
  let digits := if text.head? = some '+' then text.tail else text
  if digits ≠ [] ∧ digits.all Char.isDigit then
    let value := Nat.ofDigitChars 10 digits 0
    if value ≤ u64Max then some value else none
  else none

theorem isDigit_of_mem_pad {n : Nat} {c : Char} (h : c ∈ pad n) : c.isDigit = true := by
  rcases List.mem_append.mp h with hzero | hdigit
  · rw [(List.mem_replicate.mp hzero).2]
    rfl
  · exact Nat.isDigit_of_mem_toDigits (by decide) le_rfl hdigit

theorem length_pad {n : Nat} (h : n ≤ u64Max) : (pad n).length = 20 := by
  have hdigits : (Nat.toDigits 10 n).length ≤ 20 := by
    rw [Nat.length_toDigits_le_iff (by decide) (by decide)]
    exact Nat.lt_of_le_of_lt h (by decide)
  rw [pad, List.length_append, List.length_replicate]
  omega

theorem parseU64_pad {n : Nat} (h : n ≤ u64Max) : parseU64 (pad n) = some n := by
  have hlength := length_pad h
  have hhead : (pad n).head? ≠ some '+' := by
    intro hplus
    have hdigit := isDigit_of_mem_pad (List.mem_of_head? hplus)
    exact absurd hdigit (by decide)
  have hne : pad n ≠ [] := by
    intro hnil
    rw [hnil] at hlength
    cases hlength
  have hall : (pad n).all Char.isDigit = true := List.all_eq_true.mpr fun c hc => isDigit_of_mem_pad hc
  have hvalue : Nat.ofDigitChars 10 (pad n) 0 = n := by
    rw [pad, Nat.ofDigitChars_append, Nat.ofDigitChars_replicate_zero, Nat.mul_zero,
      Nat.ofDigitChars_ten_toDigits]
  unfold parseU64
  simp only [if_neg hhead, hvalue, hall, hne, ne_eq, not_false_eq_true, and_self, if_true, h]

theorem not_mem_pad {n : Nat} {c : Char} (h : c.isDigit = false) : c ∉ pad n := by
  intro hmem
  rw [isDigit_of_mem_pad hmem] at h
  cases h

/-! ## Cursors -/

/-- A name and a number of twenty digits. -/
def numberCursor (name : List Char) (n : Nat) : String := String.ofList (name ++ pad n)

/-- `strip_prefix` and `parse`. -/
def parseNumberCursor (name : List Char) (cursor : String) : Option Nat :=
  if name.isPrefixOf cursor.toList then parseU64 (cursor.toList.drop name.length) else none

theorem parseNumberCursor_numberCursor (name : List Char) {n : Nat} (h : n ≤ u64Max) :
    parseNumberCursor name (numberCursor name n) = some n := by
  have hpre : name.isPrefixOf (name ++ pad n) = true :=
    List.isPrefixOf_iff_prefix.mpr (List.prefix_append ..)
  rw [parseNumberCursor, numberCursor, String.toList_ofList, if_pos hpre, List.drop_left,
    parseU64_pad h]

end Tally.Lib
