import Tally.Lib.Decode
import Tally.Lib.JsonStrings
import Mathlib.Data.List.TakeWhile

/-!
# The grammar of JSON numbers

The lexemes that are numbers in a JSON text, and the signed numbers among them.
-/

namespace Tally.Lib

/-! ## The grammar -/

def isExponentPart : List Char → Bool
  | [] => true
  | e :: rest =>
    let digits := if rest.head? = some '+' ∨ rest.head? = some '-' then rest.tail else rest
    (e == 'e' || e == 'E') && !digits.isEmpty && digits.all Char.isDigit

def isFractionPart (text : List Char) : Bool :=
  if text.head? = some '.' then
    let digits := text.tail
    digits.head?.any Char.isDigit && isExponentPart (digits.dropWhile Char.isDigit)
  else isExponentPart text

/-- A zero is the only digit before the fraction that it starts. -/
def isUnsigned : List Char → Bool
  | [] => false
  | first :: rest =>
    if first = '0' then isFractionPart rest
    else first.isDigit && isFractionPart (rest.dropWhile Char.isDigit)

def isJsonNumber (text : List Char) : Bool :=
  isUnsigned (if text.head? = some '-' then text.tail else text)

theorem isNumberChar_of_isDigit {c : Char} (h : c.isDigit = true) : isNumberChar c = true := by
  simp [isNumberChar, h]

theorem all_isNumberChar_of_dropWhile {text : List Char}
    (h : (text.dropWhile Char.isDigit).all isNumberChar = true) : text.all isNumberChar = true := by
  induction text with
  | nil => rfl
  | cons c text ih =>
    rw [List.dropWhile_cons] at h
    split at h
    · next hdigit =>
      rw [List.all_cons, isNumberChar_of_isDigit hdigit, ih h, Bool.and_true]
    · exact h

theorem isNumberChar_exponentPart {text : List Char} (h : isExponentPart text = true) :
    text.all isNumberChar = true := by
  cases text with
  | nil => rfl
  | cons e rest =>
    simp only [isExponentPart, Bool.and_eq_true, Bool.or_eq_true, beq_iff_eq] at h
    obtain ⟨⟨he, -⟩, hdigits⟩ := h
    rw [List.all_cons, Bool.and_eq_true]
    constructor
    · rcases he with rfl | rfl <;> rfl
    · cases rest with
      | nil => rfl
      | cons sign digits =>
        simp only [List.head?_cons, Option.some.injEq, List.tail_cons] at hdigits
        split at hdigits
        · next hsign =>
          rw [List.all_cons, Bool.and_eq_true]
          constructor
          · rcases hsign with rfl | rfl <;> rfl
          · rw [List.all_eq_true] at hdigits ⊢
            exact fun c hc => isNumberChar_of_isDigit (hdigits c hc)
        · rw [List.all_eq_true] at hdigits ⊢
          exact fun c hc => isNumberChar_of_isDigit (hdigits c hc)

theorem isNumberChar_fractionPart {text : List Char} (h : isFractionPart text = true) :
    text.all isNumberChar = true := by
  unfold isFractionPart at h
  split at h
  · next hpoint =>
    cases text with
    | nil => cases hpoint
    | cons point digits =>
      cases hpoint
      rw [Bool.and_eq_true] at h
      rw [List.all_cons]
      exact all_isNumberChar_of_dropWhile (isNumberChar_exponentPart h.2)
  · exact isNumberChar_exponentPart h

/-- Numbers of the grammar are told from other text by their characters. -/
theorem isNumeric_of_isUnsigned {text : List Char} (h : isUnsigned text = true) :
    isNumeric text = true := by
  cases text with
  | nil => cases h
  | cons first rest =>
    rw [isUnsigned] at h
    rw [isNumeric, Bool.and_eq_true, Bool.or_eq_true]
    split at h
    · next hzero =>
      rw [hzero]
      exact ⟨.inl rfl, isNumberChar_fractionPart h⟩
    · rw [Bool.and_eq_true] at h
      exact ⟨.inl h.1, all_isNumberChar_of_dropWhile (isNumberChar_fractionPart h.2)⟩

theorem isNumeric_of_isJsonNumber {text : List Char} (h : isJsonNumber text = true) :
    isNumeric text = true := by
  unfold isJsonNumber at h
  split at h
  · next hsign =>
    cases text with
    | nil => cases hsign
    | cons sign rest =>
      cases hsign
      have hrest := isNumeric_of_isUnsigned h
      rw [List.tail_cons] at hrest
      cases rest with
      | nil => cases hrest
      | cons first rest =>
        rw [isNumeric, Bool.and_eq_true, Bool.or_eq_true] at hrest
        have hfirst : isNumberChar first = true := by
          rcases hrest.1 with hdigit | hsign
          · exact isNumberChar_of_isDigit hdigit
          · rw [beq_iff_eq.mp hsign]
            rfl
        rw [isNumeric, Bool.and_eq_true, List.all_cons, hfirst]
        exact ⟨rfl, hrest.2⟩
  · exact isNumeric_of_isUnsigned h

/-- `str::parse::<serde_json::Number>`: a negative zero is an integer, and no other than zero. -/
def parseNumber (text : List Char) : Option Number :=
  if text = ['-', '0'] then some (.ofNat 0)
  else if h : isJsonNumber text = true then some ⟨text, isNumeric_of_isJsonNumber h⟩ else none

theorem parseNumber_chars {n : Number} (h : isJsonNumber n.chars = true) (hzero : n.chars ≠ ['-', '0']) :
    parseNumber n.chars = some n := by
  rw [parseNumber, if_neg hzero, dif_pos h]

/-! ## Whole numbers -/

theorem head_toDigits {n : Nat} (h : n ≠ 0) : (Nat.toDigits 10 n).head? ≠ some '0' := by
  induction n using Nat.strongRecOn with
  | ind n ih =>
    rcases Nat.lt_or_ge n 10 with hlt | hge
    · rw [Nat.toDigits_of_lt_base hlt]
      intro hhead
      exact h (Nat.digitChar_eq_zero.mp (Option.some.inj hhead))
    · rw [Nat.toDigits_of_base_le (by decide) hge, List.head?_append]
      have hrest := ih (n / 10) (by omega) (by omega)
      cases hhead : (Nat.toDigits 10 (n / 10)).head? with
      | none =>
        rw [List.head?_eq_none_iff] at hhead
        exact absurd hhead Nat.toDigits_ne_nil
      | some c =>
        rw [hhead] at hrest
        exact hrest

theorem isUnsigned_toDigits (n : Nat) : isUnsigned (Nat.toDigits 10 n) = true := by
  rcases Nat.eq_zero_or_pos n with rfl | hpos
  · rfl
  · have hhead := head_toDigits (Nat.ne_of_gt hpos)
    have hdigits : ∀ c ∈ Nat.toDigits 10 n, c.isDigit = true := fun c hc =>
      Nat.isDigit_of_mem_toDigits (by decide) le_rfl hc
    cases hchars : Nat.toDigits 10 n with
    | nil => exact absurd hchars Nat.toDigits_ne_nil
    | cons first rest =>
      rw [hchars] at hhead hdigits
      have hfirst : first ≠ '0' := fun h => hhead (congrArg some h)
      have hrest : rest.dropWhile Char.isDigit = [] :=
        List.dropWhile_eq_nil_iff.mpr fun c hc => hdigits c (List.mem_cons_of_mem _ hc)
      rw [isUnsigned, if_neg hfirst, hrest, hdigits first List.mem_cons_self]
      rfl

theorem isDigit_toDigits (n : Nat) : (Nat.toDigits 10 n).all Char.isDigit = true :=
  List.all_eq_true.mpr fun _ hc => Nat.isDigit_of_mem_toDigits (by decide) le_rfl hc

theorem head_toDigits_ne_sign (n : Nat) : (Nat.toDigits 10 n).head? ≠ some '-' := by
  intro hhead
  have hdigit := List.all_eq_true.mp (isDigit_toDigits n) _ (List.mem_of_head? hhead)
  exact absurd hdigit (by decide)

theorem isJsonNumber_ofNat (n : Nat) : isJsonNumber (Number.ofNat n).chars = true := by
  rw [isJsonNumber, Number.ofNat, if_neg (head_toDigits_ne_sign n)]
  exact isUnsigned_toDigits n

theorem isJsonNumber_ofInt (i : Int) : isJsonNumber (Number.ofInt i).chars = true := by
  cases i with
  | ofNat n => exact isJsonNumber_ofNat n
  | negSucc n =>
    rw [isJsonNumber, Number.ofInt, List.head?_cons, if_pos rfl]
    exact isUnsigned_toDigits (n + 1)

/-- `str::parse::<i32>` of the lexeme of a number, which never begins with a plus sign. -/
def Number.asI32 (n : Number) : Option Int :=
  if n.chars.head? = some '-' then
    let digits := n.chars.tail
    let value := Nat.ofDigitChars 10 digits 0
    if !digits.isEmpty ∧ digits.all Char.isDigit ∧ value ≤ 2 ^ 31 then some (-(value : Int)) else none
  else
    let value := Nat.ofDigitChars 10 n.chars 0
    if n.chars.all Char.isDigit ∧ value < 2 ^ 31 then some (value : Int) else none

theorem Number.asI32_ofInt {i : Int} (hlow : -2 ^ 31 ≤ i) (hhigh : i < 2 ^ 31) :
    (ofInt i).asI32 = some i := by
  cases i with
  | ofNat n =>
    have hlt : n < 2 ^ 31 := by
      rw [Int.ofNat_eq_natCast] at hhigh
      omega
    rw [asI32, ofInt, ofNat, if_neg (head_toDigits_ne_sign n), Nat.ofDigitChars_ten_toDigits,
      if_pos ⟨isDigit_toDigits n, hlt⟩]
    rfl
  | negSucc n =>
    have hle : n + 1 ≤ 2 ^ 31 := by
      rw [Int.negSucc_eq] at hlow
      omega
    have hne : (Nat.toDigits 10 (n + 1)).isEmpty = false := by
      rw [List.isEmpty_eq_false_iff]
      exact Nat.toDigits_ne_nil
    rw [asI32, ofInt, List.head?_cons, if_pos rfl, List.tail_cons]
    simp only [Nat.ofDigitChars_ten_toDigits, hne, isDigit_toDigits, hle, Bool.not_false, and_self,
      if_true]
    rw [Int.negSucc_eq]
    rfl

/-! ## Decoders -/

namespace Decode

def i32 : Value → Except String Int
  | .number n => orError n.asI32 "invalid value: expected i32"
  | _ => .error "invalid type: expected i32"

def flag : Value → Except String Bool
  | .bool b => .ok b
  | _ => .error "invalid type: expected a boolean"

/-- The name of a variant without content. -/
def variantName : Value → Except String String
  | .string name => .ok name
  | .object [(name, .null)] => .ok name
  | _ => .error "invalid type: expected an enum"

def variant {α : Type} (variants : List α) (name : α → String) (value : Value) : Except String α := do
  let text ← variantName value
  orError (variants.find? fun candidate => name candidate = text) ("unknown variant `" ++ text ++ "`")

theorem i32_ofInt {i : Int} (hlow : -2 ^ 31 ≤ i) (hhigh : i < 2 ^ 31) :
    i32 (.number (.ofInt i)) = .ok i := by
  rw [i32, Number.asI32_ofInt hlow hhigh]
  rfl

/-- Variants with different names are read back. -/
theorem variant_name {α : Type} {variants : List α} {name : α → String}
    (hnames : (variants.map name).Nodup) {a : α} (h : a ∈ variants) :
    variant variants name (.string (name a)) = .ok a := by
  have hfind : variants.find? (fun candidate => name candidate = name a) = some a := by
    induction variants with
    | nil => cases h
    | cons first rest ih =>
      rw [List.map_cons, List.nodup_cons] at hnames
      rw [List.find?_cons]
      rcases List.mem_cons.mp h with rfl | hrest
      · rw [decide_eq_true rfl]
      · have hne : name first ≠ name a := fun hsame =>
          hnames.1 (hsame ▸ List.mem_map_of_mem hrest)
        rw [decide_eq_false hne]
        exact ih hnames.2 hrest
  show orError (variants.find? fun candidate => name candidate = name a) _ = _
  rw [hfind]
  rfl

end Decode

end Tally.Lib
