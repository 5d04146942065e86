import Tally.Lib.Json
import Tally.Lib.Lines
import Mathlib.Algebra.Order.BigOperators.Group.List
import Mathlib.Algebra.Order.Group.Nat

/-!
# The size of compact text

The bytes of a value are the bytes of its parts: a member of an object that is set again changes the
size of the object by the difference of the two values (`fieldsSize_insert`).
-/

namespace Tally.Lib

/-- `serde_json::to_vec(value).len()`. -/
def size (value : Value) : Nat := (encode (render value)).length

/-- The items of an array, each with a separator. -/
def itemsSize (items : List Value) : Nat := (items.map fun item => size item + 1).sum

/-- A member of an object, with its separators. -/
def memberSize (key : String) (value : Value) : Nat :=
  (encode (renderString key)).length + size value + 2

def fieldsSize (fields : Fields) : Nat := (fields.map fun (key, value) => memberSize key value).sum

/-- The size of the member with the key, if there is one. -/
def sizeAt (fields : Fields) (key : String) : Nat := (fields.get? key).elim 0 (memberSize key)

@[simp] theorem itemsSize_nil : itemsSize [] = 0 := rfl

@[simp] theorem itemsSize_cons (item : Value) (items : List Value) :
    itemsSize (item :: items) = size item + 1 + itemsSize items := rfl

@[simp] theorem fieldsSize_nil : fieldsSize [] = 0 := rfl

@[simp] theorem fieldsSize_cons (key : String) (value : Value) (fields : Fields) :
    fieldsSize ((key, value) :: fields) = memberSize key value + fieldsSize fields := rfl

theorem encode_cons (c : Char) (text : List Char) :
    encode (c :: text) = String.utf8EncodeChar c ++ encode text := by
  rw [encode, encode, List.flatMap_cons]

theorem length_renderItems (items : List Value) :
    (encode (renderItems items)).length = itemsSize items + 1 := by
  induction items with
  | nil => rfl
  | cons item items ih =>
    rw [renderItems, encode_cons, encode_append, List.length_append, List.length_append, ih,
      itemsSize_cons, size]
    have hcomma : (String.utf8EncodeChar ',').length = 1 := rfl
    omega

theorem length_renderFields (fields : Fields) :
    (encode (renderFields fields)).length = fieldsSize fields + 1 := by
  induction fields with
  | nil => rfl
  | cons field fields ih =>
    obtain ⟨key, value⟩ := field
    rw [renderFields, encode_cons, encode_append, encode_cons, encode_append]
    simp only [List.length_append]
    rw [ih, fieldsSize_cons, memberSize, size]
    have hcomma : (String.utf8EncodeChar ',').length = 1 := rfl
    have hcolon : (String.utf8EncodeChar ':').length = 1 := rfl
    omega

theorem size_array_nil : size (.array []) = 2 := by
  rw [size, render]
  rfl

theorem size_array {items : List Value} (h : items ≠ []) :
    size (.array items) = itemsSize items + 1 := by
  cases items with
  | nil => exact absurd rfl h
  | cons item items =>
    rw [size, render, encode_cons, encode_append, List.length_append, List.length_append,
      length_renderItems, itemsSize_cons, size]
    have hbracket : (String.utf8EncodeChar '[').length = 1 := rfl
    omega

theorem size_object {fields : Fields} (h : fields ≠ []) :
    size (.object fields) = fieldsSize fields + 1 := by
  cases fields with
  | nil => exact absurd rfl h
  | cons field fields =>
    obtain ⟨key, value⟩ := field
    rw [size, render, encode_cons, encode_append, encode_cons, encode_append]
    simp only [List.length_append]
    rw [length_renderFields, fieldsSize_cons, memberSize, size]
    have hbrace : (String.utf8EncodeChar '\x7b').length = 1 := rfl
    have hcolon : (String.utf8EncodeChar ':').length = 1 := rfl
    omega

theorem fieldsSize_insert (fields : Fields) (key : String) (value : Value) :
    fieldsSize (fields.insert key value) + sizeAt fields key =
      fieldsSize fields + memberSize key value := by
  induction fields with
  | nil => simp [Fields.insert, fieldsSize, sizeAt, Fields.get?]
  | cons field rest ih =>
    obtain ⟨k, old⟩ := field
    rw [Fields.insert, sizeAt, Fields.get?]
    split
    · next hk =>
      subst hk
      simp only [fieldsSize_cons, Option.elim_some]
      omega
    · rw [sizeAt] at ih
      simp only [fieldsSize_cons]
      omega

theorem insert_ne_nil (fields : Fields) (key : String) (value : Value) :
    fields.insert key value ≠ [] := by
  cases fields with
  | nil => exact List.cons_ne_nil _ _
  | cons field rest =>
    rw [Fields.insert]
    split <;> exact List.cons_ne_nil _ _

/-- Text without quotes, backslashes and control characters stands for itself. -/
theorem flatMap_escapeChar {text : List Char}
    (h : ∀ c ∈ text, c ≠ '\x22' ∧ c ≠ '\x5c' ∧ 32 ≤ c.toNat) : text.flatMap escapeChar = text := by
  induction text with
  | nil => rfl
  | cons c text ih =>
    obtain ⟨hquote, hslash, hplain⟩ := h c List.mem_cons_self
    have hother : ∀ d : Char, d.toNat < 32 → c ≠ d := by
      rintro d hd rfl
      omega
    rw [List.flatMap_cons, ih fun d hd => h d (List.mem_cons_of_mem _ hd), escapeChar, if_neg hquote,
      if_neg hslash, if_neg (hother _ (by decide)), if_neg (hother _ (by decide)),
      if_neg (hother _ (by decide)), if_neg (hother _ (by decide)), if_neg (hother _ (by decide)),
      if_neg (by omega)]
    rfl

theorem length_encode_ascii {text : List Char} (h : ∀ c ∈ text, c.toNat < 128) :
    (encode text).length = text.length := by
  induction text with
  | nil => rfl
  | cons c text ih =>
    have hc : (String.utf8EncodeChar c).length = 1 := by
      have hval : c.val ≤ 0x7f := by
        have hnat := h c List.mem_cons_self
        exact UInt32.le_iff_toNat_le.mpr (by change c.toNat ≤ 127; omega)
      simp [String.length_utf8EncodeChar, Char.utf8Size, hval]
    rw [encode_cons, List.length_append, hc, ih fun d hd => h d (List.mem_cons_of_mem _ hd),
      List.length_cons]
    omega

/-! ## The size of escaped text -/

/-- The bytes of a character in a JSON string. -/
def escapedWidth (c : Char) : Nat :=
  if c = '\x22' ∨ c = '\x5c' ∨ c = '\x08' ∨ c = '\t' ∨ c = '\n' ∨ c = '\x0c' ∨ c = '\r' then 2
  else if c.toNat < 32 then 6
  else c.utf8Size

/-- The bytes of a text in a JSON string, without the quotes. -/
def width (text : List Char) : Nat := (text.map escapedWidth).sum

@[simp] theorem width_nil : width [] = 0 := rfl

@[simp] theorem width_cons (c : Char) (text : List Char) :
    width (c :: text) = escapedWidth c + width text := rfl

@[simp] theorem width_append (a b : List Char) : width (a ++ b) = width a + width b := by
  rw [width, List.map_append, List.sum_append]
  rfl

theorem length_encode_hexChar {n : Nat} (h : n < 16) :
    (String.utf8EncodeChar (hexChar n)).length = 1 := by
  have hall : ∀ digit : Fin 16, (String.utf8EncodeChar (hexChar digit)).length = 1 := by decide
  exact hall ⟨n, h⟩

theorem length_encode_escapeChar (c : Char) : (encode (escapeChar c)).length = escapedWidth c := by
  unfold escapeChar escapedWidth
  by_cases hquote : c = '\x22'
  · simp only [hquote, if_true, true_or]; rfl
  by_cases hslash : c = '\x5c'
  · simp only [hslash, if_true, true_or, or_true]; rfl
  by_cases hb : c = '\x08'
  · simp only [hb, if_true, true_or, or_true]; rfl
  by_cases ht : c = '\t'
  · simp only [ht, if_true, true_or, or_true]; rfl
  by_cases hn : c = '\n'
  · simp only [hn, if_true, true_or, or_true]; rfl
  by_cases hf : c = '\x0c'
  · simp only [hf, if_true, true_or, or_true]; rfl
  by_cases hr : c = '\r'
  · simp only [hr, if_true, or_true]; rfl
  simp only [hquote, hslash, hb, ht, hn, hf, hr, if_false, or_self]
  split
  · next hlow =>
    simp only [encode_cons, List.length_append, length_encode_hexChar (show c.toNat / 16 < 16 by omega),
      length_encode_hexChar (show c.toNat % 16 < 16 by omega)]
    rfl
  · simp [encode, String.length_utf8EncodeChar]

theorem length_encode_escaped (text : List Char) :
    (encode (text.flatMap escapeChar)).length = width text := by
  induction text with
  | nil => rfl
  | cons c text ih =>
    rw [List.flatMap_cons, encode_append, List.length_append, ih, length_encode_escapeChar, width_cons]

/-- Escaping does not make text shorter. -/
theorem length_encode_le_width (text : List Char) : (encode text).length ≤ width text := by
  induction text with
  | nil => exact le_rfl
  | cons c text ih =>
    have hc : (String.utf8EncodeChar c).length ≤ escapedWidth c := by
      rw [String.length_utf8EncodeChar]
      unfold escapedWidth
      split
      · next h => rcases h with rfl | rfl | rfl | rfl | rfl | rfl | rfl <;> decide
      · split
        · have := c.utf8Size_le_four
          omega
        · exact le_rfl
    rw [encode_cons, List.length_append, width_cons]
    omega

theorem length_renderString (s : String) : (encode (renderString s)).length = width s.toList + 2 := by
  rw [renderString, encode_cons, encode_append, List.length_append, List.length_append,
    length_encode_escaped]
  have hquote : (String.utf8EncodeChar '\x22').length = 1 := rfl
  have hquote' : (encode ['\x22']).length = 1 := rfl
  omega

@[simp] theorem size_string (s : String) : size (.string s) = width s.toList + 2 := by
  rw [size, render, length_renderString]

theorem fieldsSize_append (a b : Fields) : fieldsSize (a ++ b) = fieldsSize a + fieldsSize b := by
  rw [fieldsSize, List.map_append, List.sum_append]
  rfl

end Tally.Lib
