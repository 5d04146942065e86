import Tally.Lib.Lines

/-!
# ASCII in UTF-8 text

A character below 128 is one byte, and that byte is of no other character. So a reader of bytes that
stops at such bytes stops between characters.
-/

namespace Tally.Lib

/-- `b'c'`. -/
def ascii (c : Char) : UInt8 := UInt8.ofNat c.toNat

theorem toNat_ascii {c : Char} (h : c.toNat < 128) : (ascii c).toNat = c.toNat :=
  UInt8.toNat_ofNat_of_lt' (Nat.lt_trans h (by decide))

/-- An ASCII character is its byte. -/
theorem encode_ascii {c : Char} (h : c.toNat < 128) : String.utf8EncodeChar c = [ascii c] := by
  have hle : c.val.toNat ≤ 0x7f := Nat.le_of_lt_succ h
  simp only [String.utf8EncodeChar, hle, if_true]
  rfl

theorem encode_ascii_cons {c : Char} (h : c.toNat < 128) (text : List Char) :
    encode (c :: text) = ascii c :: encode text := by
  rw [encode, List.flatMap_cons, encode_ascii h]
  rfl

theorem utf8EncodeChar_ne_nil (c : Char) : String.utf8EncodeChar c ≠ [] := by
  intro hnil
  have hlength := String.length_utf8EncodeChar c
  have hpos := Char.utf8Size_pos c
  rw [hnil, List.length_nil] at hlength
  omega

theorem mem_of_mem_encode {byte : UInt8} {text : List Char} (hbyte : byte.toNat < 128)
    (h : byte ∈ encode text) : ∃ c ∈ text, c.toNat = byte.toNat := by
  obtain ⟨c, hc, hmem⟩ := List.mem_flatMap.mp h
  exact ⟨c, hc, toNat_eq_of_mem_utf8EncodeChar hbyte hmem⟩

/-- The first byte of a text below 128 is its first character. -/
theorem head?_of_encode {byte : UInt8} {text : List Char} (hbyte : byte.toNat < 128)
    (h : (encode text).head? = some byte) : ∃ c, text.head? = some c ∧ c.toNat = byte.toNat := by
  cases text with
  | nil => cases h
  | cons c rest =>
    obtain ⟨first, tail, hfirst⟩ := List.exists_cons_of_ne_nil (utf8EncodeChar_ne_nil c)
    have hmem : byte ∈ String.utf8EncodeChar c := by
      rw [encode, List.flatMap_cons, hfirst] at h
      cases h
      exact hfirst ▸ List.mem_cons_self
    exact ⟨c, rfl, toNat_eq_of_mem_utf8EncodeChar hbyte hmem⟩

theorem eq_ascii {c : Char} {byte : UInt8} (h : c.toNat = byte.toNat) : byte = ascii c := by
  rw [ascii, h, UInt8.ofNat_toNat]

/-- What follows the bytes of a beginning is the text that follows it. -/
theorem exists_left_of_encode {text piece : List Char} {rest : Bytes}
    (h : encode text = encode piece ++ rest) : ∃ left, text = piece ++ left ∧ rest = encode left := by
  obtain ⟨left, rfl⟩ := prefix_of_encode_prefix ⟨rest, h.symm⟩
  rw [encode_append] at h
  exact ⟨left, rfl, (List.append_cancel_left h).symm⟩

/-- The text begins with the character of an ASCII byte that it begins with. -/
theorem exists_left_of_head {text : List Char} {c : Char} {rest : Bytes} (hc : c.toNat < 128)
    (h : encode text = ascii c :: rest) : ∃ left, text = c :: left ∧ rest = encode left := by
  have hpiece : encode [c] = [ascii c] := encode_ascii_cons hc []
  exact exists_left_of_encode (hpiece ▸ h : encode text = encode [c] ++ rest)

theorem toNat_ofNat {byte : UInt8} (h : byte.toNat < 128) :
    (Char.ofNat byte.toNat).toNat = byte.toNat := by
  have hvalid : byte.toNat.isValidChar := .inl (Nat.lt_trans h (by decide))
  rw [Char.ofNat, dif_pos hvalid]
  rfl

theorem encode_of_ascii {bytes : Bytes} (h : ∀ byte ∈ bytes, byte.toNat < 128) :
    encode (bytes.map fun byte => Char.ofNat byte.toNat) = bytes := by
  induction bytes with
  | nil => rfl
  | cons byte bytes ih =>
    have hbyte := h byte List.mem_cons_self
    have hchar := toNat_ofNat hbyte
    rw [List.map_cons, encode_ascii_cons (hchar.symm ▸ hbyte), ← eq_ascii hchar,
      ih fun other hother => h other (List.mem_cons_of_mem _ hother)]

end Tally.Lib
