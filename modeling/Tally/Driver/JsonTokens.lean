import Tally.Driver.Json
import Tally.Lib.JsonGrammar

/-!
# The tokens of the parser

What the parser of the driver takes for a number, a string or white space is one, and it takes all
that are. It goes over bytes, and stops between characters.
-/

namespace Tally.Driver.Parser

open Tally.Lib

variable {size : Nat}

/-! ## Bytes -/

theorem take_eq_some {expected : UInt8} {bytes rest : Bytes} :
    take expected bytes = some rest ↔ bytes = expected :: rest := by
  cases bytes with
  | nil => exact ⟨nofun, nofun⟩
  | cons byte bytes =>
    rw [take]
    split
    · next h =>
      rw [h, Option.some.injEq, List.cons.injEq]
      exact ⟨fun h => ⟨rfl, h⟩, fun h => h.2⟩
    · next h => exact ⟨nofun, fun heq => absurd (List.cons.inj heq).1 h⟩

theorem take_eq_none {expected : UInt8} {bytes : Bytes} (h : bytes.head? ≠ some expected) :
    take expected bytes = none := by
  cases bytes with
  | nil => rfl
  | cons byte bytes => exact if_neg fun heq => h (congrArg some heq)

theorem take_of_ne {expected byte : UInt8} (h : byte ≠ expected) (rest : Bytes) :
    take expected (byte :: rest) = none := if_neg h

theorem bound_of_isDigit {byte : UInt8} (h : isDigit byte = true) :
    48 ≤ byte.toNat ∧ byte.toNat ≤ 57 := by
  rw [isDigit, Bool.and_eq_true, decide_eq_true_eq, decide_eq_true_eq] at h
  exact h

theorem isDigit_char {byte : UInt8} (h : isDigit byte = true) :
    (Char.ofNat byte.toNat).isDigit = true := by
  have hbound := bound_of_isDigit h
  have hchar : (Char.ofNat byte.toNat).val.toNat = byte.toNat := toNat_ofNat (by omega)
  rw [Char.isDigit, Bool.and_eq_true, decide_eq_true_eq, decide_eq_true_eq, ge_iff_le,
    UInt32.le_iff_toNat_le, UInt32.le_iff_toNat_le, hchar]
  exact hbound

theorem bound_of_char_isDigit {c : Char} (h : c.isDigit = true) : 48 ≤ c.toNat ∧ c.toNat ≤ 57 := by
  rw [Char.isDigit, Bool.and_eq_true, decide_eq_true_eq, decide_eq_true_eq, ge_iff_le,
    UInt32.le_iff_toNat_le, UInt32.le_iff_toNat_le] at h
  exact h

theorem isDigit_ascii {c : Char} (h : c.isDigit = true) : isDigit (ascii c) = true := by
  have hbound := bound_of_char_isDigit h
  have hascii : (ascii c).toNat = c.toNat := toNat_ascii (by omega)
  rw [isDigit, Bool.and_eq_true, decide_eq_true_eq, decide_eq_true_eq, UInt8.le_iff_toNat_le,
    UInt8.le_iff_toNat_le, hascii]
  exact hbound

/-- A digit, as a character and as a byte. -/
theorem encode_digit_cons {c : Char} (h : c.isDigit = true) (text : List Char) :
    encode (c :: text) = ascii c :: encode text :=
  encode_ascii_cons (Nat.lt_of_le_of_lt (bound_of_char_isDigit h).2 (by decide)) text

theorem exists_digits (rest : Bytes) :
    ∃ text : List Char, (∀ c ∈ text, c.isDigit = true) ∧ rest = encode text ++ digits rest ∧
      (rest.head?.any isDigit = true → text ≠ []) := by
  have hdigits : ∀ byte ∈ rest.takeWhile isDigit, isDigit byte = true := fun _ h =>
    List.mem_takeWhile_imp h
  refine ⟨(rest.takeWhile isDigit).map fun byte => Char.ofNat byte.toNat, ?_, ?_, ?_⟩
  · intro c hc
    obtain ⟨byte, hbyte, rfl⟩ := List.mem_map.mp hc
    exact isDigit_char (hdigits byte hbyte)
  · rw [encode_of_ascii]
    · exact List.takeWhile_append_dropWhile.symm
    · intro byte hbyte
      have := bound_of_isDigit (hdigits byte hbyte)
      omega
  · intro hhead hnil
    cases rest with
    | nil => cases hhead
    | cons byte rest =>
      rw [List.head?_cons, Option.any_some] at hhead
      rw [List.takeWhile_cons_of_pos hhead] at hnil
      cases hnil

theorem digits_encode {text : List Char} {rest : Bytes} (htext : ∀ c ∈ text, c.isDigit = true)
    (hrest : rest.head?.any isDigit = false) : digits (encode text ++ rest) = rest := by
  induction text with
  | nil =>
    cases rest with
    | nil => rfl
    | cons byte rest =>
      have hbyte : isDigit byte = false := hrest
      exact List.dropWhile_cons_of_neg (by rw [hbyte]; exact Bool.false_ne_true)
  | cons c text ih =>
    have hc := htext c List.mem_cons_self
    rw [encode_digit_cons hc, List.cons_append, digits, List.dropWhile_cons_of_pos (isDigit_ascii hc)]
    exact ih fun d hd => htext d (List.mem_cons_of_mem c hd)

theorem head_encode_digits {text : List Char} (h : IsDigits text) (rest : Bytes) :
    (encode text ++ rest).head?.any isDigit = true := by
  obtain ⟨hne, hdigits⟩ := h
  cases text with
  | nil => exact absurd rfl hne
  | cons c text =>
    have hc := hdigits c List.mem_cons_self
    rw [encode_digit_cons hc]
    exact isDigit_ascii hc

/-! ## Numbers -/

/-- What does not go on with a number. -/
def Stops (rest : Bytes) : Prop :=
  rest.head?.any isDigit = false ∧ rest.head? ≠ some (ascii '.') ∧ rest.head? ≠ some (ascii 'e') ∧
    rest.head? ≠ some (ascii 'E')

theorem integer_sound {bytes rest : Bytes} (h : integer size bytes = .ok rest) :
    ∃ text, IsInteger text ∧ bytes = encode text ++ rest := by
  unfold integer at h
  split at h
  · cases h
  · next byte after =>
    split at h
    · next hzero =>
      split at h
      · cases h
      · cases h
        exact ⟨['0'], .inl rfl, hzero ▸ rfl⟩
    · next hzero =>
      split at h
      · next hdigit =>
        cases h
        obtain ⟨text, htext, hafter, -⟩ := exists_digits after
        have hbound := bound_of_isDigit hdigit
        have hchar : (Char.ofNat byte.toNat).toNat = byte.toNat := toNat_ofNat (by omega)
        refine ⟨Char.ofNat byte.toNat :: text, .inr ⟨⟨nofun, ?_⟩, ?_⟩, ?_⟩
        · intro c hc
          rcases List.mem_cons.mp hc with rfl | hc
          · exact isDigit_char hdigit
          · exact htext c hc
        · intro hhead
          rw [List.head?_cons, Option.some.injEq] at hhead
          rw [hhead] at hchar
          exact hzero (eq_ascii hchar)
        · rw [encode_digit_cons (isDigit_char hdigit), ← eq_ascii hchar, List.cons_append, ← hafter]
      · cases h

theorem integer_complete {text : List Char} {rest : Bytes} (h : IsInteger text)
    (hrest : rest.head?.any isDigit = false) : integer size (encode text ++ rest) = .ok rest := by
  rcases h with rfl | ⟨⟨hne, hdigits⟩, hzero⟩
  · have hzero : encode ['0'] ++ rest = ascii '0' :: rest := rfl
    rw [hzero, integer, if_pos rfl, hrest, if_neg Bool.false_ne_true]
  · cases text with
    | nil => exact absurd rfl hne
    | cons c text =>
      have hc := hdigits c List.mem_cons_self
      have hne : ascii c ≠ ascii '0' := by
        intro heq
        have hbound := bound_of_char_isDigit hc
        have htoNat := congrArg UInt8.toNat heq
        rw [toNat_ascii (by omega), toNat_ascii (by decide)] at htoNat
        exact hzero (congrArg some (Char.toNat_inj.mp htoNat))
      rw [encode_digit_cons hc, List.cons_append, integer, if_neg hne, if_pos (isDigit_ascii hc),
        digits_encode (fun d hd => hdigits d (List.mem_cons_of_mem c hd)) hrest]

theorem fraction_sound {bytes rest : Bytes} (h : fraction size bytes = .ok rest) :
    ∃ text, IsFraction text ∧ bytes = encode text ++ rest := by
  unfold fraction at h
  split at h
  · cases h
    exact ⟨[], .inl rfl, rfl⟩
  · next after htake =>
    split at h
    · next hhead =>
      cases h
      obtain ⟨text, htext, hafter, hne⟩ := exists_digits after
      refine ⟨'.' :: text, .inr ⟨text, ⟨hne hhead, htext⟩, rfl⟩, ?_⟩
      rw [take_eq_some.mp htake, encode_ascii_cons (by decide), List.cons_append, ← hafter]
    · cases h

theorem fraction_complete {text : List Char} {rest : Bytes} (h : IsFraction text)
    (hdigit : rest.head?.any isDigit = false) (hpoint : rest.head? ≠ some (ascii '.')) :
    fraction size (encode text ++ rest) = .ok rest := by
  rcases h with rfl | ⟨digits, hdigits, rfl⟩
  · rw [encode_nil, List.nil_append, fraction, take_eq_none hpoint]
  · rw [encode_ascii_cons (by decide), List.cons_append, fraction, take_eq_some.mpr rfl]
    dsimp only
    rw [if_pos (head_encode_digits hdigits rest), digits_encode hdigits.2 hdigit]

theorem sign_sound (bytes : Bytes) :
    ∃ text, (text = [] ∨ text = ['+'] ∨ text = ['-']) ∧ bytes = encode text ++ sign bytes := by
  cases bytes with
  | nil => exact ⟨[], .inl rfl, rfl⟩
  | cons byte rest =>
    rw [sign]
    split
    · next h =>
      rcases h with rfl | rfl
      · exact ⟨['+'], .inr (.inl rfl), rfl⟩
      · exact ⟨['-'], .inr (.inr rfl), rfl⟩
    · exact ⟨[], .inl rfl, rfl⟩

theorem sign_complete {text : List Char} {rest : Bytes} (h : text = [] ∨ text = ['+'] ∨ text = ['-'])
    (hrest : rest.head?.any isDigit = true) : sign (encode text ++ rest) = rest := by
  rcases h with rfl | rfl | rfl
  · cases rest with
    | nil => rfl
    | cons byte rest =>
      have hbound := bound_of_isDigit hrest
      refine if_neg fun hsign => ?_
      rcases hsign with rfl | rfl
      · exact absurd hbound (by decide)
      · exact absurd hbound (by decide)
  · show sign (ascii '+' :: rest) = rest
    rw [sign, if_pos (.inl rfl)]
  · show sign (ascii '-' :: rest) = rest
    rw [sign, if_pos (.inr rfl)]

theorem exponent_sound {bytes rest : Bytes} (h : exponent size bytes = .ok rest) :
    ∃ text, IsExponent text ∧ bytes = encode text ++ rest := by
  unfold exponent at h
  split at h
  · cases h
    exact ⟨[], .inl rfl, rfl⟩
  · next byte after =>
    split at h
    · next hmark =>
      split at h
      · next hhead =>
        cases h
        obtain ⟨signText, hsign, hafter⟩ := sign_sound after
        obtain ⟨text, htext, hrest, hne⟩ := exists_digits (sign after)
        have hbytes : after = encode (signText ++ text) ++ digits (sign after) := by
          rw [encode_append, List.append_assoc, ← hrest, ← hafter]
        rcases hmark with rfl | rfl
        · refine ⟨'e' :: (signText ++ text), .inr ⟨'e', signText, text, .inl rfl, hsign,
            ⟨hne hhead, htext⟩, rfl⟩, ?_⟩
          rw [encode_ascii_cons (by decide), List.cons_append, ← hbytes]
        · refine ⟨'E' :: (signText ++ text), .inr ⟨'E', signText, text, .inr rfl, hsign,
            ⟨hne hhead, htext⟩, rfl⟩, ?_⟩
          rw [encode_ascii_cons (by decide), List.cons_append, ← hbytes]
      · cases h
    · cases h
      exact ⟨[], .inl rfl, rfl⟩

theorem exponent_complete {text : List Char} {rest : Bytes} (h : IsExponent text) (hrest : Stops rest) :
    exponent size (encode text ++ rest) = .ok rest := by
  obtain ⟨hdigit, -, hlower, hupper⟩ := hrest
  rcases h with rfl | ⟨mark, signText, digits, hmark, hsign, hdigits, rfl⟩
  · cases rest with
    | nil => rfl
    | cons byte rest =>
      refine if_neg fun hbyte => ?_
      rcases hbyte with rfl | rfl
      · exact hlower rfl
      · exact hupper rfl
  · have hlt : mark.toNat < 128 := by rcases hmark with rfl | rfl <;> decide
    have hbyte : ascii mark = ascii 'e' ∨ ascii mark = ascii 'E' := by
      rcases hmark with rfl | rfl
      · exact .inl rfl
      · exact .inr rfl
    have hhead := head_encode_digits hdigits rest
    rw [encode_ascii_cons hlt, List.cons_append, exponent, if_pos hbyte, encode_append,
      List.append_assoc, sign_complete hsign hhead, if_pos hhead, digits_encode hdigits.2 hdigit]

theorem number_sound {start rest : Bytes} {lexeme : String} (h : number size start = .ok (lexeme, rest)) :
    IsNumber lexeme.toList ∧ start = encode lexeme.toList ++ rest := by
  simp only [number, bind_ok_iff, orError_eq_ok] at h
  obtain ⟨afterInteger, hinteger, afterFraction, hfraction, afterExponent, hexponent, text, hdecode,
    hresult⟩ := h
  cases hresult
  obtain ⟨integerText, hisInteger, hintegerBytes⟩ := integer_sound hinteger
  obtain ⟨fractionText, hisFraction, hfractionBytes⟩ := fraction_sound hfraction
  obtain ⟨exponentText, hisExponent, hexponentBytes⟩ := exponent_sound hexponent
  obtain ⟨minus, hminus, hstart⟩ : ∃ minus : List Char, (minus = [] ∨ minus = ['-']) ∧
      start = encode minus ++ (take (ascii '-') start).getD start := by
    cases htake : take (ascii '-') start with
    | none => exact ⟨[], .inl rfl, rfl⟩
    | some after => exact ⟨['-'], .inr rfl, take_eq_some.mp htake⟩
  have hbytes : start =
      encode (minus ++ (integerText ++ (fractionText ++ exponentText))) ++ rest := by
    simp only [encode_append, List.append_assoc]
    rw [← hexponentBytes, ← hfractionBytes, ← hintegerBytes, ← hstart]
  have htake : start.take (start.length - rest.length) =
      encode (minus ++ (integerText ++ (fractionText ++ exponentText))) := by
    conv_lhs => rw [hbytes]
    rw [List.length_append, Nat.add_sub_cancel, List.take_left]
  rw [htake, decode_encode, Option.some.injEq] at hdecode
  rw [String.toList_ofList, ← hdecode]
  exact ⟨⟨minus, integerText, fractionText, exponentText, hminus, hisInteger, hisFraction, hisExponent,
    rfl⟩, hbytes⟩

theorem number_complete {text : List Char} {rest : Bytes} (h : IsNumber text) (hrest : Stops rest) :
    number size (encode text ++ rest) = .ok (String.ofList text, rest) := by
  obtain ⟨minus, integerText, fractionText, exponentText, hminus, hinteger, hfraction, hexponent,
    rfl⟩ := h
  -- what follows the fraction does not go on with it, and so what follows the integer
  have hexponentHead : (encode exponentText ++ rest).head?.any isDigit = false ∧
      (encode exponentText ++ rest).head? ≠ some (ascii '.') := by
    rcases hexponent with rfl | ⟨mark, signText, digits, hmark, -, -, rfl⟩
    · exact ⟨hrest.1, hrest.2.1⟩
    · rcases hmark with rfl | rfl
      · exact ⟨rfl, fun h => absurd (Option.some.inj h : ascii 'e' = ascii '.') (by decide)⟩
      · exact ⟨rfl, fun h => absurd (Option.some.inj h : ascii 'E' = ascii '.') (by decide)⟩
  have hfractionHead : (encode fractionText ++ (encode exponentText ++ rest)).head?.any isDigit = false := by
    rcases hfraction with rfl | ⟨digits, -, rfl⟩
    · exact hexponentHead.1
    · rfl
  have hstart : (take (ascii '-') (encode (minus ++ (integerText ++ (fractionText ++ exponentText))) ++
        rest)).getD (encode (minus ++ (integerText ++ (fractionText ++ exponentText))) ++ rest) =
      encode integerText ++ (encode fractionText ++ (encode exponentText ++ rest)) := by
    simp only [encode_append, List.append_assoc]
    rcases hminus with rfl | rfl
    · rw [encode_nil, List.nil_append, take_eq_none, Option.getD_none]
      intro hhead
      rcases hinteger with rfl | ⟨hdigits, -⟩
      · exact absurd (Option.some.inj hhead : ascii '0' = ascii '-') (by decide)
      · have hdigit := head_encode_digits hdigits (encode fractionText ++ (encode exponentText ++ rest))
        rw [hhead] at hdigit
        exact absurd hdigit (by decide)
    · exact congrArg (Option.getD · _) (take_eq_some.mpr rfl)
  have htake : ∀ all : List Char, (encode all ++ rest).take ((encode all ++ rest).length - rest.length) =
      encode all := by
    intro all
    rw [List.length_append, Nat.add_sub_cancel, List.take_left]
  rw [number, hstart, integer_complete hinteger hfractionHead]
  show (fraction size _ >>= _) = _
  rw [fraction_complete hfraction hexponentHead.1 hexponentHead.2]
  show (exponent size _ >>= _) = _
  rw [exponent_complete hexponent hrest]
  show (orError (decode _) _ >>= _) = _
  rw [htake, decode_encode]
  rfl

/-! ## Escapes -/

theorem anyHexDigit_of_hexDigit {byte : UInt8} {n : Nat} (h : hexDigit byte = some n) :
    byte.toNat < 128 ∧ anyHexDigit (Char.ofNat byte.toNat) = some n := by
  have hall : ∀ k < 256, (hexDigit (UInt8.ofNat k)).all fun n =>
      decide (k < 128) && anyHexDigit (Char.ofNat k) == some n := by decide +kernel
  have hbyte := hall byte.toNat byte.toNat_lt
  rw [UInt8.ofNat_toNat, h, Option.all_some, Bool.and_eq_true, decide_eq_true_eq, beq_iff_eq] at hbyte
  exact hbyte

theorem hexDigit_ascii {c : Char} {n : Nat} (h : anyHexDigit c = some n) :
    c.toNat < 128 ∧ hexDigit (ascii c) = some n ∧ n < 16 := by
  have hlt : c.toNat < 128 := by
    by_contra hge
    have hdigit : c.isDigit = false := by
      rw [Bool.eq_false_iff]
      intro hdigit
      have := bound_of_char_isDigit hdigit
      omega
    rw [anyHexDigit, Lib.hexDigit, if_neg (by omega), hdigit, if_neg Bool.false_ne_true,
      if_neg (by omega)] at h
    cases h
  have hall : ∀ k < 128, (anyHexDigit (Char.ofNat k)).all fun n =>
      hexDigit (UInt8.ofNat k) == some n && decide (n < 16) := by decide +kernel
  have hchar := hall c.toNat hlt
  rw [Char.ofNat_toNat, h, Option.all_some, Bool.and_eq_true, beq_iff_eq, decide_eq_true_eq] at hchar
  exact ⟨hlt, hchar⟩

theorem quad_sound {bytes : Bytes} {start n : Nat}
    (h : bytes.foldlM (fun value byte => (hexDigit byte).map (value * 16 + ·)) start = some n) :
    ∃ text : List Char, text.length = bytes.length ∧ bytes = encode text ∧
      text.foldlM (fun value c => (anyHexDigit c).map (value * 16 + ·)) start = some n := by
  induction bytes generalizing start with
  | nil => exact ⟨[], rfl, rfl, h⟩
  | cons byte bytes ih =>
    rw [List.foldlM_cons, Option.bind_eq_bind, Option.bind_eq_some_iff] at h
    obtain ⟨next, hnext, hrest⟩ := h
    obtain ⟨digit, hdigit, rfl⟩ := Option.map_eq_some_iff.mp hnext
    obtain ⟨text, hlength, rfl, htext⟩ := ih hrest
    obtain ⟨hbyte, hchar⟩ := anyHexDigit_of_hexDigit hdigit
    have hsame := toNat_ofNat hbyte
    refine ⟨Char.ofNat byte.toNat :: text, congrArg (· + 1) hlength, ?_, ?_⟩
    · rw [encode_ascii_cons (hsame.symm ▸ hbyte), ← eq_ascii hsame]
    · rw [List.foldlM_cons, hchar]
      exact htext

theorem quad_complete {text : List Char} {start n : Nat}
    (h : text.foldlM (fun value c => (anyHexDigit c).map (value * 16 + ·)) start = some n) :
    (encode text).length = text.length ∧
      (encode text).foldlM (fun value byte => (hexDigit byte).map (value * 16 + ·)) start = some n ∧
      n < (start + 1) * 16 ^ text.length := by
  induction text generalizing start with
  | nil =>
    cases h
    exact ⟨rfl, rfl, by simp⟩
  | cons c text ih =>
    rw [List.foldlM_cons, Option.bind_eq_bind, Option.bind_eq_some_iff] at h
    obtain ⟨next, hnext, hrest⟩ := h
    obtain ⟨digit, hdigit, rfl⟩ := Option.map_eq_some_iff.mp hnext
    obtain ⟨hlength, hfold, hbound⟩ := ih hrest
    obtain ⟨hlt, hbyte, hdigitBound⟩ := hexDigit_ascii hdigit
    rw [encode_ascii_cons hlt, List.foldlM_cons, hbyte]
    refine ⟨congrArg (· + 1) hlength, hfold, ?_⟩
    calc n < (start * 16 + digit + 1) * 16 ^ text.length := hbound
      _ ≤ (start + 1) * 16 * 16 ^ text.length := Nat.mul_le_mul_right _ (by omega)
      _ = (start + 1) * 16 ^ (c :: text).length := by
        rw [List.length_cons, Nat.pow_succ, Nat.mul_assoc, Nat.mul_comm 16]

theorem hexQuad_sound {bytes rest : Bytes} {n : Nat} (h : hexQuad size bytes = .ok (n, rest)) :
    ∃ quad, IsQuad quad n ∧ bytes = encode quad ++ rest := by
  unfold hexQuad at h
  split at h
  · cases h
  · next hlength =>
    simp only [bind_ok_iff, orError_eq_ok] at h
    obtain ⟨value, hvalue, hresult⟩ := h
    cases hresult
    obtain ⟨quad, hquad, hbytes, hfold⟩ := quad_sound hvalue
    refine ⟨quad, ⟨?_, hfold⟩, ?_⟩
    · rw [hquad, List.length_take]
      omega
    · rw [← hbytes, List.take_append_drop]

theorem hexQuad_complete {quad : List Char} {n : Nat} (h : IsQuad quad n) (rest : Bytes) :
    hexQuad size (encode quad ++ rest) = .ok (n, rest) := by
  obtain ⟨hlength, hfold, -⟩ := quad_complete h.2
  have hfour : 4 = (encode quad).length := by rw [hlength, h.1]
  have hlong : ¬(encode quad ++ rest).length < 4 := by
    rw [List.length_append]
    omega
  rw [hexQuad, if_neg hlong, hfour, List.take_left, List.drop_left, hfold]
  rfl

theorem lt_of_isQuad {quad : List Char} {n : Nat} (h : IsQuad quad n) : n < 0x10000 := by
  have hbound := (quad_complete h.2).2.2
  rw [h.1] at hbound
  omega

theorem isLeadingSurrogate_iff {n : Nat} :
    isLeadingSurrogate n = true ↔ 0xD800 ≤ n ∧ n ≤ 0xDBFF := by
  rw [isLeadingSurrogate, Bool.and_eq_true, decide_eq_true_eq, decide_eq_true_eq]

theorem isTrailingSurrogate_iff {n : Nat} :
    isTrailingSurrogate n = true ↔ 0xDC00 ≤ n ∧ n ≤ 0xDFFF := by
  rw [isTrailingSurrogate, Bool.and_eq_true, decide_eq_true_eq, decide_eq_true_eq]

theorem lowEscape_eq_ok {bytes rest : Bytes} :
    lowEscape size bytes = .ok rest ↔ bytes = ascii '\x5c' :: ascii 'u' :: rest := by
  unfold lowEscape
  split
  · next hnone =>
    refine ⟨nofun, ?_⟩
    rintro rfl
    rw [take_eq_some.mpr rfl] at hnone
    cases hnone
  · next after hsome =>
    rw [take_eq_some.mp hsome]
    split
    · next hnone =>
      refine ⟨nofun, fun heq => ?_⟩
      rw [take_eq_some.mpr (List.cons.inj heq).2] at hnone
      cases hnone
    · next hsome =>
      rw [take_eq_some.mp hsome, Except.ok.injEq, List.cons.injEq, List.cons.injEq]
      exact ⟨fun h => ⟨rfl, rfl, h⟩, fun h => h.2.2⟩

theorem scalar_sound {bytes rest : Bytes} {n : Nat} (h : scalar size bytes = .ok (n, rest)) :
    ∃ text, Spells ('\x5c' :: 'u' :: text) (Char.ofNat n) ∧ bytes = encode text ++ rest := by
  rw [scalar, bind_ok_iff] at h
  obtain ⟨⟨first, afterFirst⟩, hfirst, h⟩ := h
  obtain ⟨high, hhigh, rfl⟩ := hexQuad_sound hfirst
  dsimp only at h
  split at h
  · next hleading =>
    simp only [bind_ok_iff] at h
    obtain ⟨afterEscape, hescape, ⟨second, afterSecond⟩, hsecond, h⟩ := h
    split at h
    · next htrailing =>
      rw [Except.ok.injEq, Prod.mk.injEq] at h
      obtain ⟨rfl, rfl⟩ := h
      obtain ⟨low, hlow, rfl⟩ := hexQuad_sound hsecond
      refine ⟨_, .pair hhigh (isLeadingSurrogate_iff.mpr hleading) hlow
        (isTrailingSurrogate_iff.mpr htrailing), ?_⟩
      rw [lowEscape_eq_ok.mp hescape, encode_append, encode_ascii_cons (by decide),
        encode_ascii_cons (by decide), List.append_assoc]
      rfl
    · cases h
  · next hleading =>
    split at h
    · cases h
    · next htrailing =>
      cases h
      refine ⟨high, .unicode hhigh ?_ ?_, rfl⟩
      · exact Bool.eq_false_iff.mpr (mt isLeadingSurrogate_iff.mp hleading)
      · exact Bool.eq_false_iff.mpr (mt isTrailingSurrogate_iff.mp htrailing)

theorem scalar_complete_unicode {quad : List Char} {n : Nat} (h : IsQuad quad n)
    (hleading : isLeadingSurrogate n = false) (htrailing : isTrailingSurrogate n = false)
    (rest : Bytes) : scalar size (encode quad ++ rest) = .ok (n, rest) ∧ n.isValidChar := by
  have hhigh : ¬(0xD800 ≤ n ∧ n ≤ 0xDBFF) := fun h => by
    rw [isLeadingSurrogate_iff.mpr h] at hleading
    cases hleading
  have hlow : ¬(0xDC00 ≤ n ∧ n ≤ 0xDFFF) := fun h => by
    rw [isTrailingSurrogate_iff.mpr h] at htrailing
    cases htrailing
  constructor
  · rw [scalar, hexQuad_complete h]
    show (if _ then _ else _) = _
    rw [if_neg hhigh, if_neg hlow]
  · have := lt_of_isQuad h
    unfold Nat.isValidChar
    omega

theorem scalar_complete_pair {high low : List Char} {n m : Nat} (hhigh : IsQuad high n)
    (hleading : isLeadingSurrogate n = true) (hlow : IsQuad low m)
    (htrailing : isTrailingSurrogate m = true) (rest : Bytes) :
    scalar size (encode (high ++ '\x5c' :: 'u' :: low) ++ rest) =
      .ok (0x10000 + (n - 0xD800) * 2 ^ 10 + (m - 0xDC00), rest) ∧
    (0x10000 + (n - 0xD800) * 2 ^ 10 + (m - 0xDC00)).isValidChar := by
  have hfirst := isLeadingSurrogate_iff.mp hleading
  have hsecond := isTrailingSurrogate_iff.mp htrailing
  constructor
  · rw [encode_append, encode_ascii_cons (by decide), encode_ascii_cons (by decide), List.append_assoc,
      List.cons_append, List.cons_append, scalar, hexQuad_complete hhigh]
    show (if _ then _ else _) = _
    rw [if_pos hfirst, lowEscape_eq_ok.mpr rfl]
    show (hexQuad size _ >>= _) = _
    rw [hexQuad_complete hlow]
    show (if _ then _ else _) = _
    rw [if_pos hsecond]
  · unfold Nat.isValidChar
    omega

theorem escape_sound {bytes rest output : Bytes} (h : escape size bytes = .ok (output, rest)) :
    ∃ text c, Spells ('\x5c' :: text) c ∧ bytes = encode text ++ rest ∧ output = encode [c] := by
  have hshort : ∀ e c : Char, e.toNat < 128 → c.toNat < 128 → shortEscape e = some c → ∀ after,
      ∃ text d, Spells ('\x5c' :: text) d ∧ ascii e :: after = encode text ++ after ∧
        [ascii c] = encode [d] := by
    intro e c he hc hescape after
    refine ⟨[e], c, .short hescape, ?_, ?_⟩
    · rw [encode_ascii_cons he]
      rfl
    · rw [encode_ascii_cons hc]
      rfl
  unfold escape at h
  split at h
  · cases h
  next escaped after =>
  split at h
  · next hsame =>
    cases h
    rcases hsame with rfl | rfl | rfl
    · exact hshort '\x22' '\x22' (by decide) (by decide) (by decide) rest
    · exact hshort '\x5c' '\x5c' (by decide) (by decide) (by decide) rest
    · exact hshort '/' '/' (by decide) (by decide) (by decide) rest
  split at h
  · next hb =>
    cases h
    exact hb ▸ hshort 'b' '\x08' (by decide) (by decide) (by decide) rest
  split at h
  · next hf =>
    cases h
    exact hf ▸ hshort 'f' '\x0c' (by decide) (by decide) (by decide) rest
  split at h
  · next hn =>
    cases h
    exact hn ▸ hshort 'n' '\n' (by decide) (by decide) (by decide) rest
  split at h
  · next hr =>
    cases h
    exact hr ▸ hshort 'r' '\r' (by decide) (by decide) (by decide) rest
  split at h
  · next ht =>
    cases h
    exact ht ▸ hshort 't' '\t' (by decide) (by decide) (by decide) rest
  split at h
  · next hu =>
    rw [bind_ok_iff] at h
    obtain ⟨⟨scalar, afterScalar⟩, hscalar, h⟩ := h
    dsimp only at h
    split at h
    · rw [Except.ok.injEq, Prod.mk.injEq] at h
      obtain ⟨rfl, rfl⟩ := h
      obtain ⟨text, hspells, rfl⟩ := scalar_sound hscalar
      refine ⟨'u' :: text, _, hspells, ?_, rfl⟩
      rw [encode_ascii_cons (by decide), hu]
      rfl
    · cases h
  · cases h

theorem escape_complete_unicode {text : List Char} {n : Nat} {rest : Bytes}
    (h : scalar size (encode text ++ rest) = .ok (n, rest)) (hvalid : n.isValidChar) :
    escape size (encode ('u' :: text) ++ rest) = .ok (encode [Char.ofNat n], rest) := by
  rw [encode_ascii_cons (by decide), List.cons_append, escape]
  iterate 6 rw [if_neg (by decide)]
  rw [if_pos rfl, h]
  exact if_pos hvalid

theorem escape_complete_short {e c : Char} (h : shortEscape e = some c) (rest : Bytes) :
    escape size (encode [e] ++ rest) = .ok (encode [c], rest) := by
  have hcases : (e = '/' ∧ c = '/') ∨ unescape e = some c := by
    rw [shortEscape] at h
    split at h
    · next hslash => exact .inl ⟨hslash, (Option.some.inj h).symm⟩
    · exact .inr h
  rcases hcases with ⟨rfl, rfl⟩ | h
  · rfl
  · unfold unescape at h
    split at h
    all_goals first | (cases h; rfl) | cases h

/-- The other spellings begin with a backslash. -/
theorem escape_complete {text : List Char} {c : Char} (h : Spells ('\x5c' :: text) c) (rest : Bytes) :
    escape size (encode text ++ rest) = .ok (encode [c], rest) := by
  cases h with
  | plain _ _ hescape => exact absurd rfl hescape
  | short h => exact escape_complete_short h rest
  | unicode h hleading htrailing =>
    obtain ⟨hscalar, hvalid⟩ := scalar_complete_unicode h hleading htrailing rest
    exact escape_complete_unicode hscalar hvalid
  | pair hhigh hleading hlow htrailing =>
    obtain ⟨hscalar, hvalid⟩ := scalar_complete_pair hhigh hleading hlow htrailing rest
    exact escape_complete_unicode hscalar hvalid

/-! ## Strings -/

/-- A byte that stands for itself in a string. -/
def IsPlainByte (byte : UInt8) : Prop := byte ≠ ascii '\x22' ∧ byte ≠ ascii '\x5c' ∧ ¬byte ≤ 0x1F

theorem isPlainByte_of_mem {c : Char} (hcontrol : 0x20 ≤ c.toNat) (hquote : c ≠ '\x22')
    (hescape : c ≠ '\x5c') {byte : UInt8} (h : byte ∈ String.utf8EncodeChar c) : IsPlainByte byte := by
  have hne : ∀ {other : Char}, other.toNat < 128 → c ≠ other → byte ≠ ascii other := by
    rintro other hlt hne rfl
    have hascii := toNat_ascii hlt
    have hsame := toNat_eq_of_mem_utf8EncodeChar (hascii.symm ▸ hlt) h
    exact hne (Char.toNat_inj.mp (hsame.trans hascii))
  refine ⟨hne (by decide) hquote, hne (by decide) hescape, fun hle => ?_⟩
  have hbound : byte.toNat ≤ 31 := UInt8.le_iff_toNat_le.mp hle
  have hsame := toNat_eq_of_mem_utf8EncodeChar (by omega) h
  omega

theorem characters_plain_cons {byte : UInt8} (h : IsPlainByte byte) (fuel : Nat) (rest bytes : Bytes) :
    characters size (fuel + 1) (byte :: rest) bytes = characters size fuel rest (bytes ++ [byte]) := by
  rw [characters, if_neg h.1, if_neg h.2.1, if_neg h.2.2]

theorem characters_plain {piece : Bytes} (h : ∀ byte ∈ piece, IsPlainByte byte) (fuel : Nat)
    (rest bytes : Bytes) :
    characters size (fuel + piece.length) (piece ++ rest) bytes =
      characters size fuel rest (bytes ++ piece) := by
  induction piece generalizing bytes with
  | nil => rw [List.append_nil, List.nil_append, List.length_nil, Nat.add_zero]
  | cons byte piece ih =>
    rw [List.length_cons, ← Nat.add_assoc, List.cons_append,
      characters_plain_cons (h byte List.mem_cons_self),
      ih fun other hother => h other (List.mem_cons_of_mem byte hother), List.append_assoc]
    rfl

/-- The loop that has returned went over the bytes that stand for themselves. -/
theorem fuel_of_characters_plain {piece : Bytes} (h : ∀ byte ∈ piece, IsPlainByte byte) {fuel : Nat}
    {rest bytes : Bytes} {result : String × Bytes}
    (hok : characters size fuel (piece ++ rest) bytes = .ok result) :
    ∃ less, fuel = less + piece.length := by
  induction piece generalizing fuel bytes with
  | nil => exact ⟨fuel, rfl⟩
  | cons byte piece ih =>
    cases fuel with
    | zero =>
      rw [characters] at hok
      cases hok
    | succ fuel =>
      rw [List.cons_append, characters_plain_cons (h byte List.mem_cons_self)] at hok
      obtain ⟨less, rfl⟩ := ih (fun other hother => h other (List.mem_cons_of_mem byte hother)) hok
      exact ⟨less, rfl⟩

theorem characters_quote (fuel : Nat) (rest : Bytes) (chars : List Char) :
    characters size (fuel + 1) (ascii '\x22' :: rest) (encode chars) =
      .ok (String.ofList chars, rest) := by
  rw [characters, if_pos rfl, decode_encode]
  rfl

theorem characters_escape (fuel : Nat) (rest bytes : Bytes) :
    characters size (fuel + 1) (ascii '\x5c' :: rest) bytes =
      escape size rest >>= fun escaped => characters size fuel escaped.2 (bytes ++ escaped.1) := by
  rw [characters, if_neg (by decide), if_pos rfl]

theorem characters_control {c : Char} (hcontrol : c.toNat < 0x20) (fuel : Nat) (rest bytes : Bytes)
    (result : String × Bytes) :
    characters size (fuel + 1) (ascii c :: rest) bytes ≠ .ok result := by
  have hne : ∀ {other : Char}, other.toNat < 128 → 0x20 ≤ other.toNat → ascii c ≠ ascii other := by
    intro other hlt hle heq
    have htoNat := congrArg UInt8.toNat heq
    rw [toNat_ascii (by omega), toNat_ascii hlt] at htoNat
    omega
  have hle : ascii c ≤ 0x1F := by
    rw [UInt8.le_iff_toNat_le, toNat_ascii (by omega)]
    exact Nat.le_of_lt_succ hcontrol
  rw [characters, if_neg (hne (by decide) (by decide)), if_neg (hne (by decide) (by decide)),
    if_pos hle]
  exact nofun

theorem characters_sound {fuel : Nat} {text chars : List Char} {s : String} {rest : Bytes}
    (h : characters size fuel (encode text) (encode chars) = .ok (s, rest)) :
    ∃ body read left, text = body ++ '\x22' :: left ∧ rest = encode left ∧ SpellsAll body read ∧
      s.toList = chars ++ read := by
  induction fuel using Nat.strongRecOn generalizing text chars with
  | ind fuel ih =>
  cases text with
  | nil => cases fuel <;> (rw [encode_nil, characters] at h; cases h)
  | cons c text =>
    rcases eq_or_ne c '\x22' with rfl | hquote
    · cases fuel with
      | zero =>
        rw [characters] at h
        cases h
      | succ fuel =>
        rw [encode_ascii_cons (by decide), characters_quote] at h
        cases h
        exact ⟨[], [], text, rfl, rfl, .nil, by rw [String.toList_ofList, List.append_nil]⟩
    rcases eq_or_ne c '\x5c' with rfl | hescape
    · cases fuel with
      | zero =>
        rw [characters] at h
        cases h
      | succ fuel =>
        rw [encode_ascii_cons (by decide), characters_escape, bind_ok_iff] at h
        obtain ⟨⟨escaped, after⟩, hescaped, h⟩ := h
        obtain ⟨piece, d, hspells, hbytes, rfl⟩ := escape_sound hescaped
        obtain ⟨left, rfl, rfl⟩ := exists_left_of_encode hbytes
        rw [← encode_append] at h
        obtain ⟨body, read, rest, rfl, hrest, hbody, hs⟩ := ih fuel (Nat.lt_succ_self fuel) h
        refine ⟨'\x5c' :: piece ++ body, d :: read, rest, ?_, hrest, .cons hspells hbody, ?_⟩
        · rw [List.append_assoc, List.cons_append]
        · rw [hs, List.append_assoc]
          rfl
    rcases Nat.lt_or_ge c.toNat 0x20 with hcontrol | hcontrol
    · rw [encode_ascii_cons (by omega)] at h
      cases fuel with
      | zero =>
        rw [characters] at h
        cases h
      | succ fuel => exact (characters_control hcontrol _ _ _ _ h).elim
    · have hplain : ∀ byte ∈ String.utf8EncodeChar c, IsPlainByte byte := fun _ =>
        isPlainByte_of_mem hcontrol hquote hescape
      have hbytes : encode (c :: text) = String.utf8EncodeChar c ++ encode text := List.flatMap_cons ..
      rw [hbytes] at h
      obtain ⟨less, rfl⟩ := fuel_of_characters_plain hplain h
      have hpos := List.length_pos_of_ne_nil (utf8EncodeChar_ne_nil c)
      have hsingle : String.utf8EncodeChar c = encode [c] := (List.append_nil _).symm
      rw [characters_plain hplain, hsingle, ← encode_append] at h
      obtain ⟨body, read, rest, rfl, hrest, hbody, hs⟩ := ih less (by omega) h
      refine ⟨[c] ++ body, c :: read, rest, rfl, hrest, .cons (.plain hcontrol hquote hescape) hbody, ?_⟩
      rw [hs, List.append_assoc]
      rfl

/-- A spelling of a character is the character, or a backslash and more. -/
theorem spells_cases {piece : List Char} {c : Char} (h : Spells piece c) :
    (piece = [c] ∧ 0x20 ≤ c.toNat ∧ c ≠ '\x22' ∧ c ≠ '\x5c') ∨
      ∃ text, piece = '\x5c' :: text ∧ Spells ('\x5c' :: text) c := by
  cases h with
  | plain hcontrol hquote hescape => exact .inl ⟨rfl, hcontrol, hquote, hescape⟩
  | short h => exact .inr ⟨_, rfl, .short h⟩
  | unicode h hleading htrailing => exact .inr ⟨_, rfl, .unicode h hleading htrailing⟩
  | pair hhigh hleading hlow htrailing => exact .inr ⟨_, rfl, .pair hhigh hleading hlow htrailing⟩

theorem characters_complete {body read : List Char} (h : SpellsAll body read) {fuel : Nat}
    {chars : List Char} {rest : Bytes} (hfuel : (encode body).length < fuel) :
    characters size fuel (encode body ++ ascii '\x22' :: rest) (encode chars) =
      .ok (String.ofList (chars ++ read), rest) := by
  induction h generalizing fuel chars with
  | nil =>
    obtain ⟨less, rfl⟩ := Nat.exists_eq_succ_of_ne_zero (Nat.ne_of_gt hfuel)
    rw [List.append_nil, encode_nil, List.nil_append, characters_quote]
  | @cons piece text c read hpiece htext ih =>
    rw [encode_append, List.length_append] at hfuel
    rw [encode_append, List.append_assoc]
    have hread : chars ++ c :: read = chars ++ [c] ++ read := by rw [List.append_assoc]; rfl
    rcases spells_cases hpiece with ⟨rfl, hcontrol, hquote, hescape⟩ | ⟨escaped, rfl, hspells⟩
    · have hsingle : encode [c] = String.utf8EncodeChar c := List.append_nil _
      obtain ⟨less, rfl⟩ : ∃ less, fuel = less + (encode [c]).length :=
        ⟨fuel - (encode [c]).length, by omega⟩
      have hplain : ∀ byte ∈ encode [c], IsPlainByte byte := fun byte hbyte =>
        isPlainByte_of_mem hcontrol hquote hescape (hsingle ▸ hbyte)
      rw [characters_plain hplain, ← encode_append, ih (by omega), hread]
    · obtain ⟨less, rfl⟩ : ∃ less, fuel = less + 1 := ⟨fuel - 1, by omega⟩
      rw [encode_ascii_cons (by decide), List.cons_append, characters_escape, escape_complete hspells]
      show characters size less _ _ = _
      rw [encode_ascii_cons (by decide), List.length_cons] at hfuel
      rw [← encode_append, ih (by omega), hread]

theorem string_sound {text : List Char} {s : String} {rest : Bytes}
    (h : string size (encode ('\x22' :: text)) = .ok (s, rest)) :
    ∃ piece left, '\x22' :: text = piece ++ left ∧ rest = encode left ∧ IsString piece s := by
  rw [string, encode_ascii_cons (by decide), List.tail_cons] at h
  change characters size _ (encode text) (encode []) = _ at h
  obtain ⟨body, read, left, rfl, hrest, hbody, hs⟩ := characters_sound h
  refine ⟨'\x22' :: (body ++ ['\x22']), left, ?_, hrest, body, ?_, rfl⟩
  · rw [List.cons_append, List.append_assoc]
    rfl
  · rw [hs]
    exact hbody

theorem string_complete {text : List Char} {s : String} (h : IsString text s) (rest : Bytes) :
    string size (encode text ++ rest) = .ok (s, rest) := by
  obtain ⟨body, hbody, rfl⟩ := h
  have hbytes : encode ('\x22' :: (body ++ ['\x22'])) ++ rest =
      ascii '\x22' :: (encode body ++ ascii '\x22' :: rest) := by
    rw [encode_ascii_cons (by decide), encode_append, List.cons_append, List.append_assoc]
    rfl
  rw [hbytes, string, List.tail_cons]
  have hlength : (encode body).length < (ascii '\x22' :: (encode body ++ ascii '\x22' :: rest)).length := by
    rw [List.length_cons, List.length_append]
    omega
  have hread : characters size _ _ (encode []) = .ok (String.ofList ([] ++ s.toList), rest) :=
    characters_complete hbody hlength
  rw [List.nil_append, String.ofList_toList] at hread
  exact hread

/-! ## White space -/

theorem isSpace_ascii {c : Char} (h : isJsonSpace c = true) :
    c.toNat < 128 ∧ isSpace (ascii c) = true := by
  simp only [isJsonSpace, Bool.or_eq_true, beq_iff_eq] at h
  rcases h with ((rfl | rfl) | rfl) | rfl <;> decide

theorem isJsonSpace_of_isSpace {byte : UInt8} (h : isSpace byte = true) :
    ∃ c, byte = ascii c ∧ isJsonSpace c = true := by
  simp only [isSpace, Bool.or_eq_true, beq_iff_eq] at h
  rcases h with ((rfl | rfl) | rfl) | rfl
  · exact ⟨' ', rfl, rfl⟩
  · exact ⟨'\n', rfl, rfl⟩
  · exact ⟨'\r', rfl, rfl⟩
  · exact ⟨'\t', rfl, rfl⟩

theorem whitespace_sound (text : List Char) :
    ∃ space left, text = space ++ left ∧ Blank space ∧ whitespace (encode text) = encode left := by
  induction text with
  | nil => exact ⟨[], [], rfl, nofun, rfl⟩
  | cons c text ih =>
    by_cases hspace : isJsonSpace c = true
    · obtain ⟨space, left, rfl, hblank, hleft⟩ := ih
      obtain ⟨hlt, hbyte⟩ := isSpace_ascii hspace
      refine ⟨c :: space, left, rfl, ?_, ?_⟩
      · intro d hd
        rcases List.mem_cons.mp hd with rfl | hd
        · exact hspace
        · exact hblank d hd
      · rw [encode_ascii_cons hlt, whitespace, List.dropWhile_cons_of_pos hbyte]
        exact hleft
    · refine ⟨[], c :: text, rfl, nofun, ?_⟩
      obtain ⟨byte, rest, hbytes⟩ := List.exists_cons_of_ne_nil (utf8EncodeChar_ne_nil c)
      have hencode : encode (c :: text) = byte :: (rest ++ encode text) := by
        rw [encode, List.flatMap_cons, hbytes]
        rfl
      rw [hencode, whitespace, List.dropWhile_cons_of_neg]
      intro hbyte
      obtain ⟨d, rfl, hd⟩ := isJsonSpace_of_isSpace hbyte
      obtain ⟨left, hleft, -⟩ := exists_left_of_head (isSpace_ascii hd).1 hencode
      exact hspace ((List.cons.inj hleft).1 ▸ hd)

theorem whitespace_complete {space : List Char} {rest : Bytes} (h : Blank space)
    (hrest : rest.head?.any isSpace = false) : whitespace (encode space ++ rest) = rest := by
  induction space with
  | nil =>
    cases rest with
    | nil => rfl
    | cons byte rest =>
      have hbyte : isSpace byte = false := hrest
      exact List.dropWhile_cons_of_neg (by rw [hbyte]; exact Bool.false_ne_true)
  | cons c space ih =>
    obtain ⟨hlt, hbyte⟩ := isSpace_ascii (h c List.mem_cons_self)
    rw [encode_ascii_cons hlt, List.cons_append, whitespace, List.dropWhile_cons_of_pos hbyte]
    exact ih fun d hd => h d (List.mem_cons_of_mem c hd)

end Tally.Driver.Parser
